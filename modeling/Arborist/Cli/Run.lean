import Arborist.Cli.Arguments
import Arborist.Cli.Typing
import Arborist.Shell.Basic

/-!
A run of the command line program on given input. What it prints is a list of lines for standard
output and standard error; reading files is left to functions that the caller supplies.
-/

namespace Arborist.Cli

inductive Print where
  | out (text : String)
  | err (text : String)
  deriving DecidableEq, Repr

/-- Reads a file, or opens one for the log; a failure comes with its reason. -/
structure Files where
  read : String → Except String String
  openLog : String → Except String Unit

structure Report where
  exit : Nat
  prints : List Print
  deriving DecidableEq, Repr

namespace Report

def stdout (r : Report) : String :=
  Text.join "" (r.prints.filterMap fun p =>
    match p with
    | .out text => some text
    | .err _ => none)

def stderr (r : Report) : String :=
  Text.join "" (r.prints.filterMap fun p =>
    match p with
    | .out _ => none
    | .err text => some text)

end Report

def outLine (text : String) : Print := .out (text ++ "\n")

def errLine (text : String) : Print := .err (text ++ "\n")

def eventPrints (elapsed : String) : Event → List Print
  | .output text => if text.isEmpty then [] else [outLine text]
  | .error text => [errLine text]
  | .code code stale applied verbose =>
    outLine code ::
      (stale.toList.map fun e => errLine ("(stale: " ++ e ++ ")")) ++
      (if verbose then
        [outLine ("=> " ++ Decimal.digitText applied ++ " edit(s) applied (" ++ elapsed ++ "ms)")]
      else [])

def programName : String := "treedit-repl"

def helpText : String :=
  Text.join "\n"
    ["Interactive REPL for browsing and editing JavaScript syntax trees",
      "",
      "Usage: " ++ programName ++ " [OPTIONS] [SCRIPT]",
      "",
      "Arguments:",
      "  [SCRIPT]  Run REPL commands from this file instead of reading stdin",
      "",
      "Options:",
      "      --indent <WIDTH>   Spaces per indentation level in the generated code [default: 2]",
      "      --log-file <PATH>  Write logs to this file instead of stderr",
      "      --debug            Enable debug mode",
      "  -h, --help             Print help",
      "  -V, --version          Print version"]

def banner (shell : Shell) : List Print :=
  [outLine ("Treedit REPL v" ++ version)] ++
    (if shell.debug then [outLine "Debug mode: enabled"] else []) ++
    [outLine "Type .help for help, .quit to exit", outLine ""] ++
    eventPrints "" (.output shell.session.editor.code)

def farewell : Print := outLine "Goodbye!"

def feed (shell : Shell) (line : String) : Shell × List Event :=
  let trimmed := String.ofList (Text.trimChars (typedLine line.toList))
  if trimmed.isEmpty then (shell, [])
  else
    let reply := shell.echoLine trimmed
    (reply.shell, reply.events)

def converse (elapsed : String) (shell : Shell) : List String → List Print
  | [] => if shell.running then [farewell] else []
  | line :: rest =>
    if shell.running then
      let (next, events) := feed shell line
      events.flatMap (eventPrints elapsed) ++ converse elapsed next rest
    else []

def failed (message : String) : Report := ⟨1, [errLine ("Error: " ++ message)]⟩

def runScript (elapsed : String) (files : Files) (shell : Shell) (path : String) : Report :=
  match files.read path with
  | .error reason => failed ("Cannot read " ++ path ++ ": " ++ reason)
  | .ok script =>
    let done := shell.runScript script
    let count :=
      if shell.debug then [outLine (Decimal.digitText done.succeeded ++ " command(s) succeeded")]
      else []
    ⟨0, done.events.flatMap (eventPrints elapsed) ++ count⟩

def openShell (files : Files) (options : Options) : Except String Shell := do
  match options.logFile with
  | some path => files.openLog path
  | none => pure ()
  let session ← (Session.openSource options.width defaultSource).mapError OpenError.message
  return Shell.create session options.debug

def runOptions (elapsed : String) (files : Files) (options : Options) (input : String) : Report :=
  match openShell files options with
  | .error message => failed message
  | .ok shell =>
    match options.script with
    | some path => runScript elapsed files shell path
    | none =>
      let lines := (Text.lines input.toList).map String.ofList
      ⟨0, banner shell ++ converse elapsed shell lines⟩

def run (elapsed : String) (files : Files) (arguments : List String) (input : String) : Report :=
  match Request.ofArguments arguments with
  | .help => ⟨0, [outLine helpText]⟩
  | .version => ⟨0, [outLine (programName ++ " " ++ version)]⟩
  | .misuse => ⟨2, [errLine ("error: unexpected arguments, see " ++ programName ++ " --help")]⟩
  | .run options => runOptions elapsed files options input

end Arborist.Cli
