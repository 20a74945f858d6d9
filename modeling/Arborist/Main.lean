import Arborist.Cli.Run

/-!
The command line program: files, standard input and the clock around the pure run.
-/

namespace Arborist.Cli

def emit (p : Print) : IO Unit := do
  match p with
  | .out text =>
    let stream ← IO.getStdout
    stream.putStr text
    stream.flush
  | .err text =>
    let stream ← IO.getStderr
    stream.putStr text
    stream.flush

def osReason (code : UInt32) (details : String) : String :=
  details ++ " (os error " ++ Decimal.digitText code.toNat ++ ")"

def reason : IO.Error → String
  | .noFileOrDirectory _ code details => osReason code details
  | .permissionDenied _ code details => osReason code details
  | .inappropriateType _ code details => osReason code details
  | .invalidArgument _ code details => osReason code details
  | .resourceExhausted _ code details => osReason code details
  | .otherError code details => osReason code details
  | e => toString e

def attempt {α : Type} (action : IO α) : IO (Except String α) := do
  match ← action.toBaseIO with
  | .ok result => return .ok result
  | .error e => return .error (reason e)

def filesFor (options : Options) : IO Files := do
  let script ← match options.script with
    | some path => attempt (IO.FS.withFile path .read (·.readToEnd))
    | none => pure (.error "")
  let log ← match options.logFile with
    | some path => attempt (do let _ ← IO.FS.Handle.mk path .append)
    | none => pure (.ok ())
  return { read := fun _ => script, openLog := fun _ => log }

partial def loop (input : IO.FS.Stream) (interactive : Bool) (shell : Shell) : IO Unit := do
  if shell.running then
    if interactive then emit (.out "treedit> ")
    let line ← input.getLine
    if line.isEmpty then emit farewell
    else
      let start ← IO.monoMsNow
      let (next, events) := feed shell line
      let elapsed := (← IO.monoMsNow) - start
      let shown := if interactive then events.drop 1 else events
      (shown.flatMap (eventPrints (Decimal.digitText elapsed))).forM emit
      loop input interactive next

def start (options : Options) : IO UInt32 := do
  let files ← filesFor options
  match options.script, openShell files options with
  | none, .ok shell =>
    (banner shell).forM emit
    let input ← IO.getStdin
    loop input (← input.isTty) shell
    return 0
  | _, _ =>
    let report := runOptions "0" files options ""
    report.prints.forM emit
    return report.exit.toUInt32

end Arborist.Cli

def main (arguments : List String) : IO UInt32 := do
  match Arborist.Cli.Request.ofArguments arguments with
  | .run options => Arborist.Cli.start options
  | _ =>
    let none : Arborist.Cli.Files :=
      { read := fun _ => .error "", openLog := fun _ => .ok () }
    let report := Arborist.Cli.run "0" none arguments ""
    report.prints.forM Arborist.Cli.emit
    return report.exit.toUInt32
