import Arborist.Number.Decimal
import Arborist.Text.Join

/-!
Arguments of the command line: an optional script, and options that are given at most once, with
their value behind an equals sign or as the next argument. The first argument that settles the
matter does so: a request for help or the version, or one that does not fit.
-/

namespace Arborist.Cli

structure Options where
  script : Option String
  width : Nat
  logFile : Option String
  debug : Bool
  deriving DecidableEq, Repr

inductive Request where
  | help
  | version
  | misuse
  | run (options : Options)
  deriving DecidableEq, Repr

structure Draft where
  script : Option String
  width : Option Nat
  logFile : Option String
  debug : Bool
  deriving DecidableEq, Repr

namespace Draft

def empty : Draft := ⟨none, none, none, false⟩

def options (d : Draft) : Options := ⟨d.script, d.width.getD 2, d.logFile, d.debug⟩

end Draft

/-- A lone dash is an ordinary word. -/
def isOption (word : String) : Bool := Text.beginsWith word "-" && word != "-"

def splitOption (word : String) : String × Option String :=
  let cs := word.toList
  match cs.dropWhile (· != '=') with
  | [] => (word, none)
  | _ :: value => (String.ofList (cs.takeWhile (· != '=')), some (String.ofList value))

inductive ValueOption where
  | indent
  | logFile
  deriving DecidableEq, Repr

def Draft.setValue? (d : Draft) (option : ValueOption) (value : String) : Option Draft :=
  match option with
  | .indent =>
    match d.width, Decimal.readCount? value.toList with
    | none, some n => some { d with width := some n }
    | _, _ => none
  | .logFile =>
    match d.logFile with
    | none => some { d with logFile := some value }
    | some _ => none

def Draft.setScript? (d : Draft) (word : String) : Option Draft :=
  match d.script with
  | none => some { d with script := some word }
  | some _ => none

/-- After a double dash every argument is an ordinary word. -/
def readWords (d : Draft) : List String → Request
  | [] => .run d.options
  | word :: rest =>
    match d.setScript? word with
    | some next => readWords next rest
    | none => .misuse

inductive OptionWord where
  | help
  | version
  | debug
  | value (option : ValueOption) (given : Option String)
  | unknown
  deriving DecidableEq, Repr

def OptionWord.ofWord (word : String) : OptionWord :=
  if Text.beginsWith word "--" then
    match splitOption word with
    | ("--help", none) => .help
    | ("--version", none) => .version
    | ("--debug", none) => .debug
    | ("--indent", given) => .value .indent given
    | ("--log-file", given) => .value .logFile given
    | _ => .unknown
  else if Text.beginsWith word "-h" then .help
  else if Text.beginsWith word "-V" then .version
  else .unknown

def readArguments (d : Draft) : List String → Request
  | [] => .run d.options
  | word :: rest =>
    if word = "--" then readWords d rest
    else if isOption word then
      match OptionWord.ofWord word with
      | .help => .help
      | .version => .version
      | .debug => if d.debug then .misuse else readArguments { d with debug := true } rest
      | .value option (some value) =>
        match d.setValue? option value with
        | some next => readArguments next rest
        | none => .misuse
      | .value option none =>
        match rest with
        | [] => .misuse
        | value :: more =>
          if isOption value then .misuse
          else
            match d.setValue? option value with
            | some next => readArguments next more
            | none => .misuse
      | .unknown => .misuse
    else
      match d.setScript? word with
      | some next => readArguments next rest
      | none => .misuse

def Request.ofArguments (arguments : List String) : Request :=
  readArguments Draft.empty arguments

end Arborist.Cli
