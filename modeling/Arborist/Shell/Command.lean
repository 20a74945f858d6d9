import Arborist.Node.Path

/-!
Commands of the shell. A command starts with a dot and its name; the other words are its arguments,
and the value of a `set` command is the whole rest of the line.
-/

namespace Arborist

inductive Command where
  | help
  | quit
  | debug
  | tree
  | code
  | toggle (path : Path)
  | fields (path : Path)
  | json (path : Path)
  | set (path : Path) (field value : String)
  deriving DecidableEq, Repr

inductive CommandError where
  | noDot
  | empty
  | unknown (name : String)
  | usage (form : String)
  | path (error : PathError)
  deriving DecidableEq, Repr

namespace CommandError

def message : CommandError → String
  | .noDot => "Commands must start with '.'"
  | .empty => "Empty command"
  | .unknown name => "Unknown command: ." ++ name
  | .usage form => "Usage: " ++ form
  | .path error => error.message

end CommandError

namespace Command

def readPath (word : List Char) : Except CommandError Path :=
  (Path.ofText (String.ofList word)).mapError .path

def onePath (form : String) (arguments : List (List Char)) : Except CommandError Path :=
  match arguments with
  | [word] => readPath word
  | _ => .error (.usage form)

def pathOrRoot (form : String) (arguments : List (List Char)) : Except CommandError Path :=
  match arguments with
  | [] => .ok Path.root
  | [word] => readPath word
  | _ => .error (.usage form)

def readSet (rest : List Char) : Except CommandError Command :=
  let usage : CommandError := .usage ".set <path> <field> <value>"
  match Text.nextWord? rest with
  | none => .error usage
  | some (pathWord, afterPath) =>
    match Text.nextWord? afterPath with
    | none => .error usage
    | some (fieldWord, afterField) =>
      let value := Text.trimChars afterField
      if value.isEmpty then .error usage
      else
        (readPath pathWord).map fun path =>
          .set path (String.ofList fieldWord) (String.ofList value)

def ofName (name : String) (rest : List Char) : Except CommandError Command :=
  let arguments := Text.words rest
  match name with
  | "help" | "h" => .ok .help
  | "quit" | "q" | "exit" => .ok .quit
  | "debug" => .ok .debug
  | "tree" | "t" => .ok .tree
  | "code" | "c" => .ok .code
  | "toggle" | "o" => (onePath ".toggle <path>" arguments).map .toggle
  | "fields" | "f" => (pathOrRoot ".fields [path]" arguments).map .fields
  | "json" => (pathOrRoot ".json [path]" arguments).map .json
  | "set" => readSet rest
  | _ => .error (.unknown name)

def ofLine (line : String) : Except CommandError Command :=
  match Text.trimChars line.toList with
  | '.' :: rest =>
    match Text.nextWord? rest with
    | none => .error .empty
    | some (name, after) => ofName (String.ofList name) after
  | _ => .error .noDot

end Command

end Arborist
