import ApiReference.Path.Basic
import ApiReference.Text.Casing

namespace ApiReference.Command

/-! The arguments of the command line. -/

inductive Action where
  | init
  | build
  | list
  | help
deriving DecidableEq, Repr

structure Options where
  action : Action
  root : Path
  quiet : Bool
deriving DecidableEq

def helpText : String := "\n".intercalate
  ["MikeDoc - Neat docstring format for generating API references",
   "https://github.com/pyrustic/mikedoc",
   "",
   "USAGE:",
   "    mikedoc <COMMAND> [--root DIR] [--quiet]",
   "",
   "COMMANDS:",
   "    init        Create the config file",
   "    build       Build the API reference",
   "    list        Print the documentation model",
   "    help        Print this help",
   "",
   "OPTIONS:",
   "    --root DIR  Project root directory (default: current directory)",
   "    --quiet     Only print warnings and errors"]

inductive UsageError where
  | missingRoot
  | unexpected (argument : String)
  | unknownCommand (argument : String)
  | unknownFlag (argument : String)
deriving DecidableEq

def UsageError.message : UsageError → String
  | .missingRoot => "--root requires a value"
  | .unexpected argument => "Unexpected argument: " ++ argument
  | .unknownCommand argument => "Unknown command: " ++ argument ++ "\n\n" ++ helpText
  | .unknownFlag argument => "Unknown flag: " ++ argument

/-- Commands are written in any case. -/
def Action.ofName? (name : String) : Option Action :=
  match Text.toLower name with
  | "init" => some .init
  | "build" => some .build
  | "list" => some .list
  | "help" => some .help
  | _ => none

/-- What has been read of the arguments. -/
structure Reading where
  action : Option Action := none
  root : Path := ⟨"."⟩
  quiet : Bool := false
deriving DecidableEq

def Reading.options (reading : Reading) : Options :=
  ⟨reading.action.getD .help, reading.root, reading.quiet⟩

def isRootFlag (argument : String) : Bool := argument = "--root" || argument = "-r"

/-- An argument other than the root flag. A help flag counts as a command for the
arguments after it and takes the place of one before it. -/
def Reading.argument (reading : Reading) (argument : String) : Except UsageError Reading :=
  if argument = "--quiet" || argument = "-q" then .ok { reading with quiet := true }
  else if argument = "--help" || argument = "-h" then .ok { reading with action := some .help }
  else if Text.startsWith "-" argument then .error (.unknownFlag argument)
  else if reading.action.isSome then .error (.unexpected argument)
  else
    match Action.ofName? argument with
    | some action => .ok { reading with action := some action }
    | none => .error (.unknownCommand argument)

def Reading.arguments (reading : Reading) : List String → Except UsageError Options
  | [] => .ok reading.options
  | [argument] =>
      if isRootFlag argument then .error .missingRoot
      else (reading.argument argument).map Reading.options
  | argument :: next :: rest =>
      if isRootFlag argument then { reading with root := ⟨next⟩ : Reading }.arguments rest
      else
        match reading.argument argument with
        | .ok reading => reading.arguments (next :: rest)
        | .error error => .error error

def parse (arguments : List String) : Except UsageError Options :=
  ({} : Reading).arguments arguments

end ApiReference.Command
