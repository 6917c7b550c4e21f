import ApiReference.Command.Run
import ApiReference.FileTree.Changes

namespace ApiReference.Terminal

/-! The program: it takes in the files around the project, runs the command on them, and
carries the changes out. -/

def pathText (location : Node.Location) : String := "/" ++ "/".intercalate location

def locationOf (path : String) : Node.Location :=
  (Path.mk path).pieces.filter (!Path.isIdle ·)

/-- Puts a node at a location and makes the directories above it that are missing. -/
def place (node : Node) : Node.Location → Option Node → Node
  | [], _ => node
  | name :: rest, some (.directory entries) =>
      .directory (Node.alterEntry name (fun child => some (place node rest child)) entries)
  | name :: rest, _ => .directory [(name, place node rest none)]

/-- Text of a file; files that hold no text are never needed as such. -/
def readText (path : String) : IO String := do
  try IO.FS.readFile path catch _ => return ""

/-- Reads a file or a directory with all it holds. Links are not followed, and names are read as
text, so that no name in the tree is garbled. -/
partial def readNode (path : String) : IO (Option Node) := do
  let found ← IO.FS.realPath path
  match (← found.symlinkMetadata).type with
  | .file => return some (.file (← readText path))
  | .dir =>
      let mut entries : Node.Entries := []
      for entry in ← found.readDir do
        if (← entry.path.symlinkMetadata).type != .symlink then
          if let some node ← readNode entry.path.toString then
            entries := Node.insertEntry entry.fileName node entries
      return some (.directory entries)
  | _ => return none

/-- Adds what is at a path to a tree. A path that leads nowhere adds nothing. -/
def takeIn (root : Node) (path : String) : IO Node := do
  try
    let real := (← IO.FS.realPath path).toString
    match ← readNode real with
    | some node => return place node (locationOf real) (some root)
    | none => return root
  catch _ => return root

/-- The directory of the project, and its symbols file if that is elsewhere. -/
def readTree (arguments : List String) : IO FileTree := do
  let here := locationOf (← IO.currentDir).toString
  let empty := place (.directory []) here none
  match Command.parse arguments with
  | .error _ => return { root := empty, here, limits := .usual }
  | .ok options =>
      let root ← takeIn empty (if options.root.text = "" then "." else options.root.text)
      let tree : FileTree := { root, here, limits := .usual }
      match Project.load tree options.root with
      | .ok project =>
          if tree.contains project.symbolsPath then return tree
          return { tree with root := ← takeIn root project.symbolsPath.text }
      | .error _ => return tree

def carryOut : Change → IO Unit
  | .remove location => do
      let path := pathText location
      try IO.FS.removeFile path catch _ => IO.FS.removeDirAll path
  | .makeDirectory location => IO.FS.createDirAll (pathText location)
  | .writeFile location text => IO.FS.writeFile (pathText location) text

/-- Colours are used on a terminal that has them, unless they are switched off. -/
def wantsColour : IO Bool := do
  match ← IO.getEnv "TERM" with
  | none => return false
  | some term => return Command.usesColour term && (← IO.getEnv "NO_COLOR").isNone

/-- Runs the command and gives its exit code. -/
def run (arguments : List String) : IO UInt32 := do
  let before ← readTree arguments
  let (outcome, after) := (Command.run arguments (← wantsColour)).run before
  for change in Node.changes [] (some before.root) after.root do
    carryOut change
  IO.print outcome.output
  IO.eprint outcome.errors
  return outcome.code.toUInt32

end ApiReference.Terminal

def main (arguments : List String) : IO UInt32 := ApiReference.Terminal.run arguments
