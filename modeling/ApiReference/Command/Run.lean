import ApiReference.Command.Arguments
import ApiReference.Listing.Basic
import ApiReference.Project.Build

namespace ApiReference.Command

/-! Running a command on a file tree. -/

/-- What a run leaves behind beside the tree. -/
structure Outcome where
  code : Nat := 0
  output : String := ""
  errors : String := ""
deriving DecidableEq

/-- A failure under a heading that says what was tried. -/
structure Trouble where
  attempt : String
  cause : Failure
deriving DecidableEq

namespace Trouble

/-- Lines after the first one are indented like it. A cause that stands for another one is
numbered and left open. -/
def render (trouble : Trouble) : String :=
  let cause :=
    if trouble.cause.hasInnerCause then "    0: " ++ trouble.cause.message
    else "    " ++ Text.replace "\n" "\n    " trouble.cause.message ++ "\n"
  "Error: " ++ trouble.attempt ++ "\n\nCaused by:\n" ++ cause

end Trouble

abbrev Work := ExceptT Trouble (StateM FileTree)

/-- Names the attempt that the failures of some work belong to. -/
def attempt {α : Type} (description : String) (work : FileWork α) : Work α := do
  match ← (work.run : StateM FileTree (Except Failure α)) with
  | .ok value => return value
  | .error cause => throw ⟨description, cause⟩

def loadProject (root : Path) : Work Project :=
  attempt ("Invalid or missing " ++ Settings.fileName ++ ". Run the 'init' command in the root dir.")
    (FileWork.look (Project.load · root))

def runInit (root : Path) (quiet : Bool) : Work String := do
  let created ← attempt ("Failed to create " ++ Settings.fileName ++ " in " ++ root.text)
    (Settings.init root)
  let what := if created then "created !" else "already exists."
  return if quiet then "" else "Config file '" ++ Settings.fileName ++ "' " ++ what ++ "\n"

def runBuild (root : Path) (quiet : Bool) : Work String := do
  let project ← loadProject root
  let report ← attempt "Failed to build the API reference" project.build
  return if quiet then "" else
    "API reference built in '" ++ project.apiDir ++ "' ! (" ++ toString report.moduleCount ++
      " modules, " ++ toString report.files.length ++ " pages)\n"

def runList (root : Path) (coloured : Bool) : Work String := do
  let project ← loadProject root
  let table ← attempt "Failed to load the symbol table" (FileWork.look (Project.loadTable · project))
  let (models, _) ← attempt "Failed to browse the package"
    (FileWork.look (Project.browse · project table))
  let listing := Listing.ofModels models
  return if coloured then StyledText.coloured listing else StyledText.plain listing

def runAction (options : Options) (coloured : Bool) : Work String :=
  match options.action with
  | .init => runInit options.root options.quiet
  | .build => runBuild options.root options.quiet
  | .list => runList options.root coloured
  | .help => return helpText ++ "\n"

/-- Runs the command that the arguments ask for. -/
def run (arguments : List String) (coloured : Bool) : StateM FileTree Outcome := do
  match parse arguments with
  | .error error => return { code := 1, errors := "Error: " ++ error.message ++ "\n" }
  | .ok options =>
      match ← (runAction options coloured).run with
      | .ok output => return { output }
      | .error trouble => return { code := 1, errors := trouble.render }

def usesColour (term : String) : Bool := term ≠ "dumb"

/-- Starts a run on a terminal. It takes a directory to start in, and words that the limits of
the tree admit. -/
def launch (arguments : List String) (term : String) : FileWork Outcome := do
  let tree ← get
  if FileTree.isDirectoryAt tree.root tree.here && (term :: arguments).all tree.limits.admitsText then
    (run arguments (usesColour term) : StateM FileTree Outcome)
  else throw .fileTree

end ApiReference.Command
