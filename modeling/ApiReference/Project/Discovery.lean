import ApiReference.FileTree.Basic
import ApiReference.Ranking
import ApiReference.SearchPath
import ApiReference.Symbols.Record

namespace ApiReference.Project

/-! Finding the source files of a package and the records of their modules. -/

def sourceExtension : String := "py"

/-- The source files below one entry of a directory. -/
structure Found where
  isDirectory : Bool
  name : String
  files : List Path

/-- Files come before directories, and each of the two in the order of names. -/
def Found.before (a b : Found) : Bool :=
  if a.isDirectory = b.isDirectory then a.name ≤ b.name else b.isDirectory

mutual

/-- The source files at or below a node that stands at `path`. -/
def sourcesBelow (path : Path) : Node → List Path
  | .file _ => if path.extension? = some sourceExtension then [path] else []
  | .directory entries => (rank Found.before (foundIn path entries)).flatMap (·.files)

def foundIn (path : Path) : List (String × Node) → List Found
  | [] => []
  | (name, node) :: rest =>
      ⟨node.isDirectory, name, sourcesBelow (path.push name) node⟩ :: foundIn path rest

end

def discover (tree : FileTree) (path : Path) : Except Failure (List Path) :=
  match tree.node? path with
  | some node => .ok (sourcesBelow path node)
  | none => .error .walk

/-- The record of the module that a file defines. It has to lie below the search path. -/
def loadModule (table : SymbolTable) (search : SearchPath) (name : String) (file : Path) :
    Except Failure ModuleRecord :=
  if search.reaches file then
    match table.module? name with
    | some record => .ok record
    | none => .error (.load name file.text .unrecorded)
  else .error (.load name file.text .unmounted)

def loadFile (table : SymbolTable) (search : SearchPath) (root : Path) (packageDir : String)
    (garbled : List String) (file : Path) : Except Failure ModuleRecord :=
  match moduleName? root packageDir file garbled with
  | some name => loadModule table search name file
  | none => .error (.load "?" file.text .unnamed)

/-- The records of all modules of a package, in the order in which their files are found.
The package is mounted for the time of the search. -/
def enumerate (tree : FileTree) (table : SymbolTable) (root : Path) (packageDir : String)
    (search : SearchPath) : Except Failure (List ModuleRecord) × SearchPath :=
  if parts packageDir = [] then (.error (.settings .emptyPackageDir), search)
  else
    let package := resolve root packageDir
    if tree.isDirectory package then
      search.withProject root packageDir fun mounted =>
        ((discover tree package).bind fun files =>
          files.mapM (loadFile table mounted root packageDir tree.garbled), mounted)
    else (.error (.settings (.packageNotFound package.text)), search)

end ApiReference.Project
