import ApiReference.Failure
import ApiReference.Path.Basic

namespace ApiReference.Project

/-! Where the parts of a project are: directories given relative to its root, the place
from which its package is found, and the names of its modules. -/

/-- The parts of a relative directory. Slashes around it do not count, nor do single dots. -/
def parts (relative : String) : List String :=
  let trimmed := Text.trimMatching (· = '/') relative
  let inner := (Text.after? "./" trimmed).getD trimmed
  (Text.splitOn '/' inner).filter (!Path.isIdle ·)

def resolve (root : Path) (relative : String) : Path := root.pushAll (parts relative)

/-- The name of the package: the last part of its directory. -/
def packageName? (packageDir : String) : Option String := (parts packageDir).getLast?

/-- The directory that holds the package. -/
def mountPoint (root : Path) (packageDir : String) : Except Failure Path :=
  if parts packageDir = [] then .error (.settings .emptyPackageDir)
  else .ok (root.pushAll (parts packageDir).dropLast)

/-- The directory of the API reference. -/
def apiPath (root : Path) (apiDir : String) : Except Failure Path :=
  if parts apiDir = [] then .error (.settings .emptyApiDir)
  else .ok (resolve root apiDir)

/-- The dotted name of a source file: the package, the directories below it and the name of
the file without its extension. Names that are no text are passed over, and the last one left
loses its extension. Files outside the package have no name. -/
def moduleName? (root : Path) (packageDir : String) (file : Path) (garbled : List String := []) :
    Option String := do
  let package := resolve root packageDir
  let below ← Path.componentsAfter? package file
  -- a part that the directory was given with is text, whatever the tree holds
  let packageName ← package.fileName?.filter fun name => name ∈ parts packageDir || name ∉ garbled
  let legible := below.filter fun component => component.text ∉ garbled
  let stem ← (← legible.getLast?) |> fun
    | .name text => some (Path.cutName text).1
    | _ => none
  return ".".intercalate (packageName :: legible.dropLast.map Component.text ++ [stem])

end ApiReference.Project
