import ApiReference.FileTree.Basic
import ApiReference.Settings.Basic
import ApiReference.Text.Casing

namespace ApiReference.Settings

/-! The settings file at the root of a project: loading it and making a first one. -/

def path (root : Path) : Path := root.push fileName

def load (tree : FileTree) (root : Path) : Except Failure Settings :=
  match tree.read? (path root) with
  | some text => parse text
  | none => .error (.settings (.missingFile (path root).text))

def nameMark : String := "\x7bproject_name\x7d"

def packageMark : String := "\x7bpkg_dir\x7d"

/-- The first settings file, with marks for what depends on the project. -/
def draftText : String := "\n".intercalate
  ["# project name",
   "project_name = \"" ++ nameMark ++ "\"",
   "",
   "# project's website or README",
   "project_url = \"/README.md\"",
   "",
   "# package directory (relative path)",
   "pkg_dir = \"" ++ packageMark ++ "\"",
   "",
   "# API directory (relative path)",
   "api_dir = \"docs/api\"",
   "",
   "# symbol table produced by the reflection dump (relative path)",
   "symbols = \"" ++ defaultSymbolsFile ++ "\"",
   ""]

/-- The package has the name of the directory, with underscores for hyphens. It is looked
for at the root and is otherwise taken to be below `src`. -/
def defaultPackageDir (tree : FileTree) (root : Path) (name : String) : String :=
  let package := Text.replace "-" "_" name
  if tree.isDirectory (root.push package) then package else "src/" ++ package

/-- A directory whose name is no text gives no name to a project. -/
def draft (tree : FileTree) (root : Path) : Except Failure String :=
  match tree.absolute? root with
  | none => .error .fileTree
  | some root =>
      match root.fileName?.filter (· ∉ tree.garbled) with
      | none => .error (.settings (.unnamedDirectory root.text))
      | some name =>
          .ok (Text.replace packageMark (defaultPackageDir tree root name)
            (Text.replace nameMark (Text.capitalize name) draftText))

/-- Writes the first settings file, unless something has its name, and says whether it did. -/
def init (root : Path) : FileWork Bool := do
  if (← get).contains (path root) then return false
  FileWork.write (path root) (← FileWork.look (draft · root))
  return true

end ApiReference.Settings
