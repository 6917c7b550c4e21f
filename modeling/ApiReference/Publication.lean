import ApiReference.FileTree.Basic
import ApiReference.Site.Address

namespace ApiReference.Publication

/-! Publishing pages into the directory of the API reference. The directory is cleared only
when it holds exactly what a publication leaves there. -/

def markerName : String := "MIKEDOC"

def markerText : String :=
  "API Reference generated with [MikeDoc](https://github.com/pyrustic/mikedoc).\n"

/-- Whether a directory holds the marker, the home page, the modules and nothing else. -/
def isGenerated (tree : FileTree) (directory : Path) : Bool :=
  match tree.node? directory with
  | some (.directory entries) =>
      entries.length = 3 && tree.isFile (directory.push markerName) &&
        tree.isFile (directory.push Page.homeName) &&
        tree.isDirectory (directory.push Page.modulesDir)
  | _ => false

/-- Removes a generated directory and says whether it was one. -/
def clear (directory : Path) : FileWork Bool := do
  if isGenerated (← get) directory then
    FileWork.remove directory
    return true
  else return false

/-- Leaves the marker, an empty home page and the directory of the modules. -/
def prepare (directory : Path) : FileWork Unit := do
  let _ ← clear directory
  FileWork.createDirectories (directory.push Page.modulesDir)
  FileWork.write (directory.push markerName) markerText
  FileWork.write (directory.push Page.homeName) ""

/-- Writes one page and gives its path; blank pages are not written. -/
def save (directory : Path) (page : Page) : FileWork (Option Path) := do
  if page.isBlank then return none
  let path := directory.join page.location
  FileWork.createParent path
  FileWork.write path page.text
  return some path

/-- Replaces the reference by the given pages and gives the paths of those written. -/
def publish (directory : Path) (pages : List Page) : FileWork (List Path) := do
  prepare directory
  return (← pages.mapM (save directory)).filterMap id

end ApiReference.Publication
