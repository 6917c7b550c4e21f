import ApiReference.Model.Inspection
import ApiReference.Project.Discovery
import ApiReference.Publication
import ApiReference.Settings.File
import ApiReference.Site.Rendering
import ApiReference.Symbols.Decoding

namespace ApiReference

/-! A project and the building of its API reference. -/

structure Project where
  root : Path
  projectName : String := ""
  projectUrl : String := "/README.md"
  packageDir : String := ""
  apiDir : String := "docs/api"
  symbols : String := defaultSymbolsFile
  /-- A symbol table that takes the place of the symbols file. -/
  table : Option SymbolTable := none

/-- The symbol table in a file. -/
def SymbolTable.load (tree : FileTree) (path : Path) : Except Failure SymbolTable :=
  match tree.read? path with
  | none => .error (.missingFile path.text)
  | some text =>
      match SymbolTable.parse? text with
      | some table => .ok table
      | none => .error .malformedTable

/-- What a build did. -/
structure BuildReport where
  files : List Path
  apiPath : Path
  /-- The number of modules that have members. -/
  moduleCount : Nat
  findings : List Finding

namespace Project

def ofSettings (root : Path) (settings : Settings) : Project where
  root
  projectName := settings.projectName
  projectUrl := settings.projectUrl
  packageDir := settings.packageDir
  apiDir := settings.apiDir
  symbols := settings.symbols

def load (tree : FileTree) (root : Path) : Except Failure Project :=
  (Settings.load tree root).map (ofSettings root)

def symbolsPath (project : Project) : Path := project.root.push project.symbols

def loadTable (tree : FileTree) (project : Project) : Except Failure SymbolTable :=
  match project.table with
  | some table => .ok table
  | none => SymbolTable.load tree project.symbolsPath

def siteContext (project : Project) : SiteContext where
  projectName := project.projectName
  projectUrl := project.projectUrl
  packageDir := project.packageDir
  apiDir := project.apiDir

/-- The models of all modules of the package and what was found on the way. -/
def browse (tree : FileTree) (project : Project) (table : SymbolTable) :
    Except Failure (List ModuleModel × List Finding) :=
  (enumerate tree table project.root project.packageDir {}).1.map table.describe

/-- What is published, found without touching the tree. -/
structure BuildPlan where
  apiPath : Path
  models : List ModuleModel
  findings : List Finding
  pages : List Page

def plan (tree : FileTree) (project : Project) : Except Failure BuildPlan := do
  let apiPath ← Project.apiPath project.root project.apiDir
  let table ← loadTable tree project
  let (models, findings) ← browse tree project table
  let pages ← project.siteContext.pages models
  return { apiPath, models, findings, pages }

/-- Publishes the reference of a project. Nothing is written before all pages are ready. -/
def build (project : Project) : FileWork BuildReport := do
  let plan ← FileWork.look (plan · project)
  let files ← Publication.publish plan.apiPath plan.pages
  return {
    files
    apiPath := plan.apiPath
    moduleCount := (SiteContext.documented plan.models).length
    findings := plan.findings }

end Project

end ApiReference
