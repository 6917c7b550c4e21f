import ApiReference.Failure
import ApiReference.Settings.Reader

namespace ApiReference

/-! The settings of a project. -/

def defaultSymbolsFile : String := "mikedoc.json"

structure Settings where
  projectName : String
  projectUrl : String
  packageDir : String
  apiDir : String
  symbols : String := defaultSymbolsFile
deriving DecidableEq

namespace Settings

def fileName : String := "mikedoc.toml"

/-- The settings under their keys. -/
def values (settings : Settings) : List (String × String) :=
  [("project_name", settings.projectName), ("project_url", settings.projectUrl),
   ("pkg_dir", settings.packageDir), ("api_dir", settings.apiDir), ("symbols", settings.symbols)]

def keys : List String := ["project_name", "project_url", "pkg_dir", "api_dir", "symbols"]

/-- Every key is known and comes once; only the symbols file has a default. -/
def ofAssignments? (assignments : List (String × String)) : Option Settings := do
  let given := assignments.map Prod.fst
  guard (given.all keys.contains ∧ given.Nodup)
  return {
    projectName := ← assignments.lookup "project_name"
    projectUrl := ← assignments.lookup "project_url"
    packageDir := ← assignments.lookup "pkg_dir"
    apiDir := ← assignments.lookup "api_dir"
    symbols := (assignments.lookup "symbols").getD defaultSymbolsFile }

/-- The first key whose value is blank. -/
def blankKey? (settings : Settings) : Option String :=
  (settings.values.find? fun (_, value) => Text.isBlank value).map Prod.fst

def parse (text : String) : Except Failure Settings :=
  match (SettingsText.parse? text).bind ofAssignments? with
  | none => .error .malformedSettings
  | some settings =>
      match settings.blankKey? with
      | some key => .error (.settings (.blankValue key))
      | none => .ok settings

end Settings

end ApiReference
