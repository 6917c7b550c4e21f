namespace ApiReference

/-! Failures: why a piece of work was given up. -/

/-- What is wrong with the settings of a project. -/
inductive SettingsProblem where
  | emptyPackageDir
  | emptyApiDir
  | packageNotFound (path : String)
  | missingFile (path : String)
  | blankValue (key : String)
  | unnamedDirectory (path : String)
deriving DecidableEq

def SettingsProblem.message : SettingsProblem → String
  | .emptyPackageDir => "pkg_dir shouldn't be empty"
  | .emptyApiDir => "api_dir shouldn't be empty"
  | .packageNotFound path => "package directory not found: " ++ path
  | .missingFile path =>
      "missing config file " ++ path ++ ", run the `init` command in the root dir"
  | .blankValue key => "`" ++ key ++ "` shouldn't be empty"
  | .unnamedDirectory path => "no usable directory name: " ++ path

/-- Why a source file that was found could not be taken as a module. -/
inductive LoadProblem where
  | unnamed
  | unmounted
  | unrecorded
deriving DecidableEq

def LoadProblem.message : LoadProblem → String
  | .unnamed => "cannot derive a dotted module name"
  | .unmounted => "file is not under a mounted search path"
  | .unrecorded => "no record in the symbol table"

inductive Failure where
  /-- The file tree refused an operation. -/
  | fileTree
  /-- A directory that should be walked is missing. -/
  | walk
  | malformedTable
  | malformedSettings
  /-- A template is unknown, or one of its slots has no value. -/
  | template
  | settings (problem : SettingsProblem)
  | load (moduleName file : String) (problem : LoadProblem)
  | missingFile (path : String)
  | other (message : String)
deriving DecidableEq

namespace Failure

/-- Failures of the settings are raised before any module is looked at. -/
def isSettings : Failure → Bool
  | .settings _ => true
  | .malformedSettings => true
  | _ => false

/-- Failures that stand for one of the tree, of a reader or of a walk. -/
def hasInnerCause : Failure → Bool
  | .fileTree | .walk | .malformedTable | .malformedSettings => true
  | _ => false

/-- The text of a failure. Where it stands for another one, that one's text is left open. -/
def message : Failure → String
  | .fileTree => "IO error: "
  | .walk => "Walk error: "
  | .malformedTable => "Serialization error: "
  | .malformedSettings => "Config format error: "
  | .template => "Template error: "
  | .settings problem => "Configuration error: " ++ problem.message
  | .load moduleName file problem =>
      "Failed to load module " ++ moduleName ++ " (" ++ file ++ "): " ++ problem.message
  | .missingFile path => "File not found: " ++ path
  | .other message => message

end Failure

end ApiReference
