import ApiReference.Path.Basic

namespace ApiReference

/-! Pages and their addresses: where a page is stored below the API directory, and the
address under which other pages link to it. -/

/-- A page of the reference; the home page belongs to no module. -/
structure Page where
  moduleName : Option String
  basename : String
  text : String
deriving DecidableEq, Inhabited

namespace Page

def homeName : String := "README.md"

def fieldsName : String := "fields.md"

def functionsName : String := "funcs.md"

def className (name : String) : String := "class-" ++ name ++ ".md"

/-- The directory that holds the pages of the modules. -/
def modulesDir : String := "modules"

/-- Where the page is stored, relative to the API directory. -/
def location (page : Page) : Path :=
  let directory := match page.moduleName with
    | some name => (Path.mk modulesDir).pushAll (Text.splitOn '.' name)
    | none => ⟨""⟩
  directory.push page.basename

def isBlank (page : Page) : Bool := Text.isBlank page.text

end Page

namespace Address

/-- A directory without the dots and slashes around it. -/
def bareDir (directory : String) : String :=
  Text.trimMatching (fun c => c = '.' || c = '/') directory

def ofPage (apiDir : String) (moduleName : Option String) (basename : String) : String :=
  match moduleName with
  | some name =>
      "/" ++ bareDir apiDir ++ "/" ++ Page.modulesDir ++ "/" ++ Text.replace "." "/" name ++ "/" ++
        basename
  | none => "/" ++ bareDir apiDir ++ "/" ++ basename

/-- The address of the source file of a module. -/
def ofSource (packageDir moduleName : String) : String :=
  "/" ++ bareDir packageDir ++ "/" ++ "/".intercalate (Text.splitOn '.' moduleName).tail ++ ".py"

end Address

end ApiReference
