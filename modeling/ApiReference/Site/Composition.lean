import ApiReference.Model.Basic
import ApiReference.Project.Layout
import ApiReference.Site.Content
import ApiReference.Text.Markup

namespace ApiReference.SiteContext

/-! What goes on which page: from the models of modules to drafts of pages. -/

def homeSummaryLength : Nat := 256

def overviewSummaryLength : Nat := 128

def noDocstring : String := "No docstring."

def noClassDocstring : String := "No class docstring."

def noDescription : String := "No description."

/-- The sections of a class page to which its members link. -/
def fieldsTitle : String := "Fields table"

def propertiesTitle : String := "Properties table"

variable (context : SiteContext)

def homeAddress : String := Address.ofPage context.apiDir none Page.homeName

def address (moduleName basename : String) : String :=
  Address.ofPage context.apiDir (some moduleName) basename

def overviewAddress (moduleName : String) : String := context.address moduleName Page.homeName

def overviewHeader (moduleName : String) : Header where
  homeAddress := context.homeAddress
  overviewAddress := none
  sourceAddress := Address.ofSource context.packageDir moduleName

def pageHeader (moduleName : String) : Header where
  homeAddress := context.homeAddress
  overviewAddress := some (context.overviewAddress moduleName)
  sourceAddress := Address.ofSource context.packageDir moduleName

def homeEntry (model : ModuleModel) : HomeEntry where
  moduleName := model.name
  address := context.overviewAddress model.name
  summary := Text.summary homeSummaryLength (model.docstring.description.getD noDocstring)

def valueLine (member : Member) : ValueLine := ⟨member.name, member.value⟩

def constantLine (constant : EnumConstant) : ValueLine := ⟨constant.name, some constant.value⟩

def recordLine (field : RecordField) : RecordLine := ⟨field.name, field.doc.getD noDescription⟩

def functionLine (moduleName : String) (member : Member) : FunctionLine where
  name := member.name
  address := context.address moduleName Page.functionsName ++ Text.anchor member.name
  summary := Text.summary overviewSummaryLength (member.docstring.description.getD noDocstring)

/-- The accessors of a property in one emphasised phrase. -/
def accessorsPhrase (accessors : List String) : String :=
  "_" ++ ", ".intercalate accessors ++ "_"

/-- A recorded value as a code span. -/
def valueSpan : Option String → String
  | some value => "`" ++ Text.escapeUnprintable value ++ "`"
  | none => "No value."

def classMemberLine (pageAddress : String) (member : ClassMember) : ClassMemberLine :=
  let (anchor, sign, description) := match member.kind with
    | .property => (Text.anchor propertiesTitle, ";", accessorsPhrase member.accessors)
    | .field => (Text.anchor fieldsTitle, " =", valueSpan member.declaration.value)
    | .method =>
        (Text.anchor member.name, ":", member.docstring.description.getD noDocstring)
  { name := member.name
    address := pageAddress ++ anchor
    sign
    summary := Text.summary overviewSummaryLength description }

def classLines (pageAddress : String) (model : ClassModel) : ClassLines :=
  match model.form? with
  | some (.enumeration constants) => .constants (constants.map constantLine)
  | some (.record fields) => .record (fields.map recordLine)
  | _ =>
      .members ((model.members.filter fun member => !member.isConstructor).map
        (classMemberLine pageAddress))

def classEntry (moduleName : String) (member : Member) (model : ClassModel) : ClassEntry :=
  let pageAddress := context.address moduleName (Page.className member.name)
  { name := member.name
    address := pageAddress
    summary := Text.summary overviewSummaryLength (member.docstring.description.getD noDocstring)
    lines := classLines pageAddress model }

/-- The classes of a module together with what is known of them. -/
def classesOf (model : ModuleModel) : List (Member × ClassModel) :=
  model.members.filterMap fun member => member.classModel?.map (member, ·)

def overview (model : ModuleModel) : Overview where
  header := context.overviewHeader model.name
  moduleName := model.name
  description := model.docstring.description.getD noDocstring
  fieldsAddress := context.address model.name Page.fieldsName
  fields := model.fields.map valueLine
  functionsAddress := context.address model.name Page.functionsName
  functions := model.functions.map (context.functionLine model.name)
  classes := (classesOf model).map fun (member, known) => context.classEntry model.name member known

def fieldsPage (model : ModuleModel) : FieldsPage where
  header := context.pageHeader model.name
  moduleName := model.name
  moduleAddress := context.overviewAddress model.name
  fields := model.fields.map valueLine

def describedTable (list : HyphenList) : DescribedTable := ⟨list.intro?, list.keyed⟩

def functionDoc (name : String) (docstring : Docstring) (signature decorator : Option String) :
    FunctionDoc where
  name
  description := docstring.description.getD noDocstring
  decorator
  signature
  parameters := docstring.parameters.map describedTable
  returns := docstring.returns
  yields := docstring.yields
  exceptions := docstring.exceptions.map describedTable

def functionsPage (model : ModuleModel) : FunctionsPage where
  header := context.pageHeader model.name
  moduleName := model.name
  moduleAddress := context.overviewAddress model.name
  functions := model.functions.map fun member =>
    functionDoc member.name member.docstring member.signature none

/-- A base links to its page when its name starts with the package of the project. -/
def baseEntry (base : Base) : BaseEntry :=
  let dotted := base.displayName
  let isLocal := (Text.splitOn '.' dotted).head? = Project.packageName? context.packageDir
  { title := Text.replace ".__init__." "." dotted
    address := if isLocal then
        base.moduleName?.map fun name => context.address name (Page.className base.name)
      else none }

def classFields (model : ClassModel) : ClassFields :=
  match model.form? with
  | some (.record fields) => .record (fields.map recordLine)
  | some (.enumeration constants) => .constants (constants.map constantLine)
  | _ => .values (model.fields.map fun member => ⟨member.name, member.declaration.value⟩)

def propertyRow (member : ClassMember) : PropertyRow where
  name := member.name
  accessors := member.accessors
  description := member.docstring.description.getD noDocstring

def classPage (moduleName : String) (member : Member) (model : ClassModel) : ClassPage where
  header := context.pageHeader moduleName
  className := member.name
  moduleName
  moduleAddress := context.overviewAddress moduleName
  bases := model.bases.map context.baseEntry
  description := member.docstring.description.getD noClassDocstring
  fields := classFields model
  properties := model.properties.map propertyRow
  methods := model.methods.map fun method =>
    functionDoc method.name method.docstring method.signature? method.decorator?

/-- The pages of one module: its overview, its fields and its functions if it has any, and
a page for each class. -/
def moduleDrafts (model : ModuleModel) : List Draft :=
  let draft (basename : String) (content : PageContent) : Draft :=
    ⟨some model.name, basename, content⟩
  [draft Page.homeName (.overview (context.overview model))] ++
    (if model.fields.isEmpty then []
      else [draft Page.fieldsName (.fields (context.fieldsPage model))]) ++
    (if model.functions.isEmpty then []
      else [draft Page.functionsName (.functions (context.functionsPage model))]) ++
    (classesOf model).map fun (member, known) =>
      draft (Page.className member.name) (.classPage (context.classPage model.name member known))

/-- Modules that export nothing get no page and no entry on the home page. -/
def documented (models : List ModuleModel) : List ModuleModel :=
  models.filter fun model => !model.isEmpty

/-- All pages, the home page last. -/
def drafts (models : List ModuleModel) : List Draft :=
  let shown := documented models
  shown.flatMap context.moduleDrafts ++
    if shown.isEmpty then []
    else [⟨none, Page.homeName, .home (shown.map context.homeEntry)⟩]

end ApiReference.SiteContext
