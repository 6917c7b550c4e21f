import ApiReference.Site.Catalogue
import ApiReference.Site.Composition

namespace ApiReference.SiteContext

/-! Laying out the contents of pages as text. -/

open Template (render)

def noInheritance : String := "No inheritance."

def unknownSignature : String := "(...)"

def defaultExceptionsIntro : String := "The table below outlines exceptions that may occur."

abbrev Rendered := Except Failure String

def joinLines (lines : List String) : String := "\n".intercalate lines

/-- Joins parts with an empty line between them. -/
def joinParts (parts : List String) : String := "\n\n".intercalate parts

/-- A part that is left out when there is nothing to put into it. -/
def unlessEmpty {α : Type} (items : List α) (part : Rendered) : Except Failure (List String) :=
  if items.isEmpty then .ok [] else part.map ([·])

def rowOfTwo (first second : String) : Rendered :=
  render "two_columns_table_entry" [("col1", first), ("col2", second)]

def rowOfThree (first second third : String) : Rendered :=
  render "three_columns_table_entry" [("col1", first), ("col2", second), ("col3", third)]

def renderIndexLine (name : String) : Rendered :=
  render "index_line" [("name", Text.escapeEmphasis name), ("url", Text.anchor name)]

def renderValueLine (line : ValueLine) : Rendered :=
  render "field_line" [("name", Text.escapeEmphasis line.name), ("value", valueSpan line.value)]

def renderValueRow (line : ValueLine) : Rendered :=
  rowOfTwo (Text.escapeEmphasis line.name) (valueSpan line.value)

def renderRecordLine (line : RecordLine) : Rendered :=
  render "record_field_line"
    [("name", Text.escapeEmphasis line.name), ("description", line.description)]

def renderRecordRow (line : RecordLine) : Rendered :=
  rowOfTwo (Text.escapeEmphasis line.name) (Text.singleLine line.description)

def renderPropertyRow (row : PropertyRow) : Rendered :=
  rowOfThree (Text.escapeEmphasis row.name) (accessorsPhrase row.accessors)
    (Text.singleLine row.description)

def renderFunctionLine (line : FunctionLine) : Rendered :=
  render "func_line"
    [("name", Text.escapeEmphasis line.name), ("doc_url", line.address),
     ("short_description", line.summary)]

def renderClassMemberLine (line : ClassMemberLine) : Rendered :=
  render "class_member_line"
    [("name", Text.escapeEmphasis line.name), ("doc_url", line.address), ("kv_sign", line.sign),
     ("short_description", line.summary)]

def renderClassLines : ClassLines → Rendered
  | .constants lines => return joinLines (← lines.mapM renderValueLine)
  | .record lines => return joinLines (← lines.mapM renderRecordLine)
  | .members lines => return joinLines (← lines.mapM renderClassMemberLine)

def renderClassEntry (entry : ClassEntry) : Rendered := do
  render "class_section"
    [("name", Text.escapeEmphasis entry.name), ("doc_url", entry.address),
     ("short_description", entry.summary), ("contents", ← renderClassLines entry.lines)]

def renderHomeEntry (entry : HomeEntry) : Rendered :=
  render "module_line"
    [("module_name", Text.escapeEmphasis entry.moduleName), ("api_url", entry.address),
     ("short_description", entry.summary)]

def renderParameters (table : DescribedTable) : Rendered := do
  let rows ← table.entries.mapM fun (key, text) =>
    rowOfTwo (Text.escapeEmphasis key) (Text.singleLine text)
  let text ← render "func_params_table" [("contents", joinLines rows)]
  return joinParts (table.intro.toList ++ [text])

/-- The names of exceptions are shown as they are. -/
def renderExceptions (table : DescribedTable) : Rendered := do
  let rows ← table.entries.mapM fun (key, text) => rowOfTwo key (Text.singleLine text)
  let text ← render "func_exceptions_table" [("contents", joinLines rows)]
  render "func_exceptions_section"
    [("contents", joinParts [table.intro.getD defaultExceptionsIntro, text])]

def renderBase (base : BaseEntry) : String :=
  let title := Text.escapeEmphasis base.title
  match base.address with
  | some address => "[" ++ title ++ "](" ++ address ++ ")"
  | none => "`" ++ title ++ "`"

def renderBases (bases : List BaseEntry) : String :=
  if bases.isEmpty then noInheritance else ", ".intercalate (bases.map renderBase)

variable (context : SiteContext)

def renderBackToTop : Rendered :=
  render "back_to_top" [("href", Text.anchor (context.projectName ++ " API Reference"))]

def renderHeader (header : Header) : Rendered :=
  let shared :=
    [("project_name", Text.escapeEmphasis context.projectName),
     ("project_url", context.projectUrl), ("home_url", header.homeAddress),
     ("src_url", header.sourceAddress)]
  match header.overviewAddress with
  | none => render "header_div_1" shared
  | some address => render "header_div_2" (("api_url", address) :: shared)

def renderFunctionDoc (doc : FunctionDoc) : Rendered := do
  let parameters ← doc.parameters.toList.mapM renderParameters
  let returns ← doc.returns.toList.mapM fun text => render "func_returns_line" [("text", text)]
  let yields ← doc.yields.toList.mapM fun text => render "func_yields_line" [("text", text)]
  let exceptions ← doc.exceptions.toList.mapM renderExceptions
  let top ← context.renderBackToTop
  render "func_doc_section"
    [("func_name_1", Text.escapeEmphasis doc.name), ("func_name_2", doc.name),
     ("description", doc.description),
     ("decorator", (doc.decorator.map (· ++ "\n")).getD ""),
     ("signature", doc.signature.getD unknownSignature),
     ("contents", joinParts (parameters ++ returns ++ yields ++ exceptions ++ [top]))]

/-- A titled table, left out when it has no row. -/
def renderTable (template : String) (rows : List String) : Except Failure (List String) := do
  let top ← context.renderBackToTop
  unlessEmpty rows (render template [("contents", joinLines rows), ("back_to_top", top)])

def renderClassFields : ClassFields → Except Failure (List String)
  | .values lines => do
      context.renderTable "fields_exposed_in_class" (← lines.mapM renderValueRow)
  | .constants lines => do
      context.renderTable "fields_exposed_in_enum" (← lines.mapM renderValueRow)
  | .record lines => do
      context.renderTable "fields_exposed_in_record" (← lines.mapM renderRecordRow)

def renderMethods (methods : List FunctionDoc) : Except Failure (List String) := do
  let docs ← methods.mapM context.renderFunctionDoc
  let index ← methods.mapM fun method => renderIndexLine method.name
  unlessEmpty methods
    (render "methods_section"
      [("index_of_methods", joinLines index), ("contents", joinParts docs)])

def renderHome (entries : List HomeEntry) : Rendered := do
  render "home_page"
    [("project_name", Text.escapeEmphasis context.projectName),
     ("project_url", context.projectUrl),
     ("contents", joinParts (← entries.mapM renderHomeEntry)),
     ("back_to_top", ← context.renderBackToTop)]

def renderOverview (page : Overview) : Rendered := do
  let top ← context.renderBackToTop
  let fieldLines ← page.fields.mapM renderValueLine
  let fields ← unlessEmpty page.fields (render "all_fields_section"
    [("fields_page_url", page.fieldsAddress), ("contents", joinLines fieldLines),
     ("back_to_top", top)])
  let functionLines ← page.functions.mapM renderFunctionLine
  let functions ← unlessEmpty page.functions (render "all_functions_section"
    [("funcs_page_url", page.functionsAddress), ("contents", joinLines functionLines),
     ("back_to_top", top)])
  let entries ← page.classes.mapM renderClassEntry
  let classes ← unlessEmpty page.classes (render "all_classes_section"
    [("contents", joinLines entries), ("back_to_top", top)])
  render "overview_page"
    [("header_div", ← context.renderHeader page.header),
     ("module_name", Text.escapeEmphasis page.moduleName),
     ("description", page.description),
     ("members", joinParts (fields ++ functions ++ classes))]

def renderFields (page : FieldsPage) : Rendered := do
  render "fields_page"
    [("header_div", ← context.renderHeader page.header),
     ("module_name", Text.escapeEmphasis page.moduleName),
     ("module_api_url", page.moduleAddress),
     ("entries", joinLines (← page.fields.mapM renderValueRow)),
     ("back_to_top", ← context.renderBackToTop)]

def renderFunctions (page : FunctionsPage) : Rendered := do
  render "funcs_doc_page"
    [("header_div", ← context.renderHeader page.header),
     ("module_name", Text.escapeEmphasis page.moduleName),
     ("module_api_url", page.moduleAddress),
     ("index_of_funcs", joinLines (← page.functions.mapM fun doc => renderIndexLine doc.name)),
     ("contents", joinParts (← page.functions.mapM context.renderFunctionDoc))]

def renderClass (page : ClassPage) : Rendered := do
  let fields ← context.renderClassFields page.fields
  let properties ←
    context.renderTable "properties_exposed_in_class" (← page.properties.mapM renderPropertyRow)
  let methods ← context.renderMethods page.methods
  render "class_doc_page"
    [("header_div", ← context.renderHeader page.header),
     ("class_name", Text.escapeEmphasis page.className),
     ("module_name", Text.escapeEmphasis page.moduleName),
     ("module_api_url", page.moduleAddress),
     ("inheritance", renderBases page.bases),
     ("description", page.description),
     ("contents", joinParts (fields ++ properties ++ methods))]

def renderContent : PageContent → Rendered
  | .home entries => context.renderHome entries
  | .overview page => context.renderOverview page
  | .fields page => context.renderFields page
  | .functions page => context.renderFunctions page
  | .classPage page => context.renderClass page

def renderDraft (draft : Draft) : Except Failure Page :=
  (context.renderContent draft.content).map fun text => ⟨draft.moduleName, draft.basename, text⟩

/-- All pages of the reference. -/
def pages (models : List ModuleModel) : Except Failure (List Page) :=
  (context.drafts models).mapM context.renderDraft

end ApiReference.SiteContext
