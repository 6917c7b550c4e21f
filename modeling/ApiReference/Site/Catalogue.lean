import ApiReference.Failure
import ApiReference.Site.Template

namespace ApiReference.Template

/-! The templates of all pages and of the parts that pages are made of. -/

def homePage : Template :=
  [.text "# ", .slot "project_name", .text " API Reference\n",
   .text "Here are modules that make up [", .slot "project_name", .text "](",
   .slot "project_url", .text "):\n\n", .slot "contents", .text "\n\n", .slot "back_to_top",
   .text "\n"]

def overviewPage : Template :=
  [.slot "header_div", .text "\n\n", .text "# Module Overview\n", .text "> Module: **",
   .slot "module_name", .text "**\n\n", .slot "description", .text "\n\n", .slot "members",
   .text "\n"]

def fieldsPage : Template :=
  [.slot "header_div", .text "\n\n", .text "# Fields within module\n", .text "> Module: [",
   .slot "module_name", .text "](", .slot "module_api_url", .text ")\n\n",
   .text "Here are fields exposed in the module:\n\n", .text "| Field | Value |\n",
   .text "| --- | --- |\n", .slot "entries", .text "\n\n", .slot "back_to_top", .text "\n"]

def functionsPage : Template :=
  [.slot "header_div", .text "\n\n", .text "# Functions within module\n", .text "> Module: [",
   .slot "module_name", .text "](", .slot "module_api_url", .text ")\n\n",
   .text "Here are functions exposed in the module:\n", .slot "index_of_funcs", .text "\n\n",
   .slot "contents", .text "\n"]

def classPage : Template :=
  [.slot "header_div", .text "\n\n", .text "# Class ", .slot "class_name", .text "\n",
   .text "> Module: [", .slot "module_name", .text "](", .slot "module_api_url", .text ")\n",
   .text ">\n", .text "> Class: **", .slot "class_name", .text "**\n", .text ">\n",
   .text "> Inheritance: ", .slot "inheritance", .text "\n\n", .slot "description",
   .text "\n\n", .slot "contents", .text "\n"]

def overviewHeader : Template :=
  [.text "###### ", .slot "project_name", .text " API Reference\n", .text "[Home](",
   .slot "home_url", .text ") | [Project](", .slot "project_url",
   .text ") | Module | [Source](", .slot "src_url", .text ")"]

def pageHeader : Template :=
  [.text "###### ", .slot "project_name", .text " API Reference\n", .text "[Home](",
   .slot "home_url", .text ") | [Project](", .slot "project_url", .text ") | [Module](",
   .slot "api_url", .text ") | [Source](", .slot "src_url", .text ")"]

def moduleLine : Template :=
  [.text "[", .slot "module_name", .text "](", .slot "api_url", .text ")\n", .text "<br>\n",
   .slot "short_description"]

def functionsSection : Template :=
  [.text "## Functions\n", .text "- [**All functions**](", .slot "funcs_page_url", .text ")\n",
   .slot "contents", .text "\n\n", .slot "back_to_top"]

def classesSection : Template :=
  [.text "## Classes\n", .slot "contents", .text "\n\n", .slot "back_to_top"]

def fieldsSection : Template :=
  [.text "## Fields\n", .text "- [**All fields**](", .slot "fields_page_url", .text ")\n",
   .slot "contents", .text "\n\n", .slot "back_to_top"]

def functionLine : Template :=
  [.text "    - [", .slot "name", .text "](", .slot "doc_url", .text "): ",
   .slot "short_description"]

def classEntry : Template :=
  [.text "- [**", .slot "name", .text "**](", .slot "doc_url", .text "): ",
   .slot "short_description", .text "\n", .slot "contents"]

def classMemberLine : Template :=
  [.text "    - [", .slot "name", .text "](", .slot "doc_url", .text ")", .slot "kv_sign",
   .text " ", .slot "short_description"]

def fieldLine : Template :=
  [.text "    - ", .slot "name", .text " = ", .slot "value"]

def recordFieldLine : Template :=
  [.text "    - ", .slot "name", .text ": ", .slot "description"]

def indexLine : Template :=
  [.text "- [", .slot "name", .text "](", .slot "url", .text ")"]

def rowOfTwo : Template :=
  [.text "| ", .slot "col1", .text " | ", .slot "col2", .text " |"]

def rowOfThree : Template :=
  [.text "| ", .slot "col1", .text " | ", .slot "col2", .text " | ", .slot "col3", .text " |"]

def methodsSection : Template :=
  [.text "# Methods within class\n", .text "Here are methods exposed in the class:\n",
   .slot "index_of_methods", .text "\n\n", .slot "contents"]

def functionDoc : Template :=
  [.text "## ", .slot "func_name_1", .text "\n", .slot "description", .text "\n\n",
   .text "```python\n", .slot "decorator", .text "def ", .slot "func_name_2",
   .slot "signature", .text ":\n", .text "    ...\n", .text "```\n\n", .slot "contents"]

def backToTop : Template :=
  [.text "<p align=\"right\"><a href=\"", .slot "href", .text "\">Back to top</a></p>"]

def parametersTable : Template :=
  [.text "| Parameter | Description |\n", .text "| --- | --- |\n", .slot "contents"]

def exceptionsSection : Template :=
  [.text "### Exceptions table\n", .slot "contents"]

def exceptionsTable : Template :=
  [.text "| Exception | Circumstance |\n", .text "| --- | --- |\n", .slot "contents"]

def returnsLine : Template :=
  [.text "### Value to return\n", .slot "text"]

def yieldsLine : Template :=
  [.text "### Value to yield\n", .slot "text"]

def classFieldsTable : Template :=
  [.text "## Fields table\n", .text "Here are fields exposed in the class:\n\n",
   .text "| Field | Value |\n", .text "| --- | --- |\n", .slot "contents", .text "\n\n",
   .slot "back_to_top"]

def propertiesTable : Template :=
  [.text "## Properties table\n", .text "Here are properties exposed in the class:\n\n",
   .text "| Property | Methods | Description |\n", .text "| --- | --- | --- |\n",
   .slot "contents", .text "\n\n", .slot "back_to_top"]

def recordFieldsTable : Template :=
  [.text "## Fields table\n", .text "Here are fields exposed in the class:\n\n",
   .text "| Field | Description |\n", .text "| --- | --- |\n", .slot "contents", .text "\n\n",
   .slot "back_to_top"]

def constantsTable : Template :=
  [.text "## Fields table\n", .text "Here are fields exposed in the class:\n\n",
   .text "| Field | Value |\n", .text "| --- | --- |\n", .slot "contents", .text "\n\n",
   .slot "back_to_top"]

/-- The templates under the names by which they are filled. -/
def catalogue : List (String × Template) :=
  [("home_page", homePage),
   ("overview_page", overviewPage),
   ("fields_page", fieldsPage),
   ("funcs_doc_page", functionsPage),
   ("class_doc_page", classPage),
   ("header_div_1", overviewHeader),
   ("header_div_2", pageHeader),
   ("module_line", moduleLine),
   ("all_functions_section", functionsSection),
   ("all_classes_section", classesSection),
   ("all_fields_section", fieldsSection),
   ("func_line", functionLine),
   ("class_section", classEntry),
   ("class_member_line", classMemberLine),
   ("field_line", fieldLine),
   ("record_field_line", recordFieldLine),
   ("index_line", indexLine),
   ("two_columns_table_entry", rowOfTwo),
   ("three_columns_table_entry", rowOfThree),
   ("methods_section", methodsSection),
   ("func_doc_section", functionDoc),
   ("back_to_top", backToTop),
   ("func_params_table", parametersTable),
   ("func_exceptions_section", exceptionsSection),
   ("func_exceptions_table", exceptionsTable),
   ("func_returns_line", returnsLine),
   ("func_yields_line", yieldsLine),
   ("fields_exposed_in_class", classFieldsTable),
   ("properties_exposed_in_class", propertiesTable),
   ("fields_exposed_in_record", recordFieldsTable),
   ("fields_exposed_in_enum", constantsTable)]

def find? (name : String) : Option Template := catalogue.lookup name

/-- Fills the template of the given name. -/
def render (name : String) (values : Values) : Except Failure String :=
  match (find? name).bind (fill? · values) with
  | some text => .ok text
  | none => .error .template

end ApiReference.Template
