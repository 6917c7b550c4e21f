import ApiReference.Proofs.Site.Layout

namespace ApiReference

/-! What is found on the pages: the uses of a template in the layouts of the parts of pages and of whole pages. -/

namespace Layout

/-- Whether a part of a page starts with a heading of the given title. -/
def Titled (title : String) (layout : Layout) : Prop :=
  ("## " ++ Text.escapeEmphasis title ++ "\n").toList <+: layout.text.toList

/-- The navigation at the top of a page, of either kind. -/
def headers (page : Layout) : List Layout := page.find "header_div_1" ++ page.find "header_div_2"

theorem titled_filled {name title : String} {slots : List (String × Layout)} (first rest : Template)
    (found : Template.find? name = some (first ++ rest))
    (heading : String.join (first.map (Template.pieceText (values slots))) =
      "## " ++ Text.escapeEmphasis title ++ "\n") :
    (filled name slots).Titled title := by
  rw [Titled, text, Template.insert, found, ← heading, Option.getD_some, List.map_append, String.toList_join,
    String.toList_join, List.flatMap_append]
  exact List.prefix_append _ _

theorem titled_of_text {name title : String} {slots : List (String × Layout)} (heading : String) (rest : Template)
    (found : Template.find? name = some (.text heading :: rest))
    (spelled : heading = "## " ++ Text.escapeEmphasis title ++ "\n") : (filled name slots).Titled title :=
  titled_filled [.text heading] rest found (by simp [Template.pieceText, spelled])

@[simp] theorem flatMap_find_unlessEmpty {α : Type} (items : List α) (part : Layout) (template : String) :
    (unlessEmpty items part).flatMap (find template) = if items.isEmpty then [] else part.find template := by
  unfold unlessEmpty
  split <;> simp

@[simp] theorem flatMap_find_of_none {α : Type} {template : String} {layout : α → Layout}
    (none : ∀ item, (layout item).find template = []) (items : List α) :
    (items.map layout).flatMap (find template) = [] := by
  simp [List.flatMap_eq_nil_iff, none]

@[simp] theorem flatMap_find_of_self {α : Type} {template : String} {layout : α → Layout}
    (self : ∀ item, (layout item).find template = [layout item]) (items : List α) :
    (items.map layout).flatMap (find template) = items.map layout := by
  induction items with
  | nil => rfl
  | cons item rest ih => simp [self, ih]

section Parts

variable (context : SiteContext) {template : String}

@[simp] theorem find_backToTop :
    (backToTop context).find template = if template = "back_to_top" then [backToTop context] else [] := by
  simp [backToTop]

@[simp] theorem find_header_of_other (other : template ∉ ["header_div_1", "header_div_2"]) (given : Header) :
    (header context given).find template = [] := by
  simp only [List.mem_cons, List.not_mem_nil, or_false, not_or] at other
  unfold header
  cases given.overviewAddress <;> simp [other.1, other.2]

@[simp] theorem find_rowOfTwo (first second : String) :
    (rowOfTwo first second).find template =
      if template = "two_columns_table_entry" then [rowOfTwo first second] else [] := by
  simp [rowOfTwo]

@[simp] theorem find_rowOfThree (first second third : String) :
    (rowOfThree first second third).find template =
      if template = "three_columns_table_entry" then [rowOfThree first second third] else [] := by
  simp [rowOfThree]

@[simp] theorem find_valueRow (line : ValueLine) :
    (valueRow line).find template = if template = "two_columns_table_entry" then [valueRow line] else [] :=
  find_rowOfTwo _ _

@[simp] theorem find_recordRow (line : RecordLine) :
    (recordRow line).find template = if template = "two_columns_table_entry" then [recordRow line] else [] :=
  find_rowOfTwo _ _

@[simp] theorem find_propertyRow (row : PropertyRow) :
    (propertyRow row).find template = if template = "three_columns_table_entry" then [propertyRow row] else [] :=
  find_rowOfThree _ _ _

@[simp] theorem find_valueLine (line : ValueLine) :
    (valueLine line).find template = if template = "field_line" then [valueLine line] else [] := by
  simp [valueLine]

@[simp] theorem find_functionLine (line : FunctionLine) :
    (functionLine line).find template = if template = "func_line" then [functionLine line] else [] := by
  simp [functionLine]

@[simp] theorem find_classMemberLine (line : ClassMemberLine) :
    (classMemberLine line).find template = if template = "class_member_line" then [classMemberLine line] else [] := by
  simp [classMemberLine]

@[simp] theorem find_indexLine (name : String) :
    (indexLine name).find template = if template = "index_line" then [indexLine name] else [] := by
  simp [indexLine]

@[simp] theorem find_homeEntry (entry : HomeEntry) :
    (homeEntry entry).find template = if template = "module_line" then [homeEntry entry] else [] := by
  simp [homeEntry]

/-- The entry of a class holds no template but its own and those of lines. -/
@[simp] theorem find_classEntry (other : template ∉ ["field_line", "record_field_line", "class_member_line"])
    (entry : ClassEntry) :
    (classEntry entry).find template = if template = "class_section" then [classEntry entry] else [] := by
  simp only [List.mem_cons, List.not_mem_nil, or_false, not_or] at other
  obtain ⟨noValue, noRecord, noMember⟩ := other
  have noLine : (classLines entry.lines).find template = [] := by
    cases entry.lines <;> simp [classLines, recordLine, noValue, noRecord, noMember]
  simp [classEntry, noLine]

/-- Inside the section of a function stand the templates of its tables and of the values it gives. -/
def functionTemplates : List String :=
  ["func_params_table", "func_exceptions_section", "func_exceptions_table", "func_returns_line", "func_yields_line",
   "two_columns_table_entry", "back_to_top"]

@[simp] theorem find_functionDoc (other : template ∉ functionTemplates) (doc : FunctionDoc) :
    (functionDoc context doc).find template =
      if template = "func_doc_section" then [functionDoc context doc] else [] := by
  simp only [functionTemplates, List.mem_cons, List.not_mem_nil, or_false, not_or] at other
  obtain ⟨noParameters, noExceptions, noExceptionTable, noReturns, noYields, noRow, noTop⟩ := other
  simp [functionDoc, parameters, exceptions, returns, yields, parameterRow, exceptionRow, rowOfTwo, List.flatMap_map,
    noParameters, noExceptions, noExceptionTable, noReturns, noYields, noRow, noTop]

@[simp] theorem flatMap_find_classFields
    (other : template ∉ ["fields_exposed_in_class", "fields_exposed_in_enum", "fields_exposed_in_record",
      "two_columns_table_entry", "back_to_top"]) (given : ClassFields) :
    (classFields context given).flatMap (find template) = [] := by
  simp only [List.mem_cons, List.not_mem_nil, or_false, not_or] at other
  obtain ⟨noValues, noConstants, noRecord, noRow, noTop⟩ := other
  cases given <;> simp [classFields, table, noValues, noConstants, noRecord, noRow, noTop]

theorem functionDoc_titled (doc : FunctionDoc) : (functionDoc context doc).Titled doc.name := by
  refine titled_filled (Template.functionDoc.take 3) (Template.functionDoc.drop 3) (by decide +kernel) ?_
  simp [Template.functionDoc, Template.pieceText, values, text, String.join]

end Parts

section Pages

variable (context : SiteContext)

section

variable (page : Overview)

theorem find_overview_header {template : String} (isHeader : template ∈ ["header_div_1", "header_div_2"]) :
    (overview context page).find template = (header context page.header).find template := by
  simp only [List.mem_cons, List.not_mem_nil, or_false] at isHeader
  rcases isHeader with rfl | rfl <;> simp [overview, fieldsSection, functionsSection, classesSection]

theorem shown_overview_fields :
    (overview context page).shown "all_fields_section" "fields_page_url" =
      if page.fields.isEmpty then [] else [page.fieldsAddress] := by
  by_cases nothing : page.fields = [] <;>
    simp [shown, overview, fieldsSection, functionsSection, classesSection, nothing, value, values, text]

theorem shown_overview_functions :
    (overview context page).shown "all_functions_section" "funcs_page_url" =
      if page.functions.isEmpty then [] else [page.functionsAddress] := by
  by_cases nothing : page.functions = [] <;>
    simp [shown, overview, fieldsSection, functionsSection, classesSection, nothing, value, values, text]

theorem find_overview_functionLines :
    (overview context page).find "func_line" = page.functions.map functionLine := by
  by_cases nothing : page.functions = [] <;>
    simp [overview, fieldsSection, functionsSection, classesSection, nothing]

theorem find_overview_classes : (overview context page).find "class_section" = page.classes.map classEntry := by
  by_cases nothing : page.classes = [] <;>
    simp [overview, fieldsSection, functionsSection, classesSection, nothing]

end

theorem find_home_entries (entries : List HomeEntry) :
    (home context entries).find "module_line" = entries.map homeEntry := by
  simp [home]

theorem headers_fields (page : FieldsPage) : (fields context page).headers = (header context page.header).headers := by
  simp [headers, fields]

theorem headers_functions (page : FunctionsPage) :
    (functions context page).headers = (header context page.header).headers := by
  simp [headers, functions, functionTemplates]

theorem find_functions_index (page : FunctionsPage) :
    (functions context page).find "index_line" = page.functions.map fun doc => indexLine doc.name := by
  simp [functions, functionTemplates]

theorem find_functions_docs (page : FunctionsPage) :
    (functions context page).find "func_doc_section" = page.functions.map (functionDoc context) := by
  simp [functions, functionTemplates]

section

variable (page : ClassPage)

theorem headers_classPage : (classPage context page).headers = (header context page.header).headers := by
  simp [headers, classPage, table, methods, functionTemplates]

/-- A table of a class page; the page has it when there is a row. -/
def tableOf (template : String) (rows : List Layout) : Layout :=
  .filled template [("contents", lines rows), ("back_to_top", backToTop context)]

theorem find_tableOf {α : Type} {template entry : String} {row : α → Layout} (differ : entry ≠ template)
    (notTop : entry ≠ "back_to_top") (self : ∀ item, (row item).find entry = [row item]) (items : List α) :
    (tableOf context template (items.map row)).find entry = items.map row := by
  simp [tableOf, differ, notTop, self]

theorem find_class_fields {given : List ValueLine} (ofValues : page.fields = .values given) (some : given ≠ []) :
    (classPage context page).find "fields_exposed_in_class" =
      [tableOf context "fields_exposed_in_class" (given.map valueRow)] := by
  simp [classPage, ofValues, classFields, table, methods, functionTemplates, some, tableOf]

theorem find_class_properties (some : page.properties ≠ []) :
    (classPage context page).find "properties_exposed_in_class" =
      [tableOf context "properties_exposed_in_class" (page.properties.map propertyRow)] := by
  simp [classPage, table, methods, functionTemplates, some, tableOf]

theorem find_class_methods :
    (classPage context page).find "func_doc_section" = page.methods.map (functionDoc context) := by
  by_cases nothing : page.methods = [] <;>
    simp [classPage, table, methods, functionTemplates, nothing]

end

end Pages

end Layout

end ApiReference
