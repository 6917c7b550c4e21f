import ApiReference.Proofs.Site.Contents
import ApiReference.Proofs.Site.Pages

namespace ApiReference

/-! Where the links of a site lead: the home page, the overviews and the headers of all pages link to
pages that are there, and a line of an overview that leads into a page leads to a section of it. -/

namespace Layout

/-- The part of a class page that tells of the member with the given name, and its title: a table that has
a row for the member, or a section of its own. -/
inductive TellsOf (page : Layout) (name : String) : (title : String) → (part : Layout) → Prop
  | field {part : Layout} (table : part ∈ page.find "fields_exposed_in_class")
      (row : name ∈ part.shown "two_columns_table_entry" "col1") : TellsOf page name SiteContext.fieldsTitle part
  | property {part : Layout} (table : part ∈ page.find "properties_exposed_in_class")
      (row : name ∈ part.shown "three_columns_table_entry" "col1") :
      TellsOf page name SiteContext.propertiesTitle part
  | method {part : Layout} (doc : part ∈ page.find "func_doc_section") (named : part.value "func_name_1" = name) :
      TellsOf page name (part.value "func_name_2") part

variable (context : SiteContext) (page : ClassPage)

theorem tellsOf_field {given : List ValueLine} (ofValues : page.fields = .values given) {line : ValueLine}
    (member : line ∈ given) :
    ∃ part, (classPage context page).TellsOf (Text.escapeEmphasis line.name) SiteContext.fieldsTitle part ∧
      part.Titled SiteContext.fieldsTitle := by
  have found := find_class_fields context page ofValues (List.ne_nil_of_mem member)
  refine ⟨_, .field (found ▸ List.mem_singleton_self _) ?_, ?_⟩
  · rw [shown, find_tableOf context (by decide) (by decide) (by simp), List.map_map]
    exact List.mem_map_of_mem member
  · exact titled_of_text "## Fields table\n" (Template.classFieldsTable.drop 1) (by decide +kernel) (by decide +kernel)

theorem tellsOf_property {row : PropertyRow} (member : row ∈ page.properties) :
    ∃ part, (classPage context page).TellsOf (Text.escapeEmphasis row.name) SiteContext.propertiesTitle part ∧
      part.Titled SiteContext.propertiesTitle := by
  have found := find_class_properties context page (List.ne_nil_of_mem member)
  refine ⟨_, .property (found ▸ List.mem_singleton_self _) ?_, ?_⟩
  · rw [shown, find_tableOf context (by decide) (by decide) (by simp), List.map_map]
    exact List.mem_map_of_mem member
  · exact titled_of_text "## Properties table\n" (Template.propertiesTable.drop 1) (by decide +kernel)
      (by decide +kernel)

theorem tellsOf_method {doc : FunctionDoc} (member : doc ∈ page.methods) :
    ∃ part, (classPage context page).TellsOf (Text.escapeEmphasis doc.name) doc.name part ∧ part.Titled doc.name := by
  have found := find_class_methods context page
  exact ⟨functionDoc context doc, .method (found ▸ List.mem_map_of_mem member) rfl, functionDoc_titled context doc⟩

end Layout

namespace SiteContext

variable (context : SiteContext)

/-- The address under which other pages link to a page. -/
def addressOf (sheet : Sheet) : String := Address.ofPage context.apiDir sheet.moduleName sheet.basename

def homeSheet (models : List ModuleModel) : Sheet :=
  context.sheet ⟨none, Page.homeName, .home ((documented models).map context.homeEntry)⟩

def overviewSheet (model : ModuleModel) : Sheet :=
  context.sheet ⟨some model.name, Page.homeName, .overview (context.overview model)⟩

def fieldsSheet (model : ModuleModel) : Sheet :=
  context.sheet ⟨some model.name, Page.fieldsName, .fields (context.fieldsPage model)⟩

def fieldsSheets (model : ModuleModel) : List Sheet := if model.fields.isEmpty then [] else [context.fieldsSheet model]

def functionsSheet (model : ModuleModel) : Sheet :=
  context.sheet ⟨some model.name, Page.functionsName, .functions (context.functionsPage model)⟩

def functionsSheets (model : ModuleModel) : List Sheet :=
  if model.functions.isEmpty then [] else [context.functionsSheet model]

def classSheet (model : ModuleModel) (entry : Member × ClassModel) : Sheet :=
  context.sheet ⟨some model.name, Page.className entry.1.name, .classPage (context.classPage model.name entry.1 entry.2)⟩

def classSheets (model : ModuleModel) : List Sheet := (classesOf model).map (context.classSheet model)

/-- The pages of a module besides its overview. -/
def otherSheets (model : ModuleModel) : List Sheet :=
  context.fieldsSheets model ++ context.functionsSheets model ++ context.classSheets model

/-- The pages of a module, as they are laid out. -/
def moduleSheets (model : ModuleModel) : List Sheet := (context.moduleDrafts model).map context.sheet

theorem moduleSheets_eq (model : ModuleModel) :
    context.moduleSheets model = context.overviewSheet model :: context.otherSheets model := by
  unfold moduleSheets moduleDrafts otherSheets fieldsSheets functionsSheets
  cases model.fields.isEmpty <;> cases model.functions.isEmpty <;>
    simp [overviewSheet, fieldsSheet, functionsSheet, classSheets, Function.comp_def, classSheet]

theorem documented_eq (models : List ModuleModel) : documented models = models.filter (·.members ≠ []) := by
  refine List.filter_congr fun model _ => ?_
  rw [Bool.eq_iff_iff, decide_eq_true_iff]
  simp [ModuleModel.isEmpty]

theorem sheets_eq (models : List ModuleModel) :
    context.sheets models = (documented models).flatMap context.moduleSheets ++
      if (documented models).isEmpty then [] else [context.homeSheet models] := by
  unfold sheets drafts
  rw [List.map_append, List.map_flatMap]
  cases (documented models).isEmpty <;> rfl

end SiteContext

/-- Whether a page is that of a class, by its name. -/
def Sheet.isOfClass (sheet : Sheet) : Bool := Text.startsWith "class-" sheet.basename

namespace SiteContext

variable (context : SiteContext)

/-- How the pages of a module are linked: `overview` is its overview and `others` are the rest of them. -/
structure ModuleLinks (home overview : Sheet) (others : List Sheet) : Prop where
  overviewHeader : overview.layout.shown "header_div_1" "home_url" = [context.addressOf home] ∧
    overview.layout.find "header_div_2" = []
  otherHeaders : ∀ sheet ∈ others,
    sheet.layout.headers.map (fun header => (header.value "home_url", header.value "api_url")) =
        [(context.addressOf home, context.addressOf overview)] ∧
      sheet.layout.value "module_api_url" = context.addressOf overview
  fieldsSection : overview.layout.shown "all_fields_section" "fields_page_url" =
    (others.filter (·.basename = Page.fieldsName)).map context.addressOf
  functionsSection : overview.layout.shown "all_functions_section" "funcs_page_url" =
    (others.filter (·.basename = Page.functionsName)).map context.addressOf
  classEntries : overview.layout.shown "class_section" "doc_url" =
    (others.filter Sheet.isOfClass).map context.addressOf
  functionLines :
    (overview.layout.find "func_line").map (fun line => (line.value "name", line.value "doc_url")) =
      (others.filter (·.basename = Page.functionsName)).flatMap fun sheet =>
        (sheet.layout.find "index_line").map fun line =>
          (line.value "name", context.addressOf sheet ++ line.value "url")
  functionDocs : ∀ sheet ∈ others.filter (·.basename = Page.functionsName),
    (sheet.layout.find "index_line").map (fun line => (line.value "name", line.value "url")) =
        (sheet.layout.find "func_doc_section").map (fun part =>
          (part.value "func_name_1", Text.anchor (part.value "func_name_2"))) ∧
      ∀ part ∈ sheet.layout.find "func_doc_section", part.Titled (part.value "func_name_2")
  memberLines : List.Forall₂
    (fun entry sheet => ∀ line ∈ entry.find "class_member_line", ∃ title part,
      line.value "doc_url" = context.addressOf sheet ++ Text.anchor title ∧
        sheet.layout.TellsOf (line.value "name") title part ∧ part.Titled title)
    (overview.layout.find "class_section") (others.filter Sheet.isOfClass)

section Names

variable {context} {model : ModuleModel} {sheet : Sheet}

theorem eq_fieldsSheet (member : sheet ∈ context.fieldsSheets model) : sheet = context.fieldsSheet model := by
  rw [fieldsSheets] at member
  split at member
  · cases member
  · exact List.mem_singleton.mp member

theorem eq_functionsSheet (member : sheet ∈ context.functionsSheets model) : sheet = context.functionsSheet model := by
  rw [functionsSheets] at member
  split at member
  · cases member
  · exact List.mem_singleton.mp member

theorem fieldsSheets_basename (member : sheet ∈ context.fieldsSheets model) : sheet.basename = Page.fieldsName :=
  congrArg Sheet.basename (eq_fieldsSheet member)

theorem functionsSheets_basename (member : sheet ∈ context.functionsSheets model) :
    sheet.basename = Page.functionsName :=
  congrArg Sheet.basename (eq_functionsSheet member)

theorem classSheets_basename (member : sheet ∈ context.classSheets model) :
    sheet.basename ≠ Page.fieldsName ∧ sheet.basename ≠ Page.functionsName ∧ sheet.isOfClass = true := by
  obtain ⟨entry, _, rfl⟩ := List.mem_map.mp member
  have uncommon := className_not_common entry.1.name
  simp only [List.mem_cons, List.not_mem_nil, or_false, not_or] at uncommon
  refine ⟨uncommon.2.1, uncommon.2.2, List.isPrefixOf_iff_prefix.mpr ?_⟩
  simp [classSheet, sheet, Page.className]

end Names

variable (model : ModuleModel)

/-- The pages of a module can be told apart by their names. -/
theorem filter_fields :
    (context.otherSheets model).filter (·.basename = Page.fieldsName) = context.fieldsSheets model := by
  have functions : ∀ sheet ∈ context.functionsSheets model, sheet.basename ≠ Page.fieldsName := by
    intro sheet member
    rw [functionsSheets_basename member]
    decide
  rw [otherSheets, List.filter_append, List.filter_append, List.filter_eq_self.mpr, List.filter_eq_nil_iff.mpr,
    List.filter_eq_nil_iff.mpr, List.append_nil, List.append_nil]
  · exact fun sheet member => by simpa using (classSheets_basename member).1
  · exact fun sheet member => by simpa using functions sheet member
  · exact fun sheet member => by simpa using fieldsSheets_basename member

theorem filter_functions :
    (context.otherSheets model).filter (·.basename = Page.functionsName) = context.functionsSheets model := by
  have fields : ∀ sheet ∈ context.fieldsSheets model, sheet.basename ≠ Page.functionsName := by
    intro sheet member
    rw [fieldsSheets_basename member]
    decide
  rw [otherSheets, List.filter_append, List.filter_append, List.filter_eq_nil_iff.mpr, List.filter_eq_self.mpr,
    List.filter_eq_nil_iff.mpr, List.append_nil, List.nil_append]
  · exact fun sheet member => by simpa using (classSheets_basename member).2.1
  · exact fun sheet member => by simpa using functionsSheets_basename member
  · exact fun sheet member => by simpa using fields sheet member

theorem filter_classes : (context.otherSheets model).filter Sheet.isOfClass = context.classSheets model := by
  rw [otherSheets, List.filter_append, List.filter_append, List.filter_eq_nil_iff.mpr, List.filter_eq_nil_iff.mpr,
    List.filter_eq_self.mpr, List.nil_append, List.nil_append]
  · exact fun sheet member => (classSheets_basename member).2.2
  · intro sheet member
    rw [Sheet.isOfClass, functionsSheets_basename member]
    decide
  · intro sheet member
    rw [Sheet.isOfClass, fieldsSheets_basename member]
    decide

theorem overview_header :
    (context.overviewSheet model).layout.shown "header_div_1" "home_url" = [context.homeAddress] ∧
      (context.overviewSheet model).layout.find "header_div_2" = [] := by
  have header : (context.overviewSheet model).layout.find "header_div_1" =
      [Layout.header context (context.overviewHeader model.name)] :=
    (Layout.find_overview_header context (context.overview model) (by simp)).trans
      (by simp [Layout.header, overview, overviewHeader])
  refine ⟨by rw [Layout.shown, header]; rfl, ?_⟩
  exact (Layout.find_overview_header context (context.overview model) (by simp)).trans
    (by simp [Layout.header, overview, overviewHeader])

/-- Pages besides the overview link to it twice. -/
theorem other_header {sheet : Sheet} (member : sheet ∈ context.otherSheets model) :
    sheet.layout.headers = [Layout.header context (context.pageHeader model.name)] ∧
      sheet.layout.value "module_api_url" = context.overviewAddress model.name := by
  have own : (Layout.header context (context.pageHeader model.name)).headers =
      [Layout.header context (context.pageHeader model.name)] := by
    simp [Layout.headers, Layout.header, pageHeader]
  rcases List.mem_append.mp member with member | ofClass
  · rcases List.mem_append.mp member with ofFields | ofFunctions
    · rw [eq_fieldsSheet ofFields]
      exact ⟨(Layout.headers_fields context (context.fieldsPage model)).trans own, rfl⟩
    · rw [eq_functionsSheet ofFunctions]
      exact ⟨(Layout.headers_functions context (context.functionsPage model)).trans own, rfl⟩
  · obtain ⟨entry, _, rfl⟩ := List.mem_map.mp ofClass
    exact ⟨(Layout.headers_classPage context (context.classPage model.name entry.1 entry.2)).trans own, rfl⟩

theorem fieldsSection_links :
    (context.overviewSheet model).layout.shown "all_fields_section" "fields_page_url" =
      (context.fieldsSheets model).map context.addressOf := by
  refine (Layout.shown_overview_fields context (context.overview model)).trans ?_
  rw [fieldsSheets, overview, List.isEmpty_map]
  cases model.fields.isEmpty <;> rfl

theorem functionsSection_links :
    (context.overviewSheet model).layout.shown "all_functions_section" "funcs_page_url" =
      (context.functionsSheets model).map context.addressOf := by
  refine (Layout.shown_overview_functions context (context.overview model)).trans ?_
  rw [functionsSheets, overview, List.isEmpty_map]
  cases model.functions.isEmpty <;> rfl

theorem find_classEntries :
    (context.overviewSheet model).layout.find "class_section" =
      (classesOf model).map fun entry => Layout.classEntry (context.classEntry model.name entry.1 entry.2) :=
  (Layout.find_overview_classes context (context.overview model)).trans (List.map_map ..)

theorem classEntries_links :
    (context.overviewSheet model).layout.shown "class_section" "doc_url" =
      (context.classSheets model).map context.addressOf := by
  rw [Layout.shown, find_classEntries, classSheets, List.map_map, List.map_map]
  rfl

theorem functionLines_links :
    ((context.overviewSheet model).layout.find "func_line").map (fun line => (line.value "name", line.value "doc_url")) =
      (context.functionsSheets model).flatMap fun sheet =>
        (sheet.layout.find "index_line").map fun line =>
          (line.value "name", context.addressOf sheet ++ line.value "url") := by
  have lines : (context.overviewSheet model).layout.find "func_line" =
      model.functions.map fun member => Layout.functionLine (context.functionLine model.name member) :=
    (Layout.find_overview_functionLines context (context.overview model)).trans (List.map_map ..)
  have index : (context.functionsSheet model).layout.find "index_line" =
      model.functions.map fun member => Layout.indexLine member.name :=
    (Layout.find_functions_index context (context.functionsPage model)).trans (List.map_map ..)
  rw [lines, functionsSheets]
  cases some : model.functions with
  | nil => rfl
  | cons first rest =>
      rw [some] at index
      rw [List.isEmpty_cons, if_neg Bool.false_ne_true, List.flatMap_singleton, index, List.map_map, List.map_map]
      rfl

theorem functionDocs_titled {sheet : Sheet} (member : sheet ∈ context.functionsSheets model) :
    (sheet.layout.find "index_line").map (fun line => (line.value "name", line.value "url")) =
        (sheet.layout.find "func_doc_section").map (fun part =>
          (part.value "func_name_1", Text.anchor (part.value "func_name_2"))) ∧
      ∀ part ∈ sheet.layout.find "func_doc_section", part.Titled (part.value "func_name_2") := by
  have index : (context.functionsSheet model).layout.find "index_line" = _ :=
    Layout.find_functions_index context (context.functionsPage model)
  have docs : (context.functionsSheet model).layout.find "func_doc_section" = _ :=
    Layout.find_functions_docs context (context.functionsPage model)
  rw [eq_functionsSheet member, index, docs, List.map_map, List.map_map]
  refine ⟨rfl, ?_⟩
  intro part listed
  obtain ⟨doc, _, rfl⟩ := List.mem_map.mp listed
  exact Layout.functionDoc_titled context doc

/-- Lines lead into the page of a class only when it is neither an enumeration nor a record, and so its page has
a table of values. -/
theorem exists_of_mem_memberLines {pageAddress : String} {known : ClassModel} {line : Layout}
    (listed : line ∈ (Layout.classLines (classLines pageAddress known)).find "class_member_line") :
    ∃ member ∈ known.members, line = Layout.classMemberLine (classMemberLine pageAddress member) ∧
      classFields known = .values (known.fields.map fun field => ⟨field.name, field.declaration.value⟩) := by
  unfold classLines at listed
  split at listed
  · simp [Layout.classLines] at listed
  · simp [Layout.classLines, Layout.recordLine] at listed
  · rename_i noConstants noRecord
    simp only [Layout.classLines, Layout.lines, Layout.find_joined] at listed
    rw [Layout.flatMap_find_of_self (by simp), List.map_map] at listed
    obtain ⟨member, shown, rfl⟩ := List.mem_map.mp listed
    refine ⟨member, List.mem_of_mem_filter shown, rfl, ?_⟩
    unfold classFields
    split
    · rename_i fields record
      exact absurd record (noRecord fields)
    · rename_i constants enumeration
      exact absurd enumeration (noConstants constants)
    · rfl

theorem memberLine_leads (entry : Member × ClassModel) {line : Layout}
    (listed : line ∈ (Layout.classEntry (context.classEntry model.name entry.1 entry.2)).find "class_member_line") :
    ∃ title part, line.value "doc_url" = context.addressOf (context.classSheet model entry) ++ Text.anchor title ∧
      (context.classSheet model entry).layout.TellsOf (line.value "name") title part ∧ part.Titled title := by
  let page := context.classPage model.name entry.1 entry.2
  have inLines : (Layout.classEntry (context.classEntry model.name entry.1 entry.2)).find "class_member_line" =
      (Layout.classLines (context.classEntry model.name entry.1 entry.2).lines).find "class_member_line" := by
    simp [Layout.classEntry]
  rw [inLines] at listed
  obtain ⟨member, known, rfl, ofValues⟩ := exists_of_mem_memberLines listed
  cases kind : member.kind with
  | field =>
      have isField : member ∈ entry.2.fields := by simp [ClassModel.fields, known, kind]
      obtain ⟨part, tells, titled⟩ := Layout.tellsOf_field context page ofValues (List.mem_map_of_mem isField)
      exact ⟨fieldsTitle, part, by rw [classMemberLine, kind]; rfl, tells, titled⟩
  | property =>
      have isProperty : member ∈ entry.2.properties := by simp [ClassModel.properties, known, kind]
      obtain ⟨part, tells, titled⟩ := Layout.tellsOf_property context page (List.mem_map_of_mem isProperty)
      exact ⟨propertiesTitle, part, by rw [classMemberLine, kind]; rfl, tells, titled⟩
  | method =>
      have isMethod : member ∈ entry.2.methods := by simp [ClassModel.methods, known, kind]
      obtain ⟨part, tells, titled⟩ := Layout.tellsOf_method context page (List.mem_map_of_mem isMethod)
      exact ⟨member.name, part, by rw [classMemberLine, kind]; rfl, tells, titled⟩

theorem moduleLinks (models : List ModuleModel) :
    context.ModuleLinks (context.homeSheet models) (context.overviewSheet model) (context.otherSheets model) where
  overviewHeader := context.overview_header model
  otherHeaders := by
    intro sheet member
    obtain ⟨headers, address⟩ := context.other_header model member
    exact ⟨by rw [headers]; rfl, address⟩
  fieldsSection := by rw [filter_fields, fieldsSection_links]
  functionsSection := by rw [filter_functions, functionsSection_links]
  classEntries := by rw [filter_classes, classEntries_links]
  functionLines := by rw [filter_functions, functionLines_links]
  functionDocs := by
    rw [filter_functions]
    exact fun sheet => context.functionDocs_titled model
  memberLines := by
    rw [filter_classes, find_classEntries, classSheets, List.forall₂_map_left_iff, List.forall₂_map_right_iff,
      List.forall₂_same]
    exact fun entry _ line => context.memberLine_leads model entry

/-- A module with members of each kind. -/
def boats : ModuleModel where
  name := "port.boats"
  doc := none
  members := [
    ⟨"Ferry", .ofClass "port.boats" "port.boats.Ferry", none, none, .classType {}⟩,
    ⟨"berths", .ofData "port.boats" "12", none, none, .field⟩,
    ⟨"moor", .ofFunction "port.boats" "(boat)", none, none, .function⟩]

end SiteContext

end ApiReference
