import ApiReference.Site.Rendering

namespace ApiReference

/-! Layouts: the templates that a text is made of, as a tree. A page and its layout have the same text,
and what stands on a page can be told from the layout, whatever the texts that were put into it. -/

namespace Template

/-- What a piece is replaced by; a value is put in as it is. -/
def pieceText (values : Values) : Piece → String
  | .text text => text
  | .slot slot => (values.lookup slot).getD ""

/-- The text of the template with the given name. -/
def insert (name : String) (values : Values) : String :=
  String.join (((find? name).getD []).map (pieceText values))

/-- Whether there is a template of the name, and the given slots are those it has, each one once. -/
def takes (name : String) (given : List String) : Bool :=
  match find? name with
  | some template =>
      decide given.Nodup && given.all (fun slot => template.contains (.slot slot)) &&
        template.all fun
          | .text _ => true
          | .slot slot => given.contains slot
  | none => false

end Template

inductive Layout where
  | plain (text : String)
  | filled (template : String) (slots : List (String × Layout))
  | joined (separator : String) (parts : List Layout)

namespace Layout

@[induction_eliminator]
theorem induct {Holds : Layout → Prop} (plain : ∀ text, Holds (.plain text))
    (filled : ∀ template slots, (∀ slot ∈ slots, Holds slot.2) → Holds (.filled template slots))
    (joined : ∀ separator parts, (∀ part ∈ parts, Holds part) → Holds (.joined separator parts))
    (layout : Layout) : Holds layout :=
  @Layout.rec Holds (fun slots => ∀ slot ∈ slots, Holds slot.2) (fun parts => ∀ part ∈ parts, Holds part)
    (fun slot => Holds slot.2) plain filled joined (List.forall_mem_nil _)
    (fun _ _ first others => List.forall_mem_cons.mpr ⟨first, others⟩) (List.forall_mem_nil _)
    (fun _ _ first others => List.forall_mem_cons.mpr ⟨first, others⟩) (fun _ _ held => held) layout

mutual

def text : Layout → String
  | .plain text => text
  | .filled template slots => Template.insert template (values slots)
  | .joined separator parts => separator.intercalate (texts parts)

def values : List (String × Layout) → Template.Values
  | [] => []
  | (slot, part) :: rest => (slot, part.text) :: values rest

def texts : List Layout → List String
  | [] => []
  | part :: rest => part.text :: texts rest

end

mutual

/-- The filled templates of a layout, in the order in which they come. -/
def nodes : Layout → List Layout
  | .plain _ => []
  | .filled template slots => .filled template slots :: slotNodes slots
  | .joined _ parts => partNodes parts

def slotNodes : List (String × Layout) → List Layout
  | [] => []
  | (_, part) :: rest => part.nodes ++ slotNodes rest

def partNodes : List Layout → List Layout
  | [] => []
  | part :: rest => part.nodes ++ partNodes rest

end

def isOf (template : String) : Layout → Bool
  | .filled name _ => name = template
  | _ => false

/-- The uses of a template in a layout. -/
def find (template : String) (layout : Layout) : List Layout := layout.nodes.filter (·.isOf template)

/-- The text in a slot of a filled template. -/
def value (slot : String) : Layout → String
  | .filled _ slots => ((values slots).lookup slot).getD ""
  | _ => ""

/-- The texts in a slot of all uses of a template. -/
def shown (template slot : String) (layout : Layout) : List String := (layout.find template).map (value slot)

/-- Whether a filled template is in the catalogue and has a value for each of its slots, and no other. -/
def fits : Layout → Bool
  | .filled template slots => Template.takes template (slots.map Prod.fst)
  | _ => true

/-- Every template that the layout uses gets what it takes. -/
def Supplied (layout : Layout) : Prop := ∀ node ∈ layout.nodes, node.fits = true

def AllSupplied (parts : List Layout) : Prop := ∀ part ∈ parts, part.Supplied

theorem values_eq_map (slots : List (String × Layout)) :
    values slots = slots.map fun slot => (slot.1, slot.2.text) := by
  induction slots with
  | nil => rfl
  | cons slot rest ih => simp [values, ih]

@[simp] theorem values_map_fst (slots : List (String × Layout)) : (values slots).map Prod.fst = slots.map Prod.fst := by
  rw [values_eq_map, List.map_map]
  rfl

theorem texts_eq_map (parts : List Layout) : texts parts = parts.map text := by
  induction parts with
  | nil => rfl
  | cons part rest ih => simp [texts, ih]

theorem slotNodes_eq_flatMap (slots : List (String × Layout)) : slotNodes slots = slots.flatMap (·.2.nodes) := by
  induction slots with
  | nil => rfl
  | cons slot rest ih => simp [slotNodes, ih]

theorem partNodes_eq_flatMap (parts : List Layout) : partNodes parts = parts.flatMap nodes := by
  induction parts with
  | nil => rfl
  | cons part rest ih => simp [partNodes, ih]

@[simp] theorem nodes_plain (text : String) : (plain text).nodes = [] := rfl

theorem nodes_filled (template : String) (slots : List (String × Layout)) :
    (filled template slots).nodes = filled template slots :: slots.flatMap (·.2.nodes) := by
  rw [nodes, slotNodes_eq_flatMap]

@[simp] theorem nodes_joined (separator : String) (parts : List Layout) :
    (joined separator parts).nodes = parts.flatMap nodes := by
  rw [nodes, partNodes_eq_flatMap]

@[simp] theorem find_plain (template text : String) : (plain text).find template = [] := rfl

@[simp] theorem find_filled (template name : String) (slots : List (String × Layout)) :
    (filled name slots).find template =
      (if template = name then [filled name slots] else []) ++ slots.flatMap (·.2.find template) := by
  unfold find
  rw [nodes_filled, List.filter_cons, List.filter_flatMap]
  by_cases same : template = name <;> simp [isOf, same, eq_comm]

@[simp] theorem find_joined (template separator : String) (parts : List Layout) :
    (joined separator parts).find template = parts.flatMap (·.find template) := by
  unfold find
  rw [nodes_joined, List.filter_flatMap]

@[simp] theorem supplied_plain (text : String) : (plain text).Supplied := by
  intro node member
  cases member

@[simp] theorem supplied_joined (separator : String) (parts : List Layout) :
    (joined separator parts).Supplied ↔ AllSupplied parts := by
  simp only [Supplied, AllSupplied, nodes_joined, List.mem_flatMap, forall_exists_index, and_imp]
  exact ⟨fun each part member node => each node part member, fun each node part member => each part member node⟩

theorem supplied_filled {template : String} {slots : List (String × Layout)}
    (takes : Template.takes template (slots.map Prod.fst) = true) (inner : AllSupplied (slots.map Prod.snd)) :
    (filled template slots).Supplied := by
  intro node member
  rw [nodes_filled] at member
  rcases List.mem_cons.mp member with rfl | member
  · exact takes
  · obtain ⟨slot, listed, member⟩ := List.mem_flatMap.mp member
    exact inner slot.2 (List.mem_map_of_mem listed) node member

theorem takes_of_supplied {template : String} {slots : List (String × Layout)}
    (supplied : (filled template slots).Supplied) : Template.takes template (slots.map Prod.fst) = true :=
  supplied (filled template slots) (by simp [nodes_filled])

@[simp] theorem allSupplied_nil : AllSupplied [] := List.forall_mem_nil _

@[simp] theorem allSupplied_cons {part : Layout} {rest : List Layout} :
    AllSupplied (part :: rest) ↔ part.Supplied ∧ AllSupplied rest :=
  List.forall_mem_cons

@[simp] theorem allSupplied_append {first second : List Layout} :
    AllSupplied (first ++ second) ↔ AllSupplied first ∧ AllSupplied second :=
  List.forall_mem_append

@[simp] theorem allSupplied_map_plain (given : List String) : AllSupplied (given.map plain) :=
  List.forall_mem_map.mpr fun text _ => supplied_plain text

@[simp] theorem texts_append (first second : List Layout) : texts (first ++ second) = texts first ++ texts second := by
  simp [texts_eq_map]

@[simp] theorem texts_map_plain (given : List String) : texts (given.map plain) = given := by
  induction given with
  | nil => rfl
  | cons text rest ih => rw [List.map_cons, texts, ih, Layout.text]

/-! The layouts of the parts of pages. -/

abbrev lines (parts : List Layout) : Layout := .joined "\n" parts

abbrev paragraphs (parts : List Layout) : Layout := .joined "\n\n" parts

def rowOfTwo (first second : String) : Layout :=
  .filled "two_columns_table_entry" [("col1", .plain first), ("col2", .plain second)]

def rowOfThree (first second third : String) : Layout :=
  .filled "three_columns_table_entry"
    [("col1", .plain first), ("col2", .plain second), ("col3", .plain third)]

def indexLine (name : String) : Layout :=
  .filled "index_line"
    [("name", .plain (Text.escapeEmphasis name)), ("url", .plain (Text.anchor name))]

def valueLine (line : ValueLine) : Layout :=
  .filled "field_line"
    [("name", .plain (Text.escapeEmphasis line.name)),
     ("value", .plain (SiteContext.valueSpan line.value))]

def valueRow (line : ValueLine) : Layout :=
  rowOfTwo (Text.escapeEmphasis line.name) (SiteContext.valueSpan line.value)

def recordLine (line : RecordLine) : Layout :=
  .filled "record_field_line"
    [("name", .plain (Text.escapeEmphasis line.name)), ("description", .plain line.description)]

def recordRow (line : RecordLine) : Layout :=
  rowOfTwo (Text.escapeEmphasis line.name) (Text.singleLine line.description)

def propertyRow (row : PropertyRow) : Layout :=
  rowOfThree (Text.escapeEmphasis row.name) (SiteContext.accessorsPhrase row.accessors)
    (Text.singleLine row.description)

def functionLine (line : FunctionLine) : Layout :=
  .filled "func_line"
    [("name", .plain (Text.escapeEmphasis line.name)), ("doc_url", .plain line.address),
     ("short_description", .plain line.summary)]

def classMemberLine (line : ClassMemberLine) : Layout :=
  .filled "class_member_line"
    [("name", .plain (Text.escapeEmphasis line.name)), ("doc_url", .plain line.address),
     ("kv_sign", .plain line.sign), ("short_description", .plain line.summary)]

def classLines : ClassLines → Layout
  | .constants constants => lines (constants.map valueLine)
  | .record fields => lines (fields.map recordLine)
  | .members members => lines (members.map classMemberLine)

def classEntry (entry : ClassEntry) : Layout :=
  .filled "class_section"
    [("name", .plain (Text.escapeEmphasis entry.name)), ("doc_url", .plain entry.address),
     ("short_description", .plain entry.summary), ("contents", classLines entry.lines)]

def homeEntry (entry : HomeEntry) : Layout :=
  .filled "module_line"
    [("module_name", .plain (Text.escapeEmphasis entry.moduleName)),
     ("api_url", .plain entry.address), ("short_description", .plain entry.summary)]

def parameterRow (entry : String × String) : Layout :=
  rowOfTwo (Text.escapeEmphasis entry.1) (Text.singleLine entry.2)

def parameters (table : DescribedTable) : Layout :=
  paragraphs (table.intro.toList.map plain ++
    [.filled "func_params_table" [("contents", lines (table.entries.map parameterRow))]])

def exceptionRow (entry : String × String) : Layout := rowOfTwo entry.1 (Text.singleLine entry.2)

def exceptions (table : DescribedTable) : Layout :=
  .filled "func_exceptions_section"
    [("contents", paragraphs
      [.plain (table.intro.getD SiteContext.defaultExceptionsIntro),
       .filled "func_exceptions_table" [("contents", lines (table.entries.map exceptionRow))]])]

def returns (text : String) : Layout := .filled "func_returns_line" [("text", .plain text)]

def yields (text : String) : Layout := .filled "func_yields_line" [("text", .plain text)]

/-- A part that is there when something goes into it. -/
def unlessEmpty {α : Type} (items : List α) (part : Layout) : List Layout :=
  if items.isEmpty then [] else [part]

variable (context : SiteContext)

def backToTop : Layout :=
  .filled "back_to_top"
    [("href", .plain (Text.anchor (context.projectName ++ " API Reference")))]

def header (header : Header) : Layout :=
  let shared :=
    [("project_name", plain (Text.escapeEmphasis context.projectName)),
     ("project_url", plain context.projectUrl), ("home_url", plain header.homeAddress),
     ("src_url", plain header.sourceAddress)]
  match header.overviewAddress with
  | none => .filled "header_div_1" shared
  | some address => .filled "header_div_2" (("api_url", .plain address) :: shared)

def functionDoc (doc : FunctionDoc) : Layout :=
  .filled "func_doc_section"
    [("func_name_1", .plain (Text.escapeEmphasis doc.name)), ("func_name_2", .plain doc.name),
     ("description", .plain doc.description),
     ("decorator", .plain ((doc.decorator.map (· ++ "\n")).getD "")),
     ("signature", .plain (doc.signature.getD SiteContext.unknownSignature)),
     ("contents", paragraphs
       (doc.parameters.toList.map parameters ++ doc.returns.toList.map returns ++
         doc.yields.toList.map yields ++ doc.exceptions.toList.map exceptions ++
         [backToTop context]))]

def table (template : String) (rows : List Layout) : List Layout :=
  unlessEmpty rows
    (.filled template [("contents", lines rows), ("back_to_top", backToTop context)])

def classFields : ClassFields → List Layout
  | .values values => table context "fields_exposed_in_class" (values.map valueRow)
  | .constants constants => table context "fields_exposed_in_enum" (constants.map valueRow)
  | .record fields => table context "fields_exposed_in_record" (fields.map recordRow)

def methods (methods : List FunctionDoc) : List Layout :=
  unlessEmpty methods
    (.filled "methods_section"
      [("index_of_methods", lines (methods.map fun method => indexLine method.name)),
       ("contents", paragraphs (methods.map (functionDoc context)))])

def home (entries : List HomeEntry) : Layout :=
  .filled "home_page"
    [("project_name", .plain (Text.escapeEmphasis context.projectName)),
     ("project_url", .plain context.projectUrl),
     ("contents", paragraphs (entries.map homeEntry)), ("back_to_top", backToTop context)]

def fieldsSection (page : Overview) : List Layout :=
  unlessEmpty page.fields (.filled "all_fields_section"
    [("fields_page_url", .plain page.fieldsAddress),
     ("contents", lines (page.fields.map valueLine)), ("back_to_top", backToTop context)])

def functionsSection (page : Overview) : List Layout :=
  unlessEmpty page.functions (.filled "all_functions_section"
    [("funcs_page_url", .plain page.functionsAddress),
     ("contents", lines (page.functions.map functionLine)), ("back_to_top", backToTop context)])

def classesSection (page : Overview) : List Layout :=
  unlessEmpty page.classes (.filled "all_classes_section"
    [("contents", lines (page.classes.map classEntry)), ("back_to_top", backToTop context)])

def overview (page : Overview) : Layout :=
  .filled "overview_page"
    [("header_div", header context page.header),
     ("module_name", .plain (Text.escapeEmphasis page.moduleName)),
     ("description", .plain page.description),
     ("members", paragraphs
       (fieldsSection context page ++ functionsSection context page ++ classesSection context page))]

def fields (page : FieldsPage) : Layout :=
  .filled "fields_page"
    [("header_div", header context page.header),
     ("module_name", .plain (Text.escapeEmphasis page.moduleName)),
     ("module_api_url", .plain page.moduleAddress),
     ("entries", lines (page.fields.map valueRow)), ("back_to_top", backToTop context)]

def functions (page : FunctionsPage) : Layout :=
  .filled "funcs_doc_page"
    [("header_div", header context page.header),
     ("module_name", .plain (Text.escapeEmphasis page.moduleName)),
     ("module_api_url", .plain page.moduleAddress),
     ("index_of_funcs", lines (page.functions.map fun doc => indexLine doc.name)),
     ("contents", paragraphs (page.functions.map (functionDoc context)))]

def classPage (page : ClassPage) : Layout :=
  .filled "class_doc_page"
    [("header_div", header context page.header),
     ("class_name", .plain (Text.escapeEmphasis page.className)),
     ("module_name", .plain (Text.escapeEmphasis page.moduleName)),
     ("module_api_url", .plain page.moduleAddress),
     ("inheritance", .plain (SiteContext.renderBases page.bases)),
     ("description", .plain page.description),
     ("contents", paragraphs
       (classFields context page.fields ++
         table context "properties_exposed_in_class" (page.properties.map propertyRow) ++
         methods context page.methods))]

def ofContent : PageContent → Layout
  | .home entries => home context entries
  | .overview page => overview context page
  | .fields page => fields context page
  | .functions page => functions context page
  | .classPage page => classPage context page

end Layout

/-- A page as it is laid out. -/
structure Sheet where
  moduleName : Option String
  basename : String
  layout : Layout

def Sheet.page (sheet : Sheet) : Page := ⟨sheet.moduleName, sheet.basename, sheet.layout.text⟩

namespace SiteContext

variable (context : SiteContext)

def sheet (draft : Draft) : Sheet := ⟨draft.moduleName, draft.basename, .ofContent context draft.content⟩

def sheets (models : List ModuleModel) : List Sheet := (context.drafts models).map context.sheet

end SiteContext

end ApiReference
