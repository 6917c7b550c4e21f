import ApiReference.Proofs.Site.Rendering

namespace ApiReference

/-! The tables of the pages. A template that has a table tells so by the two lines at its top, which stand
right before the slot for the rows; on a page, the rows of a table are what is put into that slot. -/

/-- The two lines at the top of a table, and the slot for the rows below them. -/
structure TableHead where
  titles : String
  rule : String
  slot : String
deriving DecidableEq

namespace Template

/-- The head of the first table in a template. -/
def head? : Template → Option TableHead
  | [] => none
  | piece :: rest =>
      match piece, rest with
      | .text titles, .text rule :: .slot slot :: _ =>
          if Text.startsWith "| --- |" rule then some ⟨titles, rule, slot⟩ else head? rest
      | _, _ => head? rest

def headOf? (name : String) : Option TableHead := (find? name).bind head?

def tableTemplates : List String :=
  ["fields_page", "func_params_table", "func_exceptions_table", "fields_exposed_in_class", "fields_exposed_in_enum",
   "fields_exposed_in_record", "properties_exposed_in_class"]

theorem infix_of_head? {template : Template} {head : TableHead} (found : template.head? = some head) :
    [.text head.titles, .text head.rule, .slot head.slot] <:+: template := by
  fun_induction head? template with
  | case1 => cases found
  | case2 titles rule slot =>
      obtain rfl := Option.some.inj found
      exact (List.prefix_append [_, _, _] _).isInfix
  | case3 titles rule slot _ _ ih => exact (ih found).trans (List.suffix_cons _ _).isInfix
  | case4 _ _ _ ih => exact (ih found).trans (List.suffix_cons _ _).isInfix

theorem catalogue_heads : catalogue.all (fun entry => entry.1 ∈ tableTemplates || entry.2.head?.isNone) = true := by
  decide +kernel

theorem headOf?_eq_none {name : String} (other : name ∉ tableTemplates) : headOf? name = none := by
  unfold headOf?
  cases found : find? name with
  | none => rfl
  | some template =>
      obtain ⟨_, _, listed, _⟩ := List.lookup_eq_some_iff.mp found
      have alternatives := List.all_eq_true.mp catalogue_heads (name, template) (by simp [listed])
      simpa [other] using alternatives

end Template

namespace Layout

/-- The table that a filled template has, as its head and its rows. -/
def table? : Layout → Option (TableHead × List Layout)
  | .filled template slots =>
      (Template.headOf? template).bind fun head =>
        match slots.lookup head.slot with
        | some (.joined separator rows) => if separator = "\n" then some (head, rows) else none
        | _ => none
  | _ => none

def tables (layout : Layout) : List (TableHead × List Layout) := layout.nodes.filterMap table?

@[simp] theorem tables_plain (text : String) : (plain text).tables = [] := rfl

@[simp] theorem tables_joined (separator : String) (parts : List Layout) :
    (joined separator parts).tables = parts.flatMap tables := by
  unfold tables
  rw [nodes_joined, List.filterMap_flatMap]

theorem tables_filled (template : String) (slots : List (String × Layout)) :
    (filled template slots).tables = (filled template slots).table?.toList ++ slots.flatMap (·.2.tables) := by
  unfold tables
  rw [nodes_filled, List.filterMap_cons, List.filterMap_flatMap]
  cases (filled template slots).table? <;> rfl

@[simp] theorem tables_filled_of_other {template : String} (other : template ∉ Template.tableTemplates)
    (slots : List (String × Layout)) : (filled template slots).tables = slots.flatMap (·.2.tables) := by
  rw [tables_filled, table?, Template.headOf?_eq_none other]
  rfl

theorem tables_filled_of_head {template : String} {head : TableHead} (found : Template.headOf? template = some head)
    {slots : List (String × Layout)} {rows : List Layout} (given : slots.lookup head.slot = some (lines rows)) :
    (filled template slots).tables = (head, rows) :: slots.flatMap (·.2.tables) := by
  rw [tables_filled, table?, found, Option.bind_some, given]
  rfl

theorem table?_eq_some {node : Layout} {head : TableHead} {rows : List Layout}
    (found : node.table? = some (head, rows)) :
    ∃ template slots, node = filled template slots ∧ Template.headOf? template = some head ∧
      slots.lookup head.slot = some (lines rows) := by
  cases node with
  | plain text => cases found
  | joined separator parts => cases found
  | filled template slots =>
      obtain ⟨own, headed, matched⟩ := Option.bind_eq_some_iff.mp found
      split at matched
      · rename_i separator parts given
        split at matched
        · rename_i feed
          obtain ⟨rfl, rfl⟩ := Prod.mk.inj (Option.some.inj matched)
          rw [feed] at given
          exact ⟨template, slots, rfl, headed, given⟩
        · cases matched
      · cases matched

/-- A table stands on the page line by line: the titles, the rule and the rows. -/
theorem table_infix {layout : Layout} (supplied : layout.Supplied) {head : TableHead} {rows : List Layout}
    (member : (head, rows) ∈ layout.tables) :
    (head.titles ++ head.rule ++ "\n".intercalate (rows.map text)).toList <:+: layout.text.toList := by
  obtain ⟨node, inside, found⟩ := List.mem_filterMap.mp member
  refine List.IsInfix.trans ?_ (text_infix_of_mem_nodes supplied inside)
  obtain ⟨template, slots, rfl, headed, given⟩ := table?_eq_some found
  obtain ⟨pieces, known, first⟩ := Option.bind_eq_some_iff.mp headed
  obtain ⟨before, after, written⟩ := Template.infix_of_head? first
  obtain ⟨_, taken, distinct, _⟩ := Template.takes_iff.mp (supplied _ inside)
  obtain ⟨_, _, listed, _⟩ := List.lookup_eq_some_iff.mp given
  have value : (values slots).lookup head.slot = some (lines rows).text :=
    lookup_values distinct (by simp [listed])
  have shown : (head.titles ++ head.rule ++ "\n".intercalate (rows.map text)).toList =
      ([.text head.titles, .text head.rule, .slot head.slot] : Template).flatMap
        fun piece => (Template.pieceText (values slots) piece).toList := by
    simp [Template.pieceText, value, text, texts_eq_map]
  rw [text, Template.insert, known, Option.getD_some, String.toList_join, List.flatMap_map, ← written,
    List.flatMap_append, List.flatMap_append, shown]
  exact List.infix_append _ _ _

end Layout

/-- What a row of a table tells. -/
inductive TableEntry where
  | value (line : ValueLine)
  | record (line : RecordLine)
  | property (row : PropertyRow)
  | parameter (entry : String × String)
  | exception (entry : String × String)
deriving DecidableEq

namespace TableEntry

def layout : TableEntry → Layout
  | .value line => .valueRow line
  | .record line => .recordRow line
  | .property row => .propertyRow row
  | .parameter entry => .parameterRow entry
  | .exception entry => .exceptionRow entry

def row (entry : TableEntry) : String := entry.layout.text

end TableEntry

/-- A table with what its rows tell, by the template that has its head. -/
structure Table where
  template : String
  entries : List TableEntry
deriving DecidableEq

namespace Table

def head (table : Table) : TableHead := (Template.headOf? table.template).getD ⟨"", "", ""⟩

def rows (table : Table) : List Layout := table.entries.map TableEntry.layout

def text (table : Table) : String :=
  table.head.titles ++ table.head.rule ++ "\n".intercalate (table.entries.map TableEntry.row)

def isEmpty (table : Table) : Bool := table.entries.isEmpty

def laidOut (table : Table) : TableHead × List Layout := (table.head, table.rows)

end Table

def DescribedTable.ofParameters (given : DescribedTable) : Table := ⟨"func_params_table", given.entries.map .parameter⟩

def DescribedTable.ofExceptions (given : DescribedTable) : Table :=
  ⟨"func_exceptions_table", given.entries.map .exception⟩

def FunctionDoc.tables (doc : FunctionDoc) : List Table :=
  doc.parameters.toList.map DescribedTable.ofParameters ++ doc.exceptions.toList.map DescribedTable.ofExceptions

theorem FunctionDoc.forall_tables {doc : FunctionDoc} {Holds : Table → Prop}
    (parameters : ∀ given ∈ doc.parameters, Holds given.ofParameters)
    (exceptions : ∀ given ∈ doc.exceptions, Holds given.ofExceptions) : ∀ table ∈ doc.tables, Holds table :=
  List.forall_mem_append.mpr
    ⟨List.forall_mem_map.mpr fun given listed => parameters given (Option.mem_toList.mp listed),
      List.forall_mem_map.mpr fun given listed => exceptions given (Option.mem_toList.mp listed)⟩

def ClassFields.table : ClassFields → Table
  | .values lines => ⟨"fields_exposed_in_class", lines.map .value⟩
  | .constants lines => ⟨"fields_exposed_in_enum", lines.map .value⟩
  | .record lines => ⟨"fields_exposed_in_record", lines.map .record⟩

def ClassPage.propertyTable (page : ClassPage) : Table := ⟨"properties_exposed_in_class", page.properties.map .property⟩

/-- The tables of a page; those of a class that would have no row are left out. -/
def PageContent.tables : PageContent → List Table
  | .home _ => []
  | .overview _ => []
  | .fields page => [⟨"fields_page", page.fields.map .value⟩]
  | .functions page => page.functions.flatMap FunctionDoc.tables
  | .classPage page =>
      [page.fields.table, page.propertyTable].filter (fun table => !table.isEmpty) ++
        page.methods.flatMap FunctionDoc.tables

theorem ClassPage.forall_tables {page : ClassPage} {Holds : Table → Prop} (fields : Holds page.fields.table)
    (properties : Holds page.propertyTable) (methods : ∀ doc ∈ page.methods, ∀ table ∈ doc.tables, Holds table) :
    ∀ table ∈ (PageContent.classPage page).tables, Holds table := by
  refine List.forall_mem_append.mpr ⟨?_, List.forall_mem_flatMap.mpr methods⟩
  intro table listed
  rcases List.mem_cons.mp (List.mem_of_mem_filter listed) with rfl | listed
  · exact fields
  · rwa [List.mem_singleton.mp listed]

namespace Layout

open Template (tableTemplates)

variable (context : SiteContext)

@[simp] theorem flatMap_tables_of_none {α : Type} {layout : α → Layout} (none : ∀ item, (layout item).tables = [])
    (items : List α) : (items.map layout).flatMap tables = [] := by
  simp [List.flatMap_eq_nil_iff, none]

theorem flatMap_tables_of_each {α : Type} {layout : α → Layout} {told : α → List Table}
    (each : ∀ item, (layout item).tables = (told item).map Table.laidOut) (items : List α) :
    (items.map layout).flatMap tables = (items.flatMap told).map Table.laidOut := by
  rw [List.flatMap_map, List.map_flatMap]
  simp only [each]

theorem flatMap_tables_of_single {α : Type} {layout : α → Layout} {told : α → Table}
    (single : ∀ item, (layout item).tables = [(told item).laidOut]) (items : List α) :
    (items.map layout).flatMap tables = (items.map told).map Table.laidOut := by
  rw [@flatMap_tables_of_each _ layout (fun item => [told item]) single, ← List.map_eq_flatMap]

@[simp] theorem flatMap_tables_unlessEmpty {α : Type} (items : List α) (part : Layout) :
    (unlessEmpty items part).flatMap tables = if items.isEmpty then [] else part.tables := by
  unfold unlessEmpty
  split <;> simp

/-- A template that has a table has no other one inside. -/
theorem tables_of_entries {α : Type} (entry : α → TableEntry) (items : List α) {template : String} {head : TableHead}
    (found : Template.headOf? template = some head) {slots : List (String × Layout)}
    (given : slots.lookup head.slot = some (lines (items.map fun item => (entry item).layout)))
    (noOther : slots.flatMap (·.2.tables) = []) :
    (filled template slots).tables = [Table.laidOut ⟨template, items.map entry⟩] := by
  rw [tables_filled_of_head found given, noOther, Table.laidOut, Table.head, found, Option.getD_some, Table.rows,
    List.map_map]
  rfl

@[simp] theorem tables_rowOfTwo (first second : String) : (rowOfTwo first second).tables = [] := by
  simp [rowOfTwo, tableTemplates]

@[simp] theorem tables_rowOfThree (first second third : String) : (rowOfThree first second third).tables = [] := by
  simp [rowOfThree, tableTemplates]

@[simp] theorem tables_entry (entry : TableEntry) : entry.layout.tables = [] := by
  cases entry <;> simp [TableEntry.layout, valueRow, recordRow, propertyRow, parameterRow, exceptionRow]

@[simp] theorem tables_backToTop : (backToTop context).tables = [] := by simp [backToTop, tableTemplates]

@[simp] theorem tables_header (given : Header) : (header context given).tables = [] := by
  unfold header
  cases given.overviewAddress <;> simp [tableTemplates]

@[simp] theorem tables_indexLine (name : String) : (indexLine name).tables = [] := by simp [indexLine, tableTemplates]

theorem tables_parameters (given : DescribedTable) :
    (parameters given).tables = [given.ofParameters.laidOut] := by
  have own := @tables_of_entries _ .parameter given.entries "func_params_table" _ rfl
    [("contents", lines (given.entries.map parameterRow))] rfl (by simp [parameterRow])
  simp [parameters, own, DescribedTable.ofParameters]

theorem tables_exceptions (given : DescribedTable) :
    (exceptions given).tables = [given.ofExceptions.laidOut] := by
  have own := @tables_of_entries _ .exception given.entries "func_exceptions_table" _ rfl
    [("contents", lines (given.entries.map exceptionRow))] rfl (by simp [exceptionRow])
  simp [exceptions, own, tableTemplates, DescribedTable.ofExceptions]

theorem tables_functionDoc (doc : FunctionDoc) : (functionDoc context doc).tables = doc.tables.map Table.laidOut := by
  have given := flatMap_tables_of_single tables_parameters doc.parameters.toList
  have raised := flatMap_tables_of_single tables_exceptions doc.exceptions.toList
  simp [functionDoc, returns, yields, tableTemplates, given, raised, FunctionDoc.tables]

/-- A table of a class is left out when it would have no row. -/
theorem flatMap_tables_table {α : Type} (entry : α → TableEntry) (items : List α) {template : String} {head : TableHead}
    (found : Template.headOf? template = some head) (slot : head.slot = "contents") :
    (table context template (items.map fun item => (entry item).layout)).flatMap tables =
      ([Table.mk template (items.map entry)].filter fun table => !table.isEmpty).map Table.laidOut := by
  have own := @tables_of_entries _ entry items template head found
    [("contents", lines (items.map fun item => (entry item).layout)), ("back_to_top", backToTop context)]
    (by rw [slot]; rfl) (by simp)
  rw [table, flatMap_tables_unlessEmpty, own]
  cases items <;> rfl

theorem flatMap_tables_classFields (given : ClassFields) :
    (classFields context given).flatMap tables =
      ([given.table].filter fun table => !table.isEmpty).map Table.laidOut := by
  cases given with
  | values lines => exact flatMap_tables_table context .value lines rfl rfl
  | constants lines => exact flatMap_tables_table context .value lines rfl rfl
  | record lines => exact flatMap_tables_table context .record lines rfl rfl

theorem flatMap_tables_methods (given : List FunctionDoc) :
    (methods context given).flatMap tables = (given.flatMap FunctionDoc.tables).map Table.laidOut := by
  have docs := flatMap_tables_of_each (tables_functionDoc context) given
  by_cases nothing : given = [] <;> simp [methods, tableTemplates, docs, nothing]

theorem tables_overview (page : Overview) : (overview context page).tables = [] := by
  have ofClass : ∀ entry, (classEntry entry).tables = [] := by
    intro entry
    have noTable : (classLines entry.lines).tables = [] := by
      cases entry.lines <;> simp [classLines, valueLine, recordLine, classMemberLine, tableTemplates]
    simp [classEntry, noTable, tableTemplates]
  simp [overview, fieldsSection, functionsSection, classesSection, valueLine, functionLine, tableTemplates, ofClass]

/-- The tables of a page, in their order, and no others. -/
theorem tables_ofContent (content : PageContent) :
    (ofContent context content).tables = content.tables.map Table.laidOut := by
  cases content with
  | home entries => simp [ofContent, home, homeEntry, tableTemplates, PageContent.tables]
  | overview page => exact tables_overview context page
  | fields page => exact tables_of_entries .value page.fields rfl rfl (by simp [valueRow])
  | functions page =>
      have docs := flatMap_tables_of_each (tables_functionDoc context) page.functions
      simp [ofContent, functions, tableTemplates, docs, PageContent.tables]
  | classPage page =>
      have properties : (table context "properties_exposed_in_class" (page.properties.map propertyRow)).flatMap tables =
          ([page.propertyTable].filter fun table => !table.isEmpty).map Table.laidOut :=
        flatMap_tables_table context .property page.properties rfl rfl
      have parted : [page.fields.table, page.propertyTable] = [page.fields.table] ++ [page.propertyTable] := rfl
      rw [PageContent.tables, parted, List.filter_append, List.map_append, List.map_append, ← properties,
        ← flatMap_tables_classFields context, ← flatMap_tables_methods context]
      simp [ofContent, classPage, tableTemplates]

end Layout

end ApiReference
