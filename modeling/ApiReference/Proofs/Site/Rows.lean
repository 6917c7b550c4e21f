import ApiReference.Proofs.Docstring.Tidy
import ApiReference.Proofs.Site.Pages
import ApiReference.Proofs.Site.Tables
import ApiReference.Proofs.Text.Bars
import Mathlib.Algebra.GroupWithZero.Nat

namespace ApiReference

/-! The cells of the rows of tables. A row is one line, whatever was recorded. Its bars are those of its
template and those of the recorded texts, which are put in as they are. -/

/-- A name that takes up one cell when it is put into a row. -/
def OneCell (name : String) : Prop := '\n' ∉ name.toList ∧ '|' ∉ name.toList

instance (name : String) : Decidable (OneCell name) :=
  inferInstanceAs (Decidable ('\n' ∉ name.toList ∧ '|' ∉ name.toList))

/-! The names of a model that tables show, other than those of exceptions. -/

def Docstring.parameterNames (doc : Docstring) : List String := doc.parameters.toList.flatMap (·.keyed.map Prod.fst)

def ClassMember.cellNames (member : ClassMember) : List String := member.name :: member.docstring.parameterNames

def ClassModel.cellNames (model : ClassModel) : List String :=
  model.constants.map (·.name) ++ model.recordFields.map (·.name) ++ model.members.flatMap ClassMember.cellNames

def Member.cellNames (member : Member) : List String :=
  member.name :: member.docstring.parameterNames ++ member.classModel?.toList.flatMap ClassModel.cellNames

def ModuleModel.cellNames (model : ModuleModel) : List String := model.members.flatMap Member.cellNames

theorem Chars.openBarsAfter_cells (cells : List String) :
    openBarsAfter ' ' ((cells.flatMap fun cell => '|' :: ' ' :: (cell.toList ++ [' '])) ++ ['|']) =
      cells.length + 1 + (cells.map Text.openBars).sum := by
  induction cells with
  | nil => rfl
  | cons cell rest ih =>
      -- The blank behind the cell is what stands before the next bar.
      rw [List.flatMap_cons, List.cons_append, List.cons_append, List.cons_append, List.cons_append, List.append_assoc,
        List.append_assoc, List.singleton_append, openBarsAfter, openBarsAfter_cons (by decide),
        openBarsAfter_append_cons (by decide), ih, List.length_cons, List.map_cons, List.sum_cons, if_pos (by decide)]
      change 1 + (Text.openBars cell + _) = _
      omega

namespace SiteContext

theorem openBars_valueSpan (value : Option String) :
    Text.openBars (valueSpan value) = (value.toList.map Text.openBars).sum := by
  cases value with
  | none => decide
  | some text =>
      have ticks : '\x60' = '\\' ↔ ' ' = '\\' := by decide
      have spelled : (valueSpan (some text)).toList =
          '\x60' :: (Chars.escapeUnprintable text.toList ++ ['\x60']) := by
        simp [valueSpan, Text.escapeUnprintable]
      rw [Text.openBars, spelled, Chars.openBarsAfter_cons (by decide), Chars.openBarsAfter_append_cons (by decide),
        Chars.openBarsAfter_escapeUnprintable, Chars.openBarsAfter_congr ticks]
      rfl

theorem feed_not_mem_valueSpan (value : Option String) : '\n' ∉ (valueSpan value).toList := by
  cases value with
  | none => decide
  | some text => simp [valueSpan, Text.escapeUnprintable, Chars.feed_not_mem_escapeUnprintable]

theorem not_mem_accessorsPhrase {c : Char} (other : c ∉ ['_', ',', ' ']) {accessors : List String}
    (absent : ∀ accessor ∈ accessors, c ∉ accessor.toList) : c ∉ (accessorsPhrase accessors).toList := by
  simp only [List.mem_cons, List.not_mem_nil, or_false, not_or] at other
  have joined : c ∉ [',', ' '].intercalate (accessors.map String.toList) :=
    Chars.not_mem_intercalate (by simp [other]) (List.forall_mem_map.mpr absent)
  simp [accessorsPhrase, other, joined]

theorem oneCell_accessorsPhrase {accessors : List String} (each : ∀ accessor ∈ accessors, OneCell accessor) :
    OneCell (accessorsPhrase accessors) :=
  ⟨not_mem_accessorsPhrase (by decide) fun accessor member => (each accessor member).1,
    not_mem_accessorsPhrase (by decide) fun accessor member => (each accessor member).2⟩

end SiteContext

theorem OneCell.escapeEmphasis {name : String} (oneCell : OneCell name) : OneCell (Text.escapeEmphasis name) :=
  ⟨Text.not_mem_escapeEmphasis (by decide) oneCell.1, Text.not_mem_escapeEmphasis (by decide) oneCell.2⟩

theorem OneCell.openBars {name : String} (oneCell : OneCell name) : Text.openBars name = 0 :=
  Text.openBars_of_not_mem oneCell.2

namespace TableEntry

/-- What stands between the bars of a row. -/
def cells : TableEntry → List String
  | .value line => [Text.escapeEmphasis line.name, SiteContext.valueSpan line.value]
  | .record line => [Text.escapeEmphasis line.name, Text.singleLine line.description]
  | .property row =>
      [Text.escapeEmphasis row.name, SiteContext.accessorsPhrase row.accessors, Text.singleLine row.description]
  | .parameter entry => [Text.escapeEmphasis entry.1, Text.singleLine entry.2]
  | .exception entry => [entry.1, Text.singleLine entry.2]

/-- The recorded texts of a row, in which no bar is escaped: a value or a description and, of an exception, also
the name. -/
def texts : TableEntry → List String
  | .value line => line.value.toList
  | .record line => [line.description]
  | .property row => [row.description]
  | .parameter entry => [entry.2]
  | .exception entry => [entry.1, entry.2]

/-- Whether the names of a row take up one cell each; that of an exception is only known to be one line. -/
def Orderly : TableEntry → Prop
  | .value line => OneCell line.name
  | .record line => OneCell line.name
  | .property row => OneCell row.name ∧ ∀ accessor ∈ row.accessors, OneCell accessor
  | .parameter entry => OneCell entry.1
  | .exception entry => '\n' ∉ entry.1.toList

theorem toList_row (entry : TableEntry) :
    entry.row.toList = (entry.cells.flatMap fun cell => '|' :: ' ' :: (cell.toList ++ [' '])) ++ ['|'] := by
  have two : Template.find? "two_columns_table_entry" = some Template.rowOfTwo := rfl
  have three : Template.find? "three_columns_table_entry" = some Template.rowOfThree := rfl
  cases entry <;>
    simp [row, layout, cells, Layout.valueRow, Layout.recordRow, Layout.propertyRow, Layout.parameterRow,
      Layout.exceptionRow, Layout.rowOfTwo, Layout.rowOfThree, Layout.text, Layout.values, Template.insert, two, three,
      Template.rowOfTwo, Template.rowOfThree, Template.pieceText, OrderedMap.lookup_cons_eq_ite]

theorem openBars_row (entry : TableEntry) :
    Text.openBars entry.row = entry.cells.length + 1 + (entry.cells.map Text.openBars).sum := by
  rw [Text.openBars, toList_row, Chars.openBarsAfter_cells]

theorem feed_not_mem_row {entry : TableEntry} (unbroken : ∀ cell ∈ entry.cells, '\n' ∉ cell.toList) :
    '\n' ∉ entry.row.toList := by
  rw [toList_row]
  simpa using unbroken

variable {entry : TableEntry}

theorem Orderly.cells_unbroken (orderly : entry.Orderly) : ∀ cell ∈ entry.cells, '\n' ∉ cell.toList := by
  cases entry with
  | value line => simp [cells, orderly.escapeEmphasis.1, SiteContext.feed_not_mem_valueSpan]
  | record line => simp [cells, orderly.escapeEmphasis.1, Text.feed_not_mem_singleLine]
  | property row =>
      have phrase := (SiteContext.oneCell_accessorsPhrase orderly.2).1
      simp [cells, orderly.1.escapeEmphasis.1, phrase, Text.feed_not_mem_singleLine]
  | parameter entry => simp [cells, orderly.escapeEmphasis.1, Text.feed_not_mem_singleLine]
  | exception entry =>
      have named : '\n' ∉ entry.1.toList := orderly
      simp [cells, named, Text.feed_not_mem_singleLine]

/-- The ways in which a recorded text is written into a cell leave its open bars as they are. -/
theorem Orderly.openBars_cells (orderly : entry.Orderly) :
    (entry.cells.map Text.openBars).sum = (entry.texts.map Text.openBars).sum := by
  cases entry with
  | value line => simp [cells, texts, orderly.escapeEmphasis.openBars, SiteContext.openBars_valueSpan]
  | record line => simp [cells, texts, orderly.escapeEmphasis.openBars, Text.openBars_singleLine]
  | property row =>
      simp [cells, texts, orderly.1.escapeEmphasis.openBars, (SiteContext.oneCell_accessorsPhrase orderly.2).openBars,
        Text.openBars_singleLine]
  | parameter entry => simp [cells, texts, orderly.escapeEmphasis.openBars, Text.openBars_singleLine]
  | exception entry => simp [cells, texts, Text.openBars_singleLine]

end TableEntry

namespace Table

/-- Whether the rows have as many cells as the titles, as far as their templates are concerned. -/
def Aligned (table : Table) : Prop :=
  ∀ entry ∈ table.entries, Text.openBars table.head.titles = entry.cells.length + 1

def Orderly (table : Table) : Prop := ∀ entry ∈ table.entries, entry.Orderly

theorem aligned_of_bars {α : Type} {entry : α → TableEntry} (template : String) (bars : Nat)
    (titles : Text.openBars (head ⟨template, []⟩).titles = bars) (row : ∀ item, (entry item).cells.length + 1 = bars)
    (items : List α) : Aligned ⟨template, items.map entry⟩ :=
  List.forall_mem_map.mpr fun item _ => titles.trans (row item).symm

end Table

theorem FunctionDoc.aligned_tables (doc : FunctionDoc) : ∀ table ∈ doc.tables, table.Aligned := by
  refine forall_tables (fun given _ => ?_) (fun given _ => ?_)
  · exact Table.aligned_of_bars "func_params_table" 3 (by decide +kernel) (fun _ => rfl) given.entries
  · exact Table.aligned_of_bars "func_exceptions_table" 3 (by decide +kernel) (fun _ => rfl) given.entries

theorem ClassFields.aligned_table (fields : ClassFields) : fields.table.Aligned := by
  cases fields with
  | values lines => exact Table.aligned_of_bars "fields_exposed_in_class" 3 (by decide +kernel) (fun _ => rfl) lines
  | constants lines => exact Table.aligned_of_bars "fields_exposed_in_enum" 3 (by decide +kernel) (fun _ => rfl) lines
  | record lines => exact Table.aligned_of_bars "fields_exposed_in_record" 3 (by decide +kernel) (fun _ => rfl) lines

theorem PageContent.aligned_tables (content : PageContent) : ∀ table ∈ content.tables, table.Aligned := by
  cases content with
  | home entries => exact List.forall_mem_nil _
  | overview page => exact List.forall_mem_nil _
  | fields page =>
      refine List.forall_mem_singleton.mpr ?_
      exact Table.aligned_of_bars "fields_page" 3 (by decide +kernel) (fun _ => rfl) page.fields
  | functions page => exact List.forall_mem_flatMap.mpr fun doc _ => doc.aligned_tables
  | classPage page =>
      refine ClassPage.forall_tables page.fields.aligned_table ?_ fun doc _ => doc.aligned_tables
      exact Table.aligned_of_bars "properties_exposed_in_class" 4 (by decide +kernel) (fun _ => rfl) page.properties

namespace SiteContext

variable (context : SiteContext)

theorem orderly_functionDoc {name : String} {source signature decorator : Option String}
    (named : ∀ name ∈ (Docstring.parse source).parameterNames, OneCell name) :
    ∀ table ∈ (functionDoc name (.parse source) signature decorator).tables, table.Orderly := by
  simp only [Docstring.parameterNames, List.forall_mem_flatMap, List.forall_mem_map, Option.mem_toList] at named
  refine FunctionDoc.forall_tables (fun given shown => ?_) (fun given shown => ?_)
  · obtain ⟨list, present, rfl⟩ := Option.map_eq_some_iff.mp shown
    exact List.forall_mem_map.mpr (named list present)
  · -- The name of an exception was read from one line of the docstring.
    obtain ⟨list, present, rfl⟩ := Option.map_eq_some_iff.mp shown
    have tidy := ((Docstring.parse_tidy source).exceptions list present).2
    exact List.forall_mem_map.mpr fun entry listed =>
      tidy.keyUnbroken _ (List.mem_map_of_mem (List.mem_of_mem_filter listed))

theorem oneCell_accessors (member : ClassMember) : ∀ accessor ∈ member.accessors, OneCell accessor := by
  have each : ∀ accessor ∈ ["getter", "setter", "deleter"], OneCell accessor := by decide
  exact fun accessor listed => each accessor (member.accessors_subset listed)

theorem orderly_classFields {model : ClassModel} (constants : ∀ constant ∈ model.constants, OneCell constant.name)
    (fields : ∀ field ∈ model.recordFields, OneCell field.name)
    (members : ∀ member ∈ model.members, OneCell member.name) : (classFields model).table.Orderly := by
  unfold classFields
  split
  · rename_i given form
    rw [ClassModel.recordFields, form] at fields
    exact List.forall_mem_map.mpr (List.forall_mem_map.mpr fields)
  · rename_i given form
    rw [ClassModel.constants, form] at constants
    exact List.forall_mem_map.mpr (List.forall_mem_map.mpr constants)
  · refine List.forall_mem_map.mpr (List.forall_mem_map.mpr fun member listed => ?_)
    exact members member (List.mem_of_mem_filter listed)

theorem orderly_classPage {model : ClassModel} (named : ∀ name ∈ model.cellNames, OneCell name) (moduleName : String)
    (member : Member) :
    ∀ table ∈ (PageContent.classPage (context.classPage moduleName member model)).tables, table.Orderly := by
  simp only [ClassModel.cellNames, ClassMember.cellNames, List.forall_mem_append, List.forall_mem_map,
    List.forall_mem_flatMap, List.forall_mem_cons] at named
  obtain ⟨⟨constants, fields⟩, members⟩ := named
  have own : (classFields model).table.Orderly :=
    orderly_classFields constants fields fun member listed => (members member listed).1
  refine ClassPage.forall_tables own ?_ ?_
  · refine List.forall_mem_map.mpr (List.forall_mem_map.mpr fun property listed => ?_)
    exact ⟨(members property (List.mem_of_mem_filter listed)).1, oneCell_accessors property⟩
  · refine List.forall_mem_map.mpr fun method listed => ?_
    exact orderly_functionDoc (members method (List.mem_of_mem_filter listed)).2

theorem orderly_moduleDrafts {model : ModuleModel} (named : ∀ name ∈ model.cellNames, OneCell name) {draft : Draft}
    (member : draft ∈ context.moduleDrafts model) : ∀ table ∈ draft.content.tables, table.Orderly := by
  simp only [ModuleModel.cellNames, Member.cellNames, List.forall_mem_flatMap, List.cons_append, List.forall_mem_cons,
    List.forall_mem_append, Option.mem_toList] at named
  simp only [moduleDrafts, List.mem_append, List.mem_map] at member
  rcases member with ((member | member) | member) | ⟨entry, isClass, rfl⟩
  · rw [List.mem_singleton.mp member]
    exact List.forall_mem_nil _
  · split at member
    · cases member
    · rw [List.mem_singleton.mp member]
      refine List.forall_mem_singleton.mpr (List.forall_mem_map.mpr (List.forall_mem_map.mpr fun field listed => ?_))
      exact (named field (List.mem_of_mem_filter listed)).1
  · split at member
    · cases member
    · rw [List.mem_singleton.mp member]
      refine List.forall_mem_flatMap.mpr (List.forall_mem_map.mpr fun function listed => ?_)
      exact orderly_functionDoc (named function (List.mem_of_mem_filter listed)).2.1
  · obtain ⟨listed, known⟩ := mem_classesOf.mp isClass
    exact context.orderly_classPage ((named entry.1 listed).2.2 entry.2 known) _ _

theorem orderly_tables {models : List ModuleModel} (named : ∀ model ∈ models, ∀ name ∈ model.cellNames, OneCell name)
    {draft : Draft} (member : draft ∈ context.drafts models) : ∀ table ∈ draft.content.tables, table.Orderly := by
  unfold drafts at member
  rcases List.mem_append.mp member with member | member
  · obtain ⟨model, shown, member⟩ := List.mem_flatMap.mp member
    exact context.orderly_moduleDrafts (named model (List.mem_of_mem_filter shown)) member
  · split at member
    · cases member
    · rw [List.mem_singleton.mp member]
      exact List.forall_mem_nil _

theorem table_infix_page {draft : Draft} {table : Table} (listed : table ∈ draft.content.tables) :
    table.text.toList <:+: (context.sheet draft).page.text.toList := by
  have laid : (table.head, table.rows) ∈ (context.sheet draft).layout.tables := by
    rw [sheet, Layout.tables_ofContent]
    exact List.mem_map_of_mem listed
  have found := Layout.table_infix (context.sheet_supplied draft) laid
  rwa [Table.rows, List.map_map] at found

/-- If the names of members, constants, fields and parameters have no line feed and no bar in them, then every row of
every table is one line, and its open bars are as many as those of the titles and those of the recorded texts. -/
theorem rows_divided (context : SiteContext) {models : List ModuleModel}
    (named : ∀ model ∈ models, ∀ name ∈ model.cellNames, '\n' ∉ name.toList ∧ '|' ∉ name.toList) :
    context.pages models = .ok ((context.drafts models).map fun draft => (context.sheet draft).page) ∧
      ∀ draft ∈ context.drafts models,
        (context.sheet draft).layout.tables = draft.content.tables.map Table.laidOut ∧
        ∀ table ∈ draft.content.tables,
          table.text.toList <:+: (context.sheet draft).page.text.toList ∧
          ∀ entry ∈ table.entries, '\n' ∉ entry.row.toList ∧
            Text.openBars entry.row = Text.openBars table.head.titles + (entry.texts.map Text.openBars).sum := by
  refine ⟨?_, fun draft drafted => ⟨Layout.tables_ofContent context draft.content, fun table listed => ?_⟩⟩
  · rw [pages_eq, sheets, List.map_map]
    rfl
  · refine ⟨context.table_infix_page listed, fun entry told => ?_⟩
    have orderly := context.orderly_tables named drafted table listed entry told
    have aligned := draft.content.aligned_tables table listed entry told
    refine ⟨TableEntry.feed_not_mem_row orderly.cells_unbroken, ?_⟩
    rw [TableEntry.openBars_row, orderly.openBars_cells, aligned]

/-- A value with an open bar, and the description of a parameter with an escaped one on the first of two lines. -/
def fileModes : ModuleModel where
  name := "files"
  doc := none
  members :=
    [{ name := "MASK", attr := .ofData "files" "READ | WRITE", doc := none, signature := none, kind := .field },
     { name := "open_file", attr := .ofFunction "files" "(mode)",
       doc := some "Opens.\n\n[param]\n- mode: One of r \\| w,\n  or both.", signature := some "(mode)",
       kind := .function }]

theorem fileModes_named : ∀ name ∈ fileModes.cellNames, '\n' ∉ name.toList ∧ '|' ∉ name.toList := by
  decide +kernel

theorem fileModes_divided :
    let context : SiteContext := ⟨"Files", "/README.md", "src/files", "docs/api"⟩
    (∀ name ∈ fileModes.cellNames, '\n' ∉ name.toList ∧ '|' ∉ name.toList) ∧
      ∃ draft ∈ context.drafts [fileModes], ∃ table ∈ draft.content.tables, ∃ entry ∈ table.entries,
        entry = .parameter ("mode", "One of r \\| w, or both.") ∧
        table.text.toList <:+: (context.sheet draft).page.text.toList ∧ '\n' ∉ entry.row.toList ∧
        Text.openBars entry.row = 3 := by
  intro context
  have drafted : ⟨some "files", Page.functionsName, .functions (context.functionsPage fileModes)⟩ ∈
      context.drafts [fileModes] := .tail _ (.tail _ (.head _))
  obtain ⟨_, each⟩ := rows_divided context (List.forall_mem_singleton.mpr fileModes_named)
  obtain ⟨_, tables⟩ := each _ drafted
  have listed : Table.mk "func_params_table" [.parameter ("mode", "One of r \\| w, or both.")] ∈
      (PageContent.functions (context.functionsPage fileModes)).tables := by decide +kernel
  obtain ⟨shown, rows⟩ := tables _ listed
  obtain ⟨unbroken, bars⟩ := rows _ (List.mem_singleton_self _)
  refine ⟨fileModes_named, _, drafted, _, listed, _, List.mem_singleton_self _, rfl, shown, unbroken, bars.trans ?_⟩
  decide +kernel

/-- A bar in a recorded value divides a cell. -/
theorem open_bar_divides_cell :
    let context : SiteContext := ⟨"Files", "/README.md", "src/files", "docs/api"⟩
    (∀ name ∈ fileModes.cellNames, '\n' ∉ name.toList ∧ '|' ∉ name.toList) ∧
      ∃ pages, context.pages [fileModes] = .ok pages ∧ ∃ page ∈ pages,
        "| Field | Value |\n| --- | --- |\n| MASK | `READ | WRITE` |".toList <:+: page.text.toList ∧
        Text.openBars "| Field | Value |" = 3 ∧ Text.openBars "| MASK | `READ | WRITE` |" = 4 := by
  intro context
  have drafted : ⟨some "files", Page.fieldsName, .fields (context.fieldsPage fileModes)⟩ ∈
      context.drafts [fileModes] := .tail _ (.head _)
  have listed : Table.mk "fields_page" [.value ⟨"MASK", some "READ | WRITE"⟩] ∈
      (PageContent.fields (context.fieldsPage fileModes)).tables := by decide +kernel
  have spelled : (Table.mk "fields_page" [.value ⟨"MASK", some "READ | WRITE"⟩]).text =
      "| Field | Value |\n| --- | --- |\n| MASK | `READ | WRITE` |" := by decide +kernel
  have shown := @table_infix_page context
    ⟨some "files", Page.fieldsName, .fields (context.fieldsPage fileModes)⟩ _ listed
  rw [spelled] at shown
  exact ⟨fileModes_named, _, context.pages_eq _, _, List.mem_map_of_mem (List.mem_map_of_mem drafted), shown,
    by decide, by decide⟩

end SiteContext

end ApiReference
