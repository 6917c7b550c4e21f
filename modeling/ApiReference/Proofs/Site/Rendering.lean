import ApiReference.Proofs.OrderedMap
import ApiReference.Proofs.Site.Layout

namespace ApiReference

/-! Pages can always be laid out: every template that is used is in the catalogue, each of its
slots gets a value, and the text of the template itself keeps the page from being blank. -/

namespace Template

/-- Whether a piece shows, whatever is put into the slots. -/
def shows : Piece → Bool
  | .text text => !Text.isBlank text
  | .slot _ => false

theorem catalogue_shows : catalogue.all (fun entry => entry.2.any shows) = true := by
  decide +kernel

theorem takes_iff {name : String} {given : List String} :
    takes name given = true ↔
      ∃ template, find? name = some template ∧ given.Nodup ∧ ∀ slot, Piece.slot slot ∈ template ↔ slot ∈ given := by
  unfold takes
  cases find? name with
  | none => simp
  | some template =>
      simp only [Bool.and_eq_true, decide_eq_true_eq, List.all_eq_true, List.contains_iff_mem, Option.some.injEq,
        exists_eq_left', and_assoc, and_congr_right_iff]
      intro _
      constructor
      · rintro ⟨taken, needed⟩ slot
        exact ⟨fun member => by simpa using needed _ member, taken slot⟩
      · intro same
        refine ⟨fun slot member => (same slot).mpr member, ?_⟩
        rintro (_ | slot) member
        · rfl
        · simpa using (same slot).mp member

theorem exists_lookup {values : Values} {slot : String} (given : slot ∈ values.map Prod.fst) :
    ∃ value, values.lookup slot = some value := by
  rw [← Option.ne_none_iff_exists']
  intro missing
  obtain ⟨entry, member, rfl⟩ := List.mem_map.mp given
  simpa using List.lookup_eq_none_iff.mp missing entry member

/-- Filling a template that has a value for each slot puts the values in as they are. -/
theorem fill?_of_supplied {template : Template} {values : Values}
    (enough : ∀ slot, Piece.slot slot ∈ template → slot ∈ values.map Prod.fst) :
    fill? template values = some (String.join (template.map (pieceText values))) := by
  have pieces : template.mapM (fillPiece? values) = some (template.map (pieceText values)) := by
    induction template with
    | nil => rfl
    | cons piece rest ih =>
        have rested := ih fun slot member => enough slot (List.mem_cons_of_mem _ member)
        cases piece with
        | text text => simp [fillPiece?, pieceText, rested]
        | slot slot =>
            obtain ⟨value, found⟩ := exists_lookup (enough slot List.mem_cons_self)
            simp [fillPiece?, pieceText, found, rested]
  rw [fill?, pieces]
  rfl

theorem render_of_takes {name : String} {values : Values} (taken : takes name (values.map Prod.fst) = true) :
    render name values = .ok (insert name values) := by
  obtain ⟨template, found, _, same⟩ := takes_iff.mp taken
  rw [render, found, Option.bind_some, fill?_of_supplied fun slot => (same slot).mp, insert, found]
  rfl

theorem isBlank_join {texts : List String} {text : String} (member : text ∈ texts) (shown : Text.isBlank text = false) :
    Text.isBlank (String.join texts) = false := by
  unfold Text.isBlank at shown ⊢
  rw [String.toList_join, List.all_flatMap, List.all_eq_false]
  exact ⟨text, member, by simp [shown]⟩

theorem isBlank_insert {name : String} {given : List String} (taken : takes name given = true) (values : Values) :
    Text.isBlank (insert name values) = false := by
  obtain ⟨template, found, _⟩ := takes_iff.mp taken
  obtain ⟨_, _, listed, _⟩ := List.lookup_eq_some_iff.mp found
  have shown := List.all_eq_true.mp catalogue_shows (name, template) (by simp [listed])
  obtain ⟨piece, member, shown⟩ := List.any_eq_true.mp shown
  rw [insert, found]
  cases piece with
  | text text => exact isBlank_join (List.mem_map.mpr ⟨_, member, rfl⟩) (by simpa [shows, pieceText] using shown)
  | slot slot => cases shown

end Template

namespace Layout

theorem text_infix_joined {separator : String} {parts : List Layout} {part : Layout} (member : part ∈ parts) :
    part.text.toList <:+: (joined separator parts).text.toList := by
  rw [text, String.toList_intercalate, texts_eq_map, List.map_map]
  induction parts with
  | nil => cases member
  | cons first more ih =>
      cases more with
      | nil =>
          rw [List.mem_singleton.mp member, List.map_cons, List.map_nil, List.intercalate_singleton]
          exact List.infix_rfl
      | cons second others =>
          rw [List.map_cons, List.map_cons, List.intercalate_cons_cons]
          rcases List.mem_cons.mp member with rfl | member
          · rw [List.append_assoc]
            exact (List.prefix_append _ _).isInfix
          · exact (ih member).trans (List.suffix_append _ _).isInfix

theorem lookup_values {slots : List (String × Layout)} {slot : String} {part : Layout}
    (distinct : (slots.map Prod.fst).Nodup) (member : (slot, part) ∈ slots) :
    (values slots).lookup slot = some part.text := by
  rw [← values_map_fst] at distinct
  rw [OrderedMap.lookup_eq_some_iff_mem distinct, values_eq_map]
  exact List.mem_map.mpr ⟨_, member, rfl⟩

/-- What is put into a slot stands in the text as it is. -/
theorem text_infix_filled {template : String} {slots : List (String × Layout)} {slot : String} {part : Layout}
    (taken : Template.takes template (slots.map Prod.fst) = true) (member : (slot, part) ∈ slots) :
    part.text.toList <:+: (filled template slots).text.toList := by
  obtain ⟨pieces, found, distinct, same⟩ := Template.takes_iff.mp taken
  have piece : Piece.slot slot ∈ pieces := (same slot).mpr (List.mem_map_of_mem member)
  rw [text, Template.insert, found, String.toList_join, List.flatMap_def, List.map_map]
  refine List.infix_of_mem_flatten (List.mem_map.mpr ⟨_, piece, ?_⟩)
  simp [Template.pieceText, lookup_values distinct member]

/-- Every template that a layout uses stands in its text. -/
theorem text_infix_of_mem_nodes {layout node : Layout} (supplied : layout.Supplied) (member : node ∈ layout.nodes) :
    node.text.toList <:+: layout.text.toList := by
  induction layout with
  | plain text => cases member
  | filled template slots ih =>
      rw [nodes_filled] at member
      rcases List.mem_cons.mp member with rfl | member
      · exact List.infix_rfl
      · obtain ⟨⟨slot, part⟩, listed, member⟩ := List.mem_flatMap.mp member
        have inner : part.Supplied := fun other inside =>
          supplied other (by rw [nodes_filled]; exact List.mem_cons_of_mem _ (List.mem_flatMap.mpr ⟨_, listed, inside⟩))
        exact (ih _ listed inner member).trans (text_infix_filled (takes_of_supplied supplied) listed)
  | joined separator parts ih =>
      rw [nodes_joined] at member
      obtain ⟨part, listed, member⟩ := List.mem_flatMap.mp member
      have inner := (supplied_joined separator parts).mp supplied part listed
      exact (ih part listed inner member).trans (text_infix_joined listed)

end Layout

namespace SiteContext

open Template

/-- Work that gives the text of a layout in which nothing is missing. -/
structure Lays (layout : Layout) (work : Rendered) : Prop where
  done : work = .ok layout.text
  supplied : layout.Supplied

structure LaysAll (parts : List Layout) (work : Except Failure (List String)) : Prop where
  done : work = .ok (Layout.texts parts)
  supplied : Layout.AllSupplied parts

theorem Lays.andThen {α : Type} {Holds : Except Failure α → Prop} {layout : Layout} {work : Rendered}
    {next : String → Except Failure α} (lays : Lays layout work) (continued : Holds (next layout.text)) :
    Holds (work >>= next) := by
  rw [lays.done]
  exact continued

theorem LaysAll.andThen {α : Type} {Holds : Except Failure α → Prop} {parts : List Layout}
    {work : Except Failure (List String)} {next : List String → Except Failure α} (lays : LaysAll parts work)
    (continued : Holds (next (Layout.texts parts))) : Holds (work >>= next) := by
  rw [lays.done]
  exact continued

theorem mapM_lays {α : Type} {layout : α → Layout} {step : α → Rendered} (each : ∀ item, Lays (layout item) (step item))
    (items : List α) : LaysAll (items.map layout) (items.mapM step) := by
  induction items with
  | nil => exact ⟨rfl, by simp⟩
  | cons item rest ih =>
      refine ⟨?_, ?_⟩
      · rw [List.mapM_cons, (each item).done, ih.done]
        rfl
      · simp [(each item).supplied, ih.supplied]

theorem render_lays {name : String} {slots : List (String × Layout)} (taken : takes name (slots.map Prod.fst) = true)
    (inner : Layout.AllSupplied (slots.map Prod.snd)) : Lays (.filled name slots) (render name (Layout.values slots)) := by
  refine ⟨render_of_takes ?_, Layout.supplied_filled taken inner⟩
  rwa [Layout.values_map_fst]

theorem render_lays_of_values {name : String} {slots : List (String × Layout)} {values : Values}
    (same : values = Layout.values slots) (taken : takes name (slots.map Prod.fst) = true)
    (inner : Layout.AllSupplied (slots.map Prod.snd)) : Lays (.filled name slots) (render name values) :=
  same ▸ render_lays taken inner

theorem unlessEmpty_lays {α : Type} (items : List α) {layout : Layout} {part : Rendered} (lays : Lays layout part) :
    LaysAll (Layout.unlessEmpty items layout) (unlessEmpty items part) := by
  unfold unlessEmpty Layout.unlessEmpty
  split
  · exact ⟨rfl, by simp⟩
  · exact ⟨by rw [lays.done]; rfl, by simpa using lays.supplied⟩

theorem LaysAll.joined {parts : List Layout} {work : Except Failure (List String)} (lays : LaysAll parts work)
    (separator : String) : Lays (.joined separator parts) (work >>= fun texts => .ok (separator.intercalate texts)) :=
  lays.andThen ⟨rfl, (Layout.supplied_joined separator parts).mpr lays.supplied⟩

theorem rowOfTwo_lays (first second : String) : Lays (Layout.rowOfTwo first second) (SiteContext.rowOfTwo first second) :=
  render_lays rfl (by simp)

theorem rowOfThree_lays (first second third : String) :
    Lays (Layout.rowOfThree first second third) (SiteContext.rowOfThree first second third) :=
  render_lays rfl (by simp)

theorem renderIndexLine_lays (name : String) : Lays (Layout.indexLine name) (renderIndexLine name) :=
  render_lays rfl (by simp)

theorem renderValueLine_lays (line : ValueLine) : Lays (Layout.valueLine line) (renderValueLine line) :=
  render_lays rfl (by simp)

theorem renderValueRow_lays (line : ValueLine) : Lays (Layout.valueRow line) (renderValueRow line) :=
  rowOfTwo_lays _ _

theorem renderRecordLine_lays (line : RecordLine) : Lays (Layout.recordLine line) (renderRecordLine line) :=
  render_lays rfl (by simp)

theorem renderRecordRow_lays (line : RecordLine) : Lays (Layout.recordRow line) (renderRecordRow line) :=
  rowOfTwo_lays _ _

theorem renderPropertyRow_lays (row : PropertyRow) : Lays (Layout.propertyRow row) (renderPropertyRow row) :=
  rowOfThree_lays _ _ _

theorem renderFunctionLine_lays (line : FunctionLine) : Lays (Layout.functionLine line) (renderFunctionLine line) :=
  render_lays rfl (by simp)

theorem renderClassMemberLine_lays (line : ClassMemberLine) :
    Lays (Layout.classMemberLine line) (renderClassMemberLine line) :=
  render_lays rfl (by simp)

theorem renderHomeEntry_lays (entry : HomeEntry) : Lays (Layout.homeEntry entry) (renderHomeEntry entry) :=
  render_lays rfl (by simp)

theorem renderClassLines_lays (lines : ClassLines) : Lays (Layout.classLines lines) (renderClassLines lines) := by
  cases lines with
  | constants constants => exact (mapM_lays renderValueLine_lays constants).joined "\n"
  | record fields => exact (mapM_lays renderRecordLine_lays fields).joined "\n"
  | members members => exact (mapM_lays renderClassMemberLine_lays members).joined "\n"

theorem renderClassEntry_lays (entry : ClassEntry) : Lays (Layout.classEntry entry) (renderClassEntry entry) := by
  have lines := renderClassLines_lays entry.lines
  exact lines.andThen (render_lays rfl (by simp [lines.supplied]))

theorem renderParameters_lays (table : DescribedTable) : Lays (Layout.parameters table) (renderParameters table) := by
  have rows : LaysAll (table.entries.map Layout.parameterRow) _ := mapM_lays (fun _ => rowOfTwo_lays _ _) _
  have filled : Lays (.filled "func_params_table" [("contents", .lines (table.entries.map Layout.parameterRow))]) _ :=
    render_lays rfl (by simp [rows.supplied])
  refine rows.andThen (filled.andThen ⟨?_, ?_⟩)
  · simp only [Layout.parameters, Layout.paragraphs, Layout.text, Layout.texts_append, Layout.texts_map_plain]
    rfl
  · simp [Layout.parameters, filled.supplied]

theorem renderExceptions_lays (table : DescribedTable) : Lays (Layout.exceptions table) (renderExceptions table) := by
  have rows : LaysAll (table.entries.map Layout.exceptionRow) _ := mapM_lays (fun _ => rowOfTwo_lays _ _) _
  have filled : Lays (.filled "func_exceptions_table" [("contents", .lines (table.entries.map Layout.exceptionRow))]) _ :=
    render_lays rfl (by simp [rows.supplied])
  exact rows.andThen (filled.andThen (render_lays rfl (by simp [filled.supplied])))

variable (context : SiteContext)

theorem renderBackToTop_lays : Lays (Layout.backToTop context) context.renderBackToTop :=
  render_lays rfl (by simp)

theorem renderHeader_lays (header : Header) : Lays (Layout.header context header) (context.renderHeader header) := by
  unfold renderHeader Layout.header
  cases header.overviewAddress with
  | none => exact render_lays rfl (by simp)
  | some address => exact render_lays rfl (by simp)

theorem renderFunctionDoc_lays (doc : FunctionDoc) :
    Lays (Layout.functionDoc context doc) (context.renderFunctionDoc doc) := by
  have parameters := mapM_lays renderParameters_lays doc.parameters.toList
  have returns : LaysAll (doc.returns.toList.map Layout.returns) _ := mapM_lays (fun _ => render_lays rfl (by simp)) _
  have yields : LaysAll (doc.yields.toList.map Layout.yields) _ := mapM_lays (fun _ => render_lays rfl (by simp)) _
  have exceptions := mapM_lays renderExceptions_lays doc.exceptions.toList
  have top := renderBackToTop_lays context
  refine parameters.andThen (returns.andThen (yields.andThen (exceptions.andThen (top.andThen ?_))))
  refine render_lays_of_values ?_ rfl ?_
  · simp only [Layout.values, Layout.text, Layout.texts_append]
    rfl
  · simp [parameters.supplied, returns.supplied, yields.supplied, exceptions.supplied, top.supplied]

/-- All titled tables have the same two slots. -/
theorem renderTable_lays {template : String} {rows : List Layout} (taken : takes template ["contents", "back_to_top"] = true)
    (supplied : Layout.AllSupplied rows) :
    LaysAll (Layout.table context template rows) (context.renderTable template (Layout.texts rows)) := by
  have top := renderBackToTop_lays context
  have filled : Lays (.filled template [("contents", .lines rows), ("back_to_top", Layout.backToTop context)])
      (render template [("contents", joinLines (Layout.texts rows)), ("back_to_top", (Layout.backToTop context).text)]) :=
    render_lays taken (by simp [supplied, top.supplied])
  have same : (Layout.texts rows).isEmpty = rows.isEmpty := by cases rows <;> rfl
  have laid := unlessEmpty_lays rows filled
  refine top.andThen ?_
  unfold unlessEmpty at laid ⊢
  rwa [same]

theorem renderClassFields_lays (fields : ClassFields) :
    LaysAll (Layout.classFields context fields) (context.renderClassFields fields) := by
  cases fields with
  | values lines =>
      have rows := mapM_lays renderValueRow_lays lines
      exact rows.andThen (context.renderTable_lays rfl rows.supplied)
  | constants lines =>
      have rows := mapM_lays renderValueRow_lays lines
      exact rows.andThen (context.renderTable_lays rfl rows.supplied)
  | record lines =>
      have rows := mapM_lays renderRecordRow_lays lines
      exact rows.andThen (context.renderTable_lays rfl rows.supplied)

theorem renderMethods_lays (methods : List FunctionDoc) :
    LaysAll (Layout.methods context methods) (context.renderMethods methods) := by
  have docs := mapM_lays context.renderFunctionDoc_lays methods
  have index := mapM_lays (fun method : FunctionDoc => renderIndexLine_lays method.name) methods
  exact docs.andThen (index.andThen (unlessEmpty_lays methods (render_lays rfl (by simp [index.supplied, docs.supplied]))))

theorem renderHome_lays (entries : List HomeEntry) : Lays (Layout.home context entries) (context.renderHome entries) := by
  have lines := mapM_lays renderHomeEntry_lays entries
  have top := renderBackToTop_lays context
  exact lines.andThen (top.andThen (render_lays rfl (by simp [lines.supplied, top.supplied])))

theorem renderOverview_lays (page : Overview) : Lays (Layout.overview context page) (context.renderOverview page) := by
  have top := renderBackToTop_lays context
  have fieldLines := mapM_lays renderValueLine_lays page.fields
  have fields : LaysAll (Layout.fieldsSection context page) _ := unlessEmpty_lays page.fields
    (render_lays rfl (by simp [fieldLines.supplied, top.supplied]))
  have functionLines := mapM_lays renderFunctionLine_lays page.functions
  have functions : LaysAll (Layout.functionsSection context page) _ := unlessEmpty_lays page.functions
    (render_lays rfl (by simp [functionLines.supplied, top.supplied]))
  have entries := mapM_lays renderClassEntry_lays page.classes
  have classes : LaysAll (Layout.classesSection context page) _ := unlessEmpty_lays page.classes
    (render_lays rfl (by simp [entries.supplied, top.supplied]))
  have header := context.renderHeader_lays page.header
  refine top.andThen (fieldLines.andThen (fields.andThen (functionLines.andThen (functions.andThen ?_))))
  refine entries.andThen (classes.andThen (header.andThen (render_lays_of_values ?_ rfl ?_)))
  · simp only [Layout.values, Layout.text, Layout.texts_append]
    rfl
  · simp [header.supplied, fields.supplied, functions.supplied, classes.supplied]

theorem renderFields_lays (page : FieldsPage) : Lays (Layout.fields context page) (context.renderFields page) := by
  have header := context.renderHeader_lays page.header
  have rows := mapM_lays renderValueRow_lays page.fields
  have top := renderBackToTop_lays context
  refine header.andThen (rows.andThen (top.andThen (render_lays rfl ?_)))
  simp [header.supplied, rows.supplied, top.supplied]

theorem renderFunctions_lays (page : FunctionsPage) : Lays (Layout.functions context page) (context.renderFunctions page) := by
  have header := context.renderHeader_lays page.header
  have index := mapM_lays (fun doc : FunctionDoc => renderIndexLine_lays doc.name) page.functions
  have docs := mapM_lays context.renderFunctionDoc_lays page.functions
  refine header.andThen (index.andThen (docs.andThen (render_lays rfl ?_)))
  simp [header.supplied, index.supplied, docs.supplied]

theorem renderClass_lays (page : ClassPage) : Lays (Layout.classPage context page) (context.renderClass page) := by
  have fields := context.renderClassFields_lays page.fields
  have rows := mapM_lays renderPropertyRow_lays page.properties
  have properties := @renderTable_lays context "properties_exposed_in_class" _ rfl rows.supplied
  have methods := context.renderMethods_lays page.methods
  have header := context.renderHeader_lays page.header
  refine fields.andThen (rows.andThen (properties.andThen (methods.andThen (header.andThen ?_))))
  refine render_lays_of_values ?_ rfl ?_
  · simp only [Layout.values, Layout.text, Layout.texts_append]
    rfl
  · simp [header.supplied, fields.supplied, properties.supplied, methods.supplied]

theorem renderContent_lays (content : PageContent) :
    Lays (Layout.ofContent context content) (context.renderContent content) := by
  cases content with
  | home entries => exact context.renderHome_lays entries
  | overview page => exact context.renderOverview_lays page
  | fields page => exact context.renderFields_lays page
  | functions page => exact context.renderFunctions_lays page
  | classPage page => exact context.renderClass_lays page

theorem renderDraft_eq (draft : Draft) : context.renderDraft draft = .ok (context.sheet draft).page := by
  rw [renderDraft, (context.renderContent_lays draft.content).done]
  rfl

theorem sheet_supplied (draft : Draft) : (context.sheet draft).layout.Supplied :=
  (context.renderContent_lays draft.content).supplied

theorem isBlank_sheet (draft : Draft) : (context.sheet draft).page.isBlank = false := by
  have page : ∃ template slots, (context.sheet draft).layout = .filled template slots := by
    unfold sheet
    cases draft.content <;> exact ⟨_, _, rfl⟩
  obtain ⟨template, slots, laid⟩ := page
  have supplied := context.sheet_supplied draft
  rw [laid] at supplied
  rw [Page.isBlank, Sheet.page, laid]
  exact Template.isBlank_insert (Layout.takes_of_supplied supplied) _

/-- The pages are those that the drafts are laid out as. -/
theorem pages_eq (models : List ModuleModel) : context.pages models = .ok ((context.sheets models).map Sheet.page) := by
  unfold pages sheets
  induction context.drafts models with
  | nil => rfl
  | cons draft rest ih =>
      rw [List.mapM_cons, renderDraft_eq, ih]
      rfl

end SiteContext

end ApiReference
