import ApiReference.Proofs.Model.Selection
import ApiReference.Proofs.Site.Navigation

namespace ApiReference

/-! Where the links of an inheritance line lead. A base of the package is linked by its name alone, so the
link leads to a page only if the module of the base documents a class of that name. -/

/-- Whether a module of the given name documents a class under the given name. -/
def SymbolTable.DocumentsClass (table : SymbolTable) (moduleName name : String) : Prop :=
  ∃ record ∈ table.modules, record.name = moduleName ∧
    ∃ attr, record.Shows name attr ∧ attr.kind = .classType

namespace SiteContext

theorem mem_classesOf_moduleOf {table : SymbolTable} {record : ModuleRecord} {name : String} :
    (∃ entry ∈ classesOf (Inspection.moduleOf table record), entry.1.name = name) ↔
      ∃ attr, record.Shows name attr ∧ attr.kind = .classType := by
  simp only [← ModuleRecord.mem_documented_iff_shows]
  constructor
  · rintro ⟨entry, ofClass, rfl⟩
    obtain ⟨listed, found⟩ := mem_classesOf.mp ofClass
    obtain ⟨⟨name, attr⟩, shown, same⟩ := List.mem_map.mp listed
    rw [← same, Inspection.memberOf_name]
    rw [← same] at found
    refine ⟨attr, shown, ?_⟩
    cases kind : attr.kind <;> simp [Inspection.memberOf, kind, Member.classModel?] at found ⊢
  · rintro ⟨attr, shown, isClass⟩
    let member := Inspection.memberOf table record (name, attr)
    have listed : member ∈ (Inspection.moduleOf table record).members := List.mem_map_of_mem shown
    obtain ⟨known, found⟩ : ∃ known, member.classModel? = some known := by
      simp [member, Inspection.memberOf, isClass, Member.classModel?]
    exact ⟨(member, known), mem_classesOf.mpr ⟨listed, found⟩, Inspection.memberOf_name table record (name, attr)⟩

theorem documentsClass_iff {table : SymbolTable} {moduleName name : String} :
    table.DocumentsClass moduleName name ↔
      ∃ model ∈ (table.describe table.modules).1, model.name = moduleName ∧
        ∃ entry ∈ classesOf model, entry.1.name = name := by
  rw [SymbolTable.describe_eq]
  simp only [List.mem_map, exists_exists_and_eq_and, mem_classesOf_moduleOf]
  rfl

variable {context : SiteContext} {models : List ModuleModel}

theorem classSheet_mem {model : ModuleModel} (listed : model ∈ models) {entry : Member × ClassModel}
    (ofClass : entry ∈ classesOf model) : context.classSheet model entry ∈ context.sheets models := by
  have shown : model ∈ documented models := by
    have some := List.ne_nil_of_mem (mem_classesOf.mp ofClass).1
    simpa [documented, ModuleModel.isEmpty, listed] using some
  rw [sheets_eq]
  refine List.mem_append_left _ (List.mem_flatMap.mpr ⟨model, shown, ?_⟩)
  rw [moduleSheets_eq]
  exact List.mem_cons_of_mem _ (List.mem_append_right _ (List.mem_map_of_mem ofClass))

/-- The pages with names of class pages are those of the classes. -/
theorem mem_sheets_ofClass_iff {sheet : Sheet} :
    sheet ∈ context.sheets models ∧ sheet.isOfClass = true ↔
      ∃ model ∈ models, ∃ entry ∈ classesOf model, sheet = context.classSheet model entry := by
  constructor
  · rintro ⟨member, ofClass⟩
    have notHome : sheet.basename ≠ Page.homeName := by
      intro home
      rw [Sheet.isOfClass, home] at ofClass
      exact absurd ofClass (by decide)
    rw [sheets_eq] at member
    rcases List.mem_append.mp member with ofModules | home
    · obtain ⟨model, shown, ofModule⟩ := List.mem_flatMap.mp ofModules
      rw [moduleSheets_eq] at ofModule
      rcases List.mem_cons.mp ofModule with rfl | other
      · exact absurd rfl notHome
      · have isClass : sheet ∈ context.classSheets model := by
          rw [← filter_classes]
          exact List.mem_filter.mpr ⟨other, ofClass⟩
        obtain ⟨entry, listed, rfl⟩ := List.mem_map.mp isClass
        exact ⟨model, List.mem_of_mem_filter shown, entry, listed, rfl⟩
    · split at home
      · cases home
      · rw [List.mem_singleton.mp home] at notHome
        exact absurd rfl notHome
  · rintro ⟨model, listed, entry, known, rfl⟩
    exact ⟨classSheet_mem listed known, (classSheets_basename (List.mem_map_of_mem known)).2.2⟩

/-- A page at the address of the page of a class is that page, when names have no slash. -/
theorem exists_class_of_address (slashFree : SlashFree models) {moduleName name : String}
    (moduleFree : '/' ∉ moduleName.toList) (nameFree : '/' ∉ name.toList) {sheet : Sheet}
    (member : sheet ∈ context.sheets models)
    (same : context.addressOf sheet = context.address moduleName (Page.className name)) :
    ∃ model ∈ models, model.name = moduleName ∧ ∃ entry ∈ classesOf model, entry.1.name = name := by
  have regular : sheet.page.Regular :=
    regular_of_mem_pages slashFree (context.pages_eq models) (List.mem_map_of_mem member)
  have classFree : '/' ∉ (Page.className name).toList := by simp [Page.className, nameFree]
  unfold addressOf address at same
  cases present : sheet.moduleName with
  | none =>
      rw [present, show sheet.basename = Page.homeName from regular.home present] at same
      exact absurd same Address.home_ne_ofPage
  | some ownName =>
      rw [present] at same
      have basenameFree : '/' ∉ sheet.basename.toList := regular.basename
      obtain ⟨rfl, basename⟩ :=
        Address.ofPage_inj (regular.moduleName ownName present) moduleFree basenameFree classFree same
      have ofClass : sheet.isOfClass = true := by
        rw [Sheet.isOfClass, basename]
        exact List.isPrefixOf_iff_prefix.mpr (by simp [Page.className])
      obtain ⟨model, listed, entry, known, rfl⟩ := mem_sheets_ofClass_iff.mp ⟨member, ofClass⟩
      exact ⟨model, listed, Option.some.inj present, entry, known, className_injective basename⟩

theorem exists_module_of_linked {base : Base} {address : String}
    (linked : (context.baseEntry base).address = some address) :
    ∃ moduleName, base.moduleName? = some moduleName ∧
      address = Address.ofPage context.apiDir (some moduleName) (Page.className base.name) := by
  simp only [baseEntry] at linked
  split at linked
  · obtain ⟨moduleName, ofModule, rfl⟩ := Option.map_eq_some_iff.mp linked
    exact ⟨moduleName, ofModule, rfl⟩
  · cases linked

/-- A base that is linked is linked to the page of the class of its name in its module. There is such a page when
the module documents a class under that name, and if names have no slash only then. -/
theorem base_link_reaches (context : SiteContext) (table : SymbolTable) :
    ∃ pages, context.pages (table.describe table.modules).1 = .ok pages ∧
      pages = (context.sheets (table.describe table.modules).1).map Sheet.page ∧
      (∀ sheet, sheet ∈ context.sheets (table.describe table.modules).1 ∧ sheet.isOfClass = true ↔
        ∃ model ∈ (table.describe table.modules).1, ∃ entry ∈ classesOf model, sheet = context.classSheet model entry) ∧
      ∀ model ∈ (table.describe table.modules).1, ∀ entry ∈ classesOf model,
        (context.classSheet model entry).layout.value "inheritance" =
          renderBases (entry.2.bases.map context.baseEntry) ∧
        ∀ base ∈ entry.2.bases, ∀ address, (context.baseEntry base).address = some address →
          ∃ moduleName, base.moduleName? = some moduleName ∧
            address = Address.ofPage context.apiDir (some moduleName) (Page.className base.name) ∧
            (table.DocumentsClass moduleName base.name → ∃ page ∈ pages,
              page.moduleName = some moduleName ∧ page.basename = Page.className base.name) ∧
            (SlashFree (table.describe table.modules).1 → '/' ∉ moduleName.toList → '/' ∉ base.name.toList →
              (∃ page ∈ pages, Address.ofPage context.apiDir page.moduleName page.basename = address) →
              table.DocumentsClass moduleName base.name) := by
  refine ⟨_, context.pages_eq _, rfl, fun sheet => mem_sheets_ofClass_iff, ?_⟩
  intro model listed entry known
  refine ⟨rfl, ?_⟩
  intro base _ address linked
  obtain ⟨moduleName, ofModule, rfl⟩ := exists_module_of_linked linked
  refine ⟨moduleName, ofModule, rfl, ?_, ?_⟩
  · intro documents
    obtain ⟨target, targetListed, rfl, targetEntry, targetKnown, named⟩ := documentsClass_iff.mp documents
    rw [← named]
    exact ⟨_, List.mem_map_of_mem (classSheet_mem targetListed targetKnown), rfl, rfl⟩
  · rintro slashFree moduleFree nameFree ⟨page, paged, same⟩
    obtain ⟨target, targetMember, rfl⟩ := List.mem_map.mp paged
    exact documentsClass_iff.mpr (exists_class_of_address slashFree moduleFree nameFree targetMember same)

/-- A module that has a class and its base, of which it exports the given names. -/
def familyTable (exports : Option (List String)) : SymbolTable where
  modules := [{
    name := "pkg.core"
    exports
    attributes := ⟨[("Child", .ofClass "pkg.core" "pkg.core.Child"), ("Base", .ofClass "pkg.core" "pkg.core.Base")],
      by decide⟩ }]
  types := ⟨[
    ("pkg.core.Base", { name := "Base", moduleName := "pkg.core" }),
    ("pkg.core.Child", { name := "Child", moduleName := "pkg.core", bases := ["pkg.core.Base"] })], by decide⟩

theorem family_base_reached :
    let context : SiteContext := ⟨"MyProject", "/README.md", "src/pkg", "docs/api"⟩
    let models := ((familyTable none).describe (familyTable none).modules).1
    ∃ pages, context.pages models = .ok pages ∧
      ∃ model ∈ models, ∃ entry ∈ classesOf model, ∃ base ∈ entry.2.bases,
        (context.baseEntry base).address = some "/docs/api/modules/pkg/core/class-Base.md" ∧
        ∃ page ∈ pages, page.moduleName = some "pkg.core" ∧ page.basename = Page.className base.name := by
  intro context models
  obtain ⟨pages, rendered, _, _, each⟩ := base_link_reaches context (familyTable none)
  have linked : ∃ model ∈ models, ∃ entry ∈ classesOf model, ∃ base ∈ entry.2.bases,
      base.moduleName? = some "pkg.core" ∧ base.name = "Base" ∧
        (context.baseEntry base).address = some "/docs/api/modules/pkg/core/class-Base.md" := by
    decide +kernel
  have documents : (familyTable none).DocumentsClass "pkg.core" "Base" :=
    ⟨_, List.mem_singleton_self _, rfl, .ofClass "pkg.core" "pkg.core.Base",
      ModuleRecord.mem_documented_iff_shows.mp (by decide +kernel), rfl⟩
  obtain ⟨model, listed, entry, known, base, declared, ofModule, named, linked⟩ := linked
  obtain ⟨moduleName, present, _, reached, _⟩ := (each model listed entry known).2 base declared _ linked
  rw [ofModule, Option.some.injEq] at present
  subst present
  exact ⟨pages, rendered, model, listed, entry, known, base, declared, linked, reached (named ▸ documents)⟩

/-- A base that its module does not export has no page, yet the page of the class links to one. -/
theorem unexported_base_dangles :
    let context : SiteContext := ⟨"MyProject", "/README.md", "src/pkg", "docs/api"⟩
    let models := ((familyTable (some ["Child"])).describe (familyTable (some ["Child"])).modules).1
    ∃ pages, context.pages models = .ok pages ∧
      ∃ model ∈ models, ∃ entry ∈ classesOf model, (context.classSheet model entry).page ∈ pages ∧
        ∃ base ∈ entry.2.bases, ∃ address, (context.baseEntry base).address = some address ∧
          ∀ page ∈ pages, Address.ofPage context.apiDir page.moduleName page.basename ≠ address := by
  intro context models
  have linked : ∃ model ∈ models, ∃ entry ∈ classesOf model, ∃ base ∈ entry.2.bases,
      (context.baseEntry base).address = some "/docs/api/modules/pkg/core/class-Base.md" := by
    decide +kernel
  have apart : ∀ draft ∈ context.drafts models,
      Address.ofPage context.apiDir draft.moduleName draft.basename ≠ "/docs/api/modules/pkg/core/class-Base.md" := by
    decide +kernel
  obtain ⟨model, listed, entry, known, base, declared, linked⟩ := linked
  refine ⟨_, context.pages_eq models, model, listed, entry, known, List.mem_map_of_mem (classSheet_mem listed known),
    base, declared, _, linked, ?_⟩
  intro page member
  obtain ⟨draft, drafted, rfl⟩ := exists_draft_of_mem_pages (context.pages_eq models) member
  exact apart draft drafted

end SiteContext

end ApiReference
