import ApiReference.Proofs.Model.Inspection
import ApiReference.Proofs.Path.Parts
import ApiReference.Proofs.SearchPath
import ApiReference.Proofs.Site.Pages

namespace ApiReference

/-! Every page of a site has a place of its own, and none is where another one needs a directory. -/

theorem Component.map_name_injective : Function.Injective (List.map Component.name) :=
  List.map_injective_iff.mpr fun _ _ => Component.name.inj

namespace Page

variable {page other : Page}

theorem Proper.isPart (proper : page.Proper) : Path.IsPart page.basename := by
  have named := proper.named
  simp only [List.mem_cons, not_or] at named
  exact ⟨proper.basename, by simp [Path.isIdle, named.1, named.2.1]⟩

theorem FullyNamed.isPart (full : page.FullyNamed) (slashFree : page.SlashFree) {name part : String}
    (present : page.moduleName = some name) (member : part ∈ Text.splitOn '.' name) : Path.IsPart part := by
  have undotted := Chars.not_mem_of_mem_splitOn (Text.toList_mem_splitOn.mp member)
  have nonempty : part ≠ "" := fun empty => full name present (empty ▸ member)
  have noDot : part ≠ "." := fun dot => absurd undotted (by rw [dot]; decide)
  exact ⟨slashFree_of_mem_splitOn (slashFree.moduleName name present) member, by simp [Path.isIdle, nonempty, noDot]⟩

theorem location_components (proper : page.Proper) (full : page.FullyNamed) :
    page.location.components = page.location.names.map Component.name := by
  have start : page.directory.components = page.directory.names.map Path.pieceComponent := by
    cases present : page.moduleName with
    | none => rw [directory, present]; decide
    | some name =>
        have areParts : ∀ part ∈ Text.splitOn '.' name, Path.IsPart part := fun part =>
          full.isPart proper.toSlashFree present
        rw [directory_names_of_fullyNamed proper.toSlashFree full present, directory, present]
        exact Path.components_pushAll _ areParts
  rw [location_eq, Path.components_push _ proper.isPart, start, Path.names_push _ proper.isPart.relative,
    proper.isPart.names, ← Path.map_pieceComponent, List.map_append]
  · rfl
  · rw [← proper.isPart.names, ← Path.names_push _ proper.isPart.relative]
    exact location_plain proper

theorem same_location_iff (proper : page.Proper) (full : page.FullyNamed) (otherProper : other.Proper)
    (otherFull : other.FullyNamed) :
    page.location.same other.location = true ↔ page.location.names = other.location.names := by
  rw [Path.same_iff, location_components proper full, location_components otherProper otherFull]
  exact Component.map_name_injective.eq_iff

theorem Regular.same_location_of_above (regular : page.Regular) (full : page.FullyNamed) (otherRegular : other.Regular)
    (otherFull : other.FullyNamed) (above : Path.startsWith page.location other.location = true) :
    page.location.same other.location = true := by
  rw [Path.startsWith_iff, location_components regular.toProper full,
    location_components otherRegular.toProper otherFull, List.prefix_map_iff] at above
  obtain ⟨upper, inside, named⟩ := above
  rw [← Component.map_name_injective named] at inside
  rw [same_location_iff regular.toProper full otherRegular.toProper otherFull]
  exact regular.location_eq_of_above otherRegular inside

theorem Regular.location_eq_home_iff (regular : page.Regular) :
    page.location = ⟨homeName⟩ ↔ page.moduleName = none := by
  constructor
  · intro home
    by_contra ofModule
    obtain ⟨name, present⟩ := Option.ne_none_iff_exists'.mp ofModule
    have names := location_names_of_proper regular.toProper
    rw [home, directory_names_of_module regular.toSlashFree present, List.cons_append] at names
    have apart : (Path.mk homeName).names.head? ≠ some modulesDir := by decide
    exact apart (by rw [names]; rfl)
  · intro none
    rw [location_eq, directory, none, regular.home none]
    decide

/-- Whatever is not the home page is stored among the modules. -/
theorem Regular.outside_modules_iff (regular : page.Regular) (full : page.FullyNamed) :
    Path.startsWith ⟨modulesDir⟩ page.location = false ↔ page.location = ⟨homeName⟩ := by
  constructor
  · intro outside
    rw [regular.location_eq_home_iff]
    by_contra ofModule
    obtain ⟨name, present⟩ := Option.ne_none_iff_exists'.mp ofModule
    have inside : Path.startsWith ⟨modulesDir⟩ page.location = true := by
      have here : (Path.mk modulesDir).components = [.name modulesDir] := by decide
      rw [Path.startsWith_iff, here, location_components regular.toProper full, location_names_of_proper regular.toProper,
        directory_names_of_module regular.toSlashFree present]
      exact List.prefix_append _ _
    rw [inside] at outside
    cases outside
  · intro home
    rw [home]
    decide

end Page

namespace SiteContext

variable {context : SiteContext} {models : List ModuleModel} {pages : List Page}

/-- The pages of the modules come first, and the home page after them if there are any. -/
theorem pages_cases (rendered : context.pages models = .ok pages) :
    documented models = [] ∧ pages = [] ∨
      ∃ inner home, pages = inner ++ [home] ∧ documented models ≠ [] ∧
        home.moduleName = none ∧ home.basename = Page.homeName ∧ ∀ page ∈ inner, page.moduleName ≠ none := by
  rw [pages_eq_ok rendered, sheets, drafts, List.map_append, List.map_append]
  by_cases nothing : documented models = []
  · left
    simp [nothing]
  · right
    have shown : (documented models).isEmpty = false := by simpa using nothing
    simp only [shown, Bool.false_eq_true, if_false, List.map_cons, List.map_nil]
    refine ⟨_, _, rfl, nothing, rfl, rfl, ?_⟩
    intro page member
    obtain ⟨sheet, laid, rfl⟩ := List.mem_map.mp member
    obtain ⟨draft, drafted, rfl⟩ := List.mem_map.mp laid
    obtain ⟨model, _, drafted⟩ := List.mem_flatMap.mp drafted
    have present : (context.sheet draft).page.moduleName = some model.name := context.moduleDrafts_moduleName drafted
    simp [present]

theorem exists_home_iff (rendered : context.pages models = .ok pages) :
    (∃ page ∈ pages, page.moduleName = none) ↔ ∃ model ∈ models, model.members ≠ [] := by
  have shown : documented models ≠ [] ↔ ∃ model ∈ models, model.members ≠ [] := by
    simp [documented, ModuleModel.isEmpty]
  rw [← shown]
  rcases pages_cases rendered with ⟨nothing, rfl⟩ | ⟨inner, home, rfl, some, none, _⟩
  · simp [nothing]
  · exact ⟨fun _ => some, fun _ => ⟨home, by simp, none⟩⟩

/-- The home page is the last one, and no other page is the last one. -/
theorem home_iff_last (rendered : context.pages models = .ok pages) {front back : List Page} {page : Page}
    (split : pages = front ++ page :: back) : page.moduleName = none ↔ back = [] := by
  rcases pages_cases rendered with ⟨_, rfl⟩ | ⟨inner, home, rfl, _, none, _, ofModules⟩
  · simp at split
  · constructor
    · intro isHome
      by_contra more
      obtain ⟨next, rest, rfl⟩ := List.exists_cons_of_ne_nil more
      have early := congrArg List.dropLast split
      rw [List.dropLast_concat, List.dropLast_append_of_ne_nil (by simp), List.dropLast_cons_cons] at early
      exact ofModules page (by simp [early]) isHome
    · rintro rfl
      have last := (List.append_inj' split rfl).2
      rw [← List.singleton_inj.mp last]
      exact none

theorem classes_nodup_of_locations (rendered : context.pages models = .ok pages)
    (distinct : (pages.map (·.location.names)).Nodup) {model : ModuleModel} (listed : model ∈ models) :
    (model.classes.map (·.name)).Nodup := by
  by_cases nothing : model.members = []
  · simp [ModuleModel.classes, nothing]
  have shown : model ∈ documented models := by
    simpa [documented, ModuleModel.isEmpty, listed] using nothing
  -- pages of one module and one name are at one place
  have names : ((context.drafts models).map fun draft => (draft.moduleName, draft.basename)).Nodup := by
    rw [← pages_names rendered]
    refine List.pairwise_map.mpr ((List.pairwise_map.mp distinct).imp ?_)
    intro page other differ same
    have sameModule := (Prod.mk.inj same).1
    have sameName := (Prod.mk.inj same).2
    exact differ (by rw [Page.location, Page.location, sameModule, sameName])
  have ofModule := ((List.pairwise_flatMap.mp (List.pairwise_append.mp (List.pairwise_map.mp names)).1).1 model shown)
  have basenames : ((context.moduleDrafts model).map (·.basename)).Nodup := by
    refine List.pairwise_map.mpr (ofModule.imp_of_mem ?_)
    intro one other drafted otherDrafted differ same
    apply differ
    rw [context.moduleDrafts_moduleName drafted, context.moduleDrafts_moduleName otherDrafted, same]
  rw [moduleDrafts_basenames] at basenames
  have classes : ((model.classes.map (·.name)).map Page.className).Nodup := by
    rw [List.map_map]
    exact (List.nodup_append.mp basenames).2.1
  exact classes.of_map _

/-- Pages of well-named modules are stored at different places, if no module has two classes of one name,
as it never has when it is described from a symbol table. No page is stored above another one. The
home page is the only one outside the directory of the modules; it comes last, and it is there when
some module has a member. -/
theorem locations_apart (wellNamed : WellNamed models) (context : SiteContext) :
    ∃ pages, context.pages models = .ok pages ∧
      (pages.Pairwise (fun page other => page.location.same other.location = false) ↔
        ∀ model ∈ models, (model.classes.map (·.name)).Nodup) ∧
      (∀ (table : SymbolTable) (records : List ModuleRecord), models = (table.describe records).1 →
        pages.Pairwise fun page other => page.location.same other.location = false) ∧
      (∀ page ∈ pages, ∀ other ∈ pages, Path.startsWith page.location other.location = true →
        page.location.same other.location = true) ∧
      (∀ page ∈ pages, Path.startsWith ⟨Page.modulesDir⟩ page.location = false ↔ page.location = ⟨Page.homeName⟩) ∧
      (∀ front page back, pages = front ++ page :: back → (page.location = ⟨Page.homeName⟩ ↔ back = [])) ∧
      ((∃ page ∈ pages, page.location = ⟨Page.homeName⟩) ↔ ∃ model ∈ models, model.members ≠ []) := by
  obtain ⟨pages, rendered⟩ := context.exists_pages models
  have regular : ∀ page ∈ pages, page.Regular := fun page => regular_of_mem_pages wellNamed.slashFree rendered
  have full : ∀ page ∈ pages, page.FullyNamed := fun page => fullyNamed_of_mem_pages wellNamed rendered
  have same : ∀ page ∈ pages, ∀ other ∈ pages,
      (page.location.same other.location = true ↔ page.location.names = other.location.names) :=
    fun page member other otherMember => Page.same_location_iff (regular page member).toProper (full page member)
      (regular other otherMember).toProper (full other otherMember)
  have distinct : pages.Pairwise (fun page other => page.location.same other.location = false) ↔
      ∀ model ∈ models, (model.classes.map (·.name)).Nodup := by
    have names : pages.Pairwise (fun page other => page.location.same other.location = false) ↔
        (pages.map (·.location.names)).Nodup := by
      rw [List.Nodup, List.pairwise_map]
      refine List.Pairwise.iff_of_mem ?_
      intro page other member otherMember
      rw [← Bool.not_eq_true, same page member other otherMember]
    rw [names]
    exact ⟨fun apart _ => classes_nodup_of_locations rendered apart, locations_nodup wellNamed rendered⟩
  refine ⟨pages, rendered, distinct, ?_, ?_, ?_, ?_, ?_⟩
  · intro table records described
    refine distinct.mpr fun model listed => ?_
    rw [described, SymbolTable.describe_eq] at listed
    obtain ⟨record, _, rfl⟩ := List.mem_map.mp listed
    exact (Inspection.moduleOf_names_nodup table record).sublist (List.filter_sublist.map _)
  · intro page member other otherMember above
    exact (regular page member).same_location_of_above (full page member) (regular other otherMember)
      (full other otherMember) above
  · exact fun page member => (regular page member).outside_modules_iff (full page member)
  · intro front page back split
    have member : page ∈ pages := by simp [split]
    rw [(regular page member).location_eq_home_iff]
    exact home_iff_last rendered split
  · rw [← exists_home_iff rendered]
    exact exists_congr fun page => and_congr_right fun member => (regular page member).location_eq_home_iff

/-- A package whose modules and classes have names that lead close to each other: the directory of the second
module stands beside a class page of the first one, and the third module is named like a page. -/
def crowdedPackage : List ModuleModel :=
  [⟨"engine", none,
      [⟨"parts", .ofClass "engine" "engine.parts", none, none, .classType {}⟩,
       ⟨"README", .ofClass "engine" "engine.README", none, none, .classType {}⟩,
       ⟨"speed", .ofData "engine" "3", none, none, .field⟩]⟩,
   ⟨"engine.class-parts", none, [⟨"run", .ofFunction "engine.class-parts" "()", none, none, .function⟩]⟩,
   ⟨"engine.README", none, [⟨"parts", .ofClass "engine.README" "engine.parts", none, none, .classType {}⟩]⟩,
   ⟨"engine.idle", none, []⟩]

theorem crowdedPackage_apart :
    let context : SiteContext := ⟨"Engine", "/README.md", "src/engine", "docs/api"⟩
    WellNamed crowdedPackage ∧ ∃ pages, context.pages crowdedPackage = .ok pages ∧
      pages.Pairwise (fun page other => page.location.same other.location = false) ∧
      ∃ page ∈ pages, page.location = ⟨"README.md"⟩ := by
  have wellNamed : WellNamed crowdedPackage := ⟨by decide +kernel, by decide +kernel, by decide +kernel⟩
  obtain ⟨pages, rendered, distinct, _, _, _, _, home⟩ :=
    locations_apart wellNamed ⟨"Engine", "/README.md", "src/engine", "docs/api"⟩
  exact ⟨wellNamed, pages, rendered, distinct.mpr (by decide +kernel), home.mpr (by decide +kernel)⟩

end SiteContext

end ApiReference
