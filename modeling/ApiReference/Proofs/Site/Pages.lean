import ApiReference.Proofs.Site.Address
import ApiReference.Proofs.Site.Rendering
import Mathlib.Data.List.Nodup

namespace ApiReference

/-! The pages of a site: which there are, where they are stored, and that none of them stands where
another one needs a directory. -/

namespace Page

/-- A page as sites have them: its name has a dot, and only the home page belongs to no module. -/
structure Regular (page : Page) : Prop extends Proper page where
  dotted : '.' ∈ page.basename.toList
  home : page.moduleName = none → page.basename = homeName

section Places

variable {page other : Page}

/-- A page is the home page or stored among the modules. -/
theorem Regular.place (regular : page.Regular) :
    page.location.names = [homeName] ∨ ∃ rest, page.location.names = modulesDir :: rest ∧ rest ≠ [] := by
  rw [location_names_of_proper regular.toProper]
  cases present : page.moduleName with
  | none =>
      left
      rw [directory_names_of_home present, regular.home present]
      rfl
  | some name =>
      right
      rw [directory_names_of_module regular.toSlashFree present]
      exact ⟨_, rfl, by simp⟩

/-- Pages have a dot in their names and the directories of modules have none, so no page is stored
above another one. -/
theorem Regular.location_eq_of_above (regular : page.Regular) (otherRegular : other.Regular)
    (above : page.location.names <+: other.location.names) : page.location.names = other.location.names := by
  rw [location_names_of_proper regular.toProper, location_names_of_proper otherRegular.toProper] at above ⊢
  rcases List.prefix_concat_iff.mp above with same | above
  · exact same
  · have member : page.basename ∈ other.directory.names := above.subset (by simp)
    exact absurd regular.dotted (directory_undotted otherRegular.toSlashFree member)

/-- The module of a page has no empty part in its name. -/
def FullyNamed (page : Page) : Prop := ∀ name ∈ page.moduleName, "" ∉ Text.splitOn '.' name

theorem directory_names_of_fullyNamed (slashFree : page.SlashFree) (full : page.FullyNamed) {name : String}
    (present : page.moduleName = some name) : page.directory.names = modulesDir :: Text.splitOn '.' name := by
  have active : ∀ part ∈ Text.splitOn '.' name, (!Path.isIdle part) = true := by
    intro part member
    have undotted := Chars.not_mem_of_mem_splitOn (Text.toList_mem_splitOn.mp member)
    have nonempty : part ≠ "" := by
      rintro rfl
      exact full name present member
    have noDot : part ≠ "." := by
      rintro rfl
      exact undotted (by decide)
    simp [Path.isIdle, nonempty, noDot]
  rw [directory_names_of_module slashFree present, List.filter_eq_self.mpr active]

/-- Two pages that are stored at one place are pages of one module and one name. -/
theorem eq_of_location_names_eq (proper : page.Proper) (otherProper : other.Proper) (full : page.FullyNamed)
    (otherFull : other.FullyNamed) (same : page.location.names = other.location.names) :
    page.moduleName = other.moduleName ∧ page.basename = other.basename := by
  rw [location_names_of_proper proper, location_names_of_proper otherProper] at same
  obtain ⟨above, basename⟩ := List.append_inj' same rfl
  refine ⟨?_, List.singleton_inj.mp basename⟩
  cases present : page.moduleName with
  | none =>
      cases otherPresent : other.moduleName with
      | none => rfl
      | some otherName =>
          rw [directory_names_of_home present, directory_names_of_fullyNamed otherProper.toSlashFree otherFull otherPresent] at above
          cases above
  | some name =>
      rw [directory_names_of_fullyNamed proper.toSlashFree full present] at above
      cases otherPresent : other.moduleName with
      | none =>
          rw [directory_names_of_home otherPresent] at above
          cases above
      | some otherName =>
          rw [directory_names_of_fullyNamed otherProper.toSlashFree otherFull otherPresent] at above
          rw [Text.splitOn_injective '.' (List.cons.inj above).2]

end Places

end Page

namespace SiteContext

/-- No slash in the names of modules and classes. -/
structure SlashFree (models : List ModuleModel) : Prop where
  modules : ∀ model ∈ models, '/' ∉ model.name.toList
  classes : ∀ model ∈ models, ∀ member ∈ model.classes, '/' ∉ member.name.toList

/-- Names as modules and classes have them: no two modules share one, and the parts of a module's
name and the names of its classes can be those of directories and files. -/
structure WellNamed (models : List ModuleModel) : Prop where
  distinct : (models.map (·.name)).Nodup
  parts : ∀ model ∈ models, ∀ part ∈ Text.splitOn '.' model.name, part ≠ "" ∧ '/' ∉ part.toList
  classes : ∀ model ∈ models, ∀ member ∈ model.classes, '/' ∉ member.name.toList

theorem WellNamed.slashFree {models : List ModuleModel} (wellNamed : WellNamed models) : SlashFree models := by
  refine ⟨?_, wellNamed.classes⟩
  intro model member slash
  obtain ⟨piece, listed, inside⟩ := Chars.exists_mem_splitOn slash (show '/' ≠ '.' by decide)
  have part : String.ofList piece ∈ Text.splitOn '.' model.name := List.mem_map_of_mem listed
  exact (wellNamed.parts model member _ part).2 (by simpa using inside)

theorem classesOf_map_fst (model : ModuleModel) : (classesOf model).map Prod.fst = model.classes := by
  unfold classesOf ModuleModel.classes
  induction model.members with
  | nil => rfl
  | cons member rest ih =>
      cases known : member.classModel? <;> simp [Member.isClass, known, ih]

theorem mem_classesOf {model : ModuleModel} {entry : Member × ClassModel} :
    entry ∈ classesOf model ↔ entry.1 ∈ model.members ∧ entry.1.classModel? = some entry.2 := by
  obtain ⟨member, known⟩ := entry
  simp only [classesOf, List.mem_filterMap, Option.map_eq_some_iff, Prod.mk.injEq]
  constructor
  · rintro ⟨other, listed, model, found, rfl, rfl⟩
    exact ⟨listed, found⟩
  · rintro ⟨listed, found⟩
    exact ⟨member, listed, known, found, rfl, rfl⟩

theorem className_injective : Function.Injective Page.className := by
  intro first second same
  rw [← String.toList_inj] at same ⊢
  simpa [Page.className] using same

variable (context : SiteContext)

theorem moduleDrafts_moduleName {model : ModuleModel} {draft : Draft} (member : draft ∈ context.moduleDrafts model) :
    draft.moduleName = some model.name := by
  simp only [moduleDrafts, List.mem_append, List.mem_map] at member
  rcases member with ((member | member) | member) | ⟨_, _, rfl⟩
  · rw [List.mem_singleton.mp member]
  · split at member
    · cases member
    · rw [List.mem_singleton.mp member]
  · split at member
    · cases member
    · rw [List.mem_singleton.mp member]
  · rfl

/-- The names of the pages of a module besides those of its classes. -/
def commonNames (model : ModuleModel) : List String :=
  Page.homeName :: ((if model.fields.isEmpty then [] else [Page.fieldsName]) ++
    if model.functions.isEmpty then [] else [Page.functionsName])

theorem moduleDrafts_basenames (model : ModuleModel) :
    (context.moduleDrafts model).map (·.basename) =
      commonNames model ++ model.classes.map fun member => Page.className member.name := by
  rw [← classesOf_map_fst]
  unfold moduleDrafts commonNames
  cases model.fields.isEmpty <;> cases model.functions.isEmpty <;> simp

theorem commonNames_sublist (model : ModuleModel) :
    (commonNames model).Sublist [Page.homeName, Page.fieldsName, Page.functionsName] := by
  unfold commonNames
  cases model.fields.isEmpty <;> cases model.functions.isEmpty <;> decide

theorem className_not_common (name : String) :
    Page.className name ∉ [Page.homeName, Page.fieldsName, Page.functionsName] := by
  simp only [List.mem_cons, List.not_mem_nil, or_false, ← String.toList_inj]
  simp [Page.className, Page.homeName, Page.fieldsName, Page.functionsName]

theorem basename_regular {name : String}
    (named : name ∈ [Page.homeName, Page.fieldsName, Page.functionsName] ∨
      ∃ known : String, '/' ∉ known.toList ∧ name = Page.className known) :
    '/' ∉ name.toList ∧ name ∉ ["", ".", ".."] ∧ '.' ∈ name.toList := by
  rcases named with common | ⟨known, slashFree, rfl⟩
  · have each : ∀ name ∈ [Page.homeName, Page.fieldsName, Page.functionsName],
        '/' ∉ name.toList ∧ name ∉ ["", ".", ".."] ∧ '.' ∈ name.toList := by decide
    exact each name common
  · simp only [List.mem_cons, List.not_mem_nil, or_false, ← String.toList_inj]
    simp [Page.className, slashFree]

theorem exists_pages (models : List ModuleModel) : ∃ pages, context.pages models = .ok pages := ⟨_, context.pages_eq models⟩

variable {context} {models : List ModuleModel} {pages : List Page}

theorem pages_eq_ok (rendered : context.pages models = .ok pages) : pages = (context.sheets models).map Sheet.page := by
  rw [context.pages_eq] at rendered
  exact (Except.ok.inj rendered).symm

theorem exists_draft_of_mem_pages (rendered : context.pages models = .ok pages) {page : Page} (member : page ∈ pages) :
    ∃ draft ∈ context.drafts models, page = (context.sheet draft).page := by
  rw [pages_eq_ok rendered] at member
  simpa [sheets, eq_comm] using member

theorem mem_drafts {draft : Draft} (member : draft ∈ context.drafts models) :
    (draft.moduleName = none ∧ draft.basename = Page.homeName) ∨
      ∃ model ∈ models, draft ∈ context.moduleDrafts model := by
  unfold drafts at member
  rcases List.mem_append.mp member with member | member
  · obtain ⟨model, shown, member⟩ := List.mem_flatMap.mp member
    exact .inr ⟨model, List.mem_of_mem_filter shown, member⟩
  · split at member
    · cases member
    · rw [List.mem_singleton.mp member]
      exact .inl ⟨rfl, rfl⟩

theorem regular_of_mem_pages (slashFree : SlashFree models) (rendered : context.pages models = .ok pages) {page : Page}
    (member : page ∈ pages) : page.Regular := by
  obtain ⟨draft, drafted, rfl⟩ := exists_draft_of_mem_pages rendered member
  rcases mem_drafts drafted with ⟨noModule, home⟩ | ⟨model, listed, drafted⟩
  · obtain ⟨basename, named, dotted⟩ := @basename_regular draft.basename (.inl (by simp [home]))
    exact ⟨⟨⟨basename, by simp [Sheet.page, sheet, noModule]⟩, named⟩, dotted, fun _ => home⟩
  · have present : (context.sheet draft).page.moduleName = some model.name := context.moduleDrafts_moduleName drafted
    have known : draft.basename ∈ commonNames model ++ model.classes.map fun member => Page.className member.name := by
      rw [← context.moduleDrafts_basenames]
      exact List.mem_map_of_mem drafted
    have common : draft.basename ∈ [Page.homeName, Page.fieldsName, Page.functionsName] ∨
        ∃ known : String, '/' ∉ known.toList ∧ draft.basename = Page.className known := by
      rcases List.mem_append.mp known with common | ofClass
      · exact .inl ((commonNames_sublist model).subset common)
      · obtain ⟨known, isClass, same⟩ := List.mem_map.mp ofClass
        exact .inr ⟨known.name, slashFree.classes model listed known isClass, same.symm⟩
    obtain ⟨basename, named, dotted⟩ := basename_regular common
    refine ⟨⟨⟨basename, ?_⟩, named⟩, dotted, by simp [present]⟩
    rw [present]
    rintro name ⟨⟩
    exact slashFree.modules model listed

theorem filled_of_mem_pages (rendered : context.pages models = .ok pages) {page : Page} (member : page ∈ pages) :
    page.isBlank = false := by
  obtain ⟨draft, _, rfl⟩ := exists_draft_of_mem_pages rendered member
  exact context.isBlank_sheet draft

theorem moduleDrafts_nodup {model : ModuleModel} (distinct : (model.classes.map (·.name)).Nodup) :
    ((context.moduleDrafts model).map (·.basename)).Nodup := by
  rw [moduleDrafts_basenames]
  refine List.Nodup.append ?_ ?_ ?_
  · exact (commonNames_sublist model).nodup (by decide)
  · have classes := distinct.map className_injective
    rwa [List.map_map] at classes
  · intro name common ofClass
    obtain ⟨known, _, rfl⟩ := List.mem_map.mp ofClass
    exact className_not_common known.name ((commonNames_sublist model).subset common)

/-- No two drafts have the same name in the same module. -/
theorem drafts_nodup (distinct : (models.map (·.name)).Nodup)
    (classesDistinct : ∀ model ∈ models, (model.classes.map (·.name)).Nodup) :
    ((context.drafts models).map fun draft => (draft.moduleName, draft.basename)).Nodup := by
  have shown : (documented models).Sublist models := List.filter_sublist
  unfold drafts List.Nodup
  rw [List.pairwise_map, List.pairwise_append, List.pairwise_flatMap]
  refine ⟨⟨?_, ?_⟩, ?_, ?_⟩
  · intro model member
    have basenames := @moduleDrafts_nodup context model (classesDistinct model (shown.subset member))
    refine (List.pairwise_map.mp basenames).imp ?_
    intro one other differ same
    exact differ (Prod.mk.inj same).2
  · refine (List.pairwise_map.mp (distinct.sublist (shown.map _))).imp ?_
    intro model other differ one ofModel two ofOther same
    have named := (Prod.mk.inj same).1
    rw [context.moduleDrafts_moduleName ofModel, context.moduleDrafts_moduleName ofOther] at named
    exact differ (Option.some.inj named)
  · split
    · exact .nil
    · exact List.pairwise_singleton _ _
  · intro one inModules two home same
    obtain ⟨model, _, drafted⟩ := List.mem_flatMap.mp inModules
    split at home
    · cases home
    · have named := (Prod.mk.inj same).1
      rw [context.moduleDrafts_moduleName drafted, List.mem_singleton.mp home] at named
      cases named

theorem pages_names (rendered : context.pages models = .ok pages) :
    pages.map (fun page => (page.moduleName, page.basename)) =
      (context.drafts models).map fun draft => (draft.moduleName, draft.basename) := by
  rw [pages_eq_ok rendered, sheets, List.map_map, List.map_map]
  rfl

theorem fullyNamed_of_mem_pages (wellNamed : WellNamed models) (rendered : context.pages models = .ok pages) {page : Page}
    (member : page ∈ pages) : page.FullyNamed := by
  intro name present
  obtain ⟨draft, drafted, rfl⟩ := exists_draft_of_mem_pages rendered member
  change draft.moduleName = some name at present
  rcases mem_drafts drafted with ⟨noModule, _⟩ | ⟨model, listed, drafted⟩
  · rw [noModule] at present
    cases present
  · rw [context.moduleDrafts_moduleName drafted] at present
    cases present
    exact fun empty => (wellNamed.parts model listed "" empty).1 rfl

/-- Each page has a place of its own if the modules, and in each module the classes, have different
names. -/
theorem locations_nodup (wellNamed : WellNamed models) (rendered : context.pages models = .ok pages)
    (classesDistinct : ∀ model ∈ models, (model.classes.map (·.name)).Nodup) :
    (pages.map (·.location.names)).Nodup := by
  have keys := @drafts_nodup context models wellNamed.distinct classesDistinct
  rw [← pages_names rendered] at keys
  refine List.pairwise_map.mpr ((List.pairwise_map.mp keys).imp_of_mem ?_)
  intro page other member otherMember differ same
  have regular := regular_of_mem_pages wellNamed.slashFree rendered member
  have otherRegular := regular_of_mem_pages wellNamed.slashFree rendered otherMember
  obtain ⟨sameModule, sameName⟩ := Page.eq_of_location_names_eq regular.toProper otherRegular.toProper
    (fullyNamed_of_mem_pages wellNamed rendered member) (fullyNamed_of_mem_pages wellNamed rendered otherMember) same
  exact differ (Prod.ext sameModule sameName)

end SiteContext

end ApiReference
