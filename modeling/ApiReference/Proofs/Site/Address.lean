import ApiReference.Proofs.Path.Push
import ApiReference.Site.Address
import Mathlib.Tactic.MkIffOfInductiveProp

namespace ApiReference

/-! Where pages without slashes in their names are stored, and that their addresses tell them apart. -/

namespace Path

theorem isAbsolute_pushAll (path : Path) {parts : List String}
    (relative : ∀ part ∈ parts, Text.startsWith "/" part = false) :
    (path.pushAll parts).isAbsolute = path.isAbsolute := by
  induction parts generalizing path with
  | nil => rfl
  | cons part rest ih =>
      have rested := ih (path.push part) fun other member => relative other (by simp [member])
      rw [isAbsolute_push path (relative part (by simp))] at rested
      exact rested

theorem names_pushAll (path : Path) {parts : List String}
    (relative : ∀ part ∈ parts, Text.startsWith "/" part = false) :
    (path.pushAll parts).names = path.names ++ parts.flatMap fun part => (Path.mk part).names := by
  induction parts generalizing path with
  | nil => simp [pushAll]
  | cons part rest ih =>
      have rested := ih (path.push part) fun other member => relative other (by simp [member])
      rw [names_push path (relative part (by simp)), List.append_assoc] at rested
      exact rested

end Path

namespace Page

/-- No slash in the names of a page. -/
@[mk_iff]
structure SlashFree (page : Page) : Prop where
  basename : '/' ∉ page.basename.toList
  moduleName : ∀ name ∈ page.moduleName, '/' ∉ name.toList

/-- A basename that can be that of a file. -/
@[mk_iff]
structure Proper (page : Page) : Prop extends SlashFree page where
  named : page.basename ∉ ["", ".", ".."]

instance (page : Page) : Decidable page.SlashFree := decidable_of_iff' _ (slashFree_iff page)

instance (page : Page) : Decidable page.Proper := decidable_of_iff' _ (proper_iff page)

/-- The directory of a page, relative to the API directory. -/
def directory (page : Page) : Path :=
  match page.moduleName with
  | some name => (Path.mk modulesDir).pushAll (Text.splitOn '.' name)
  | none => ⟨""⟩

theorem location_eq (page : Page) : page.location = page.directory.push page.basename := rfl

theorem slashFree_of_mem_splitOn {name part : String} (slashFree : '/' ∉ name.toList)
    (member : part ∈ Text.splitOn '.' name) : '/' ∉ part.toList :=
  fun slash => slashFree (Chars.subset_of_mem_splitOn (Text.toList_mem_splitOn.mp member) slash)

theorem directory_isAbsolute {page : Page} (slashFree : page.SlashFree) :
    page.directory.isAbsolute = false := by
  unfold directory
  split
  · rename_i name present
    rw [Path.isAbsolute_pushAll]
    · rfl
    · intro part member
      exact Path.relative_of_slashFree
        (slashFree_of_mem_splitOn (slashFree.moduleName name present) member)
  · rfl

theorem location_relative {page : Page} (slashFree : page.SlashFree) :
    Text.startsWith "/" page.location.text = false := by
  have relative := Path.relative_of_slashFree slashFree.basename
  change page.location.isAbsolute = false
  rw [location_eq, Path.isAbsolute_push _ relative, directory_isAbsolute slashFree]

theorem directory_names_of_module {page : Page} (slashFree : page.SlashFree) {name : String}
    (present : page.moduleName = some name) :
    page.directory.names = modulesDir :: (Text.splitOn '.' name).filter (!Path.isIdle ·) := by
  have free : ∀ part ∈ Text.splitOn '.' name, '/' ∉ part.toList := fun part member =>
    slashFree_of_mem_splitOn (slashFree.moduleName name present) member
  have names : (Path.mk modulesDir).names = [modulesDir] := by decide
  rw [directory, present]
  simp only
  rw [Path.names_pushAll _ fun part member => Path.relative_of_slashFree (free part member), names]
  generalize Text.splitOn '.' name = parts at free
  induction parts with
  | nil => rfl
  | cons part rest ih =>
      have rested := List.append_cancel_left (ih fun other member => free other (List.mem_cons_of_mem _ member))
      rw [List.flatMap_cons, Path.names_of_slashFree (free part List.mem_cons_self), rested]
      cases idle : Path.isIdle part <;> simp [idle]

theorem directory_names_of_home {page : Page} (present : page.moduleName = none) : page.directory.names = [] := by
  rw [directory, present]
  decide

/-- There is no dot in the names of the directories on the way to a page. -/
theorem directory_undotted {page : Page} (slashFree : page.SlashFree) {name : String}
    (member : name ∈ page.directory.names) : '.' ∉ name.toList := by
  cases present : page.moduleName with
  | none =>
      rw [directory_names_of_home present] at member
      cases member
  | some moduleName =>
      rw [directory_names_of_module slashFree present] at member
      rcases List.mem_cons.mp member with rfl | member
      · decide
      · exact Chars.not_mem_of_mem_splitOn (Text.toList_mem_splitOn.mp (List.mem_of_mem_filter member))

theorem directory_names {page : Page} (slashFree : page.SlashFree) :
    ".." ∉ page.directory.names :=
  fun member => absurd (directory_undotted slashFree member) (by decide)

theorem location_names {page : Page} (slashFree : page.SlashFree) :
    page.location.names = page.directory.names ++ if Path.isIdle page.basename then [] else [page.basename] := by
  rw [location_eq, Path.names_push _ (Path.relative_of_slashFree slashFree.basename),
    Path.names_of_slashFree slashFree.basename]

theorem location_names_of_proper {page : Page} (proper : page.Proper) :
    page.location.names = page.directory.names ++ [page.basename] := by
  have active : Path.isIdle page.basename = false := by
    have named := proper.named
    simp only [List.mem_cons, not_or] at named
    simp [Path.isIdle, named.1, named.2.1]
  rw [location_names proper.toSlashFree, active]
  rfl

theorem location_plain {page : Page} (proper : page.Proper) : ".." ∉ page.location.names := by
  have named := proper.named
  simp only [List.mem_cons, not_or] at named
  rw [location_names_of_proper proper, List.mem_append, List.mem_singleton, not_or]
  exact ⟨directory_names proper.toSlashFree, fun up => named.2.2.1 up.symm⟩

end Page

namespace Address

variable {apiDir moduleName otherName basename otherBasename : String}

theorem toList_replace_dots (name : String) :
    (Text.replace "." "/" name).toList = name.toList.map fun c => if c = '.' then '/' else c := by
  simp [Text.replace, Chars.replaceFrom_single]

theorem replace_slashes_replace_dots (slashFree : '/' ∉ moduleName.toList) :
    (Text.replace "." "/" moduleName).toList.map (fun c => if c = '/' then '.' else c) = moduleName.toList := by
  rw [toList_replace_dots, List.map_map]
  calc moduleName.toList.map _ = moduleName.toList.map id := by
        refine List.map_congr_left fun c member => ?_
        have noSlash : c ≠ '/' := fun slash => slashFree (slash ▸ member)
        by_cases dot : c = '.' <;> simp [dot, noSlash]
    _ = moduleName.toList := List.map_id _

/-- Modules and pages whose names have no slash are told apart by their addresses. -/
theorem ofPage_inj (slashFree : '/' ∉ moduleName.toList) (otherFree : '/' ∉ otherName.toList)
    (basenameFree : '/' ∉ basename.toList) (otherBasenameFree : '/' ∉ otherBasename.toList)
    (same : ofPage apiDir (some moduleName) basename = ofPage apiDir (some otherName) otherBasename) :
    moduleName = otherName ∧ basename = otherBasename := by
  have cut : (Text.replace "." "/" moduleName).toList ++ '/' :: basename.toList =
      (Text.replace "." "/" otherName).toList ++ '/' :: otherBasename.toList := by
    rw [ofPage, ofPage, ← String.toList_inj] at same
    simpa using same
  have split := congrArg (Chars.splitLast? '/') cut
  rw [Chars.splitLast?_append _ basenameFree, Chars.splitLast?_append _ otherBasenameFree, Option.some.injEq,
    Prod.mk.injEq] at split
  have sameModule := congrArg (List.map fun c => if c = '/' then '.' else c) split.1
  rw [replace_slashes_replace_dots slashFree, replace_slashes_replace_dots otherFree] at sameModule
  exact ⟨String.toList_inj.mp sameModule, String.toList_inj.mp split.2⟩

theorem home_ne_ofPage : ofPage apiDir none Page.homeName ≠ ofPage apiDir (some moduleName) basename := by
  intro same
  rw [ofPage, ofPage, ← String.toList_inj] at same
  simp [Page.homeName, Page.modulesDir] at same

end Address

end ApiReference
