import ApiReference.Proofs.Path.Parts

namespace ApiReference.Project

open ApiReference.Path

/-! Relative directories put together. However two directories are written, a slash between them
puts the parts of the second after those of the first, and the paths built from them follow. -/

theorem isPart_iff {part : String} : IsPart part ↔ part ≠ "" ∧ part ≠ "." ∧ '/' ∉ part.toList := by
  constructor
  · intro isPart
    have active := isPart.active
    simp only [isIdle, Bool.or_eq_false_iff, decide_eq_false_iff_not] at active
    exact ⟨active.1, active.2, isPart.slashFree⟩
  · intro plain
    obtain ⟨nonempty, undotted, slashFree⟩ := plain
    exact ⟨slashFree, by simp [isIdle, nonempty, undotted]⟩

theorem parts_append_slash (first second : String) :
    parts (first ++ "/" ++ second) = parts first ++ parts second := by
  rw [parts_eq_names, parts_eq_names, parts_eq_names, names_append_slash]

theorem parts_intercalate {steps : List String} (areParts : ∀ step ∈ steps, IsPart step) :
    parts ("/".intercalate steps) = steps := by
  rw [parts_eq_names, names_intercalate areParts]

theorem resolve_append_slash (root : Path) (first second : String) :
    resolve root (first ++ "/" ++ second) = resolve (resolve root first) second := by
  rw [resolve, parts_append_slash, pushAll_append]
  rfl

/-- A package is found by its name in the directory that holds it. -/
theorem push_packageName (root : Path) {packageDir : String} (nonempty : parts packageDir ≠ []) :
    ∃ mount name, mountPoint root packageDir = .ok mount ∧ packageName? packageDir = some name ∧
      mount.push name = resolve root packageDir := by
  obtain ⟨front, last, split, _⟩ := exists_last_part nonempty
  refine ⟨root.pushAll front, last, ?_, ?_, ?_⟩
  · rw [mountPoint, if_neg nonempty, split, List.dropLast_concat]
  · rw [packageName?, split, List.getLast?_concat]
  · rw [resolve, split, pushAll_append]
    rfl

theorem mountPoint_of_no_parts (root : Path) {packageDir : String} (none : parts packageDir = []) :
    mountPoint root packageDir = .error (.settings .emptyPackageDir) := if_pos none

/-- The parts of directories, and the paths built from them, under a slash that joins two
directories. The parts are steps, and all steps are parts of the text that they are joined to. -/
theorem directories_compose (root : Path) (first second : String) :
    parts (first ++ "/" ++ second) = parts first ++ parts second ∧
      (∀ part ∈ parts first, part ≠ "" ∧ part ≠ "." ∧ '/' ∉ part.toList) ∧
      (∀ steps : List String, (∀ step ∈ steps, step ≠ "" ∧ step ≠ "." ∧ '/' ∉ step.toList) →
        parts ("/".intercalate steps) = steps) ∧
      parts ("/".intercalate (parts first)) = parts first ∧
      resolve root (first ++ "/" ++ second) = resolve (resolve root first) second ∧
      (parts first ≠ [] → ∃ mount name, mountPoint root first = .ok mount ∧ packageName? first = some name ∧
        (mount.push name).text = (resolve root first).text) ∧
      (parts first = [] → mountPoint root first = .error (.settings .emptyPackageDir) ∧ packageName? first = none) := by
  refine ⟨parts_append_slash first second, fun part member => isPart_iff.mp (isPart_of_mem_parts member), ?_,
    parts_intercalate fun part => isPart_of_mem_parts, resolve_append_slash root first second, ?_, ?_⟩
  · intro steps plain
    exact parts_intercalate fun step member => isPart_iff.mpr (plain step member)
  · intro nonempty
    obtain ⟨mount, name, located, named, pushed⟩ := push_packageName root nonempty
    exact ⟨mount, name, located, named, congrArg Path.text pushed⟩
  · intro none
    refine ⟨mountPoint_of_no_parts root none, ?_⟩
    rw [packageName?, none]
    rfl

/-- Slashes and dots at the seam, a root that ends in a slash, and a directory without parts. -/
theorem untidy_directories_compose :
    parts "./src//pkg/" = ["src", "pkg"] ∧
      resolve ⟨"work/"⟩ "./src//pkg//./sub/.." = ⟨"work/src/pkg/sub/.."⟩ ∧
      (∃ mount name, mountPoint ⟨"work/"⟩ "./src//pkg/" = .ok mount ∧ packageName? "./src//pkg/" = some name ∧
        (mount.push name).text = "work/src/pkg") ∧
      mountPoint ⟨"work/"⟩ "//./" = .error (.settings .emptyPackageDir) := by
  have written : parts "./src//pkg/" = ["src", "pkg"] := by decide
  have silent : parts "//./" = [] := by decide
  obtain ⟨_, _, _, _, composed, found, _⟩ := directories_compose ⟨"work/"⟩ "./src//pkg/" "./sub/.."
  obtain ⟨_, _, _, _, _, _, absent⟩ := directories_compose ⟨"work/"⟩ "//./" ""
  have nonempty : parts "./src//pkg/" ≠ [] := by
    rw [written]
    exact List.cons_ne_nil _ _
  refine ⟨written, ?_, ?_, (absent silent).1⟩
  · exact composed.trans (by decide)
  · obtain ⟨mount, name, located, named, pushed⟩ := found nonempty
    exact ⟨mount, name, located, named, pushed.trans (by decide)⟩

end ApiReference.Project
