import ApiReference.Proofs.Publication.Steps
import Mathlib.Data.List.Perm.Subperm

namespace ApiReference.Publication

open FileTree FileWork

/-! Files in the directory of a reference that were not published. They are lost exactly when a
publication takes the directory for a generated one. -/

/-- One publication after the other; a failed one leaves what it did and the next one follows. -/
def publishAll (directory : Path) (calls : List (List Page)) (tree : FileTree) : FileTree :=
  calls.foldl (fun tree pages => (result (publish directory pages) tree).2) tree

/-- Whether one of the publications finds a directory that looks generated. -/
def meetsGenerated (directory : Path) : List (List Page) → FileTree → Bool
  | [], _ => false
  | pages :: rest, tree =>
      isGenerated tree directory || meetsGenerated directory rest (result (publish directory pages) tree).2

section Step

variable {directory : Path} {tree : FileTree}

theorem view_push_ne_none {name : String} (own : name ∈ ownNames) {node : Node}
    (held : tree.node? (directory.push name) = some node) :
    tree.view (directory.destination tree.here ++ [name]) ≠ none := by
  obtain ⟨location, found, present⟩ := exists_locate?_of_node? held
  rw [← destination_push_own tree.here directory own, ← locate?_eq_destination found, view, ne_eq,
    Node.view_eq_none_iff, present]
  simp

theorem view_own_of_isGenerated (generated : isGenerated tree directory = true) {name : String}
    (own : name ∈ ownNames) : tree.view (directory.destination tree.here ++ [name]) ≠ none := by
  have there : ∃ node, tree.node? (directory.push name) = some node := by
    unfold isGenerated at generated
    split at generated
    · simp only [Bool.and_eq_true, decide_eq_true_eq] at generated
      obtain ⟨⟨⟨_, marker⟩, home⟩, modules⟩ := generated
      simp only [ownNames, List.mem_cons, List.not_mem_nil, or_false] at own
      rcases own with rfl | rfl | rfl
      · exact exists_node?_of_isFile marker
      · exact exists_node?_of_isFile home
      · exact exists_node?_of_isDirectory modules
    · cases generated
  obtain ⟨node, held⟩ := there
  exact view_push_ne_none own held

/-- With an entry of another name the directory is not taken for a generated one. -/
theorem isGenerated_of_foreign_entry {name : String} (foreign : name ∉ ownNames)
    (present : tree.view (directory.destination tree.here ++ [name]) ≠ none) :
    isGenerated tree directory = false := by
  rw [← Bool.not_eq_true]
  intro generated
  obtain ⟨entries, held, three⟩ := node?_of_isGenerated generated
  obtain ⟨location, found, standing⟩ := exists_locate?_of_node? held
  rw [locate?_eq_destination found] at standing
  have keys : name :: ownNames ⊆ entries.map Prod.fst := by
    intro wanted member
    apply Node.mem_keys_of_view standing
    rcases List.mem_cons.mp member with rfl | own
    · exact present
    · exact view_own_of_isGenerated generated own
  -- four different names cannot be those of three entries
  have distinct : (name :: ownNames).Nodup := List.nodup_cons.mpr ⟨foreign, by decide⟩
  have four := (List.subperm_of_subset distinct keys).length_le
  simp [ownNames, three] at four

end Step

section Run

variable {directory : Path} {calls : List (List Page)} {before : FileTree}

theorem view_publishAll_eq_file_iff (slashFree : ∀ pages ∈ calls, ∀ page ∈ pages, page.SlashFree)
    {rest : Node.Location} (more : rest ≠ [])
    (untouched : ∀ pages ∈ calls, ∀ text, (rest, Shape.file text) ∉ contents pages) {text : String} :
    (publishAll directory calls before).view (directory.destination before.here ++ rest) = some (.file text) ↔
      meetsGenerated directory calls before = false ∧
        before.view (directory.destination before.here ++ rest) = some (.file text) := by
  induction calls generalizing before with
  | nil => simp [publishAll, meetsGenerated]
  | cons pages others ih =>
      have firstFree := slashFree pages List.mem_cons_self
      have firstUntouched := untouched pages List.mem_cons_self
      have run := @ih (result (publish directory pages) before).2
        (fun pages member => slashFree pages (List.mem_cons_of_mem _ member))
        fun pages member => untouched pages (List.mem_cons_of_mem _ member)
      rw [publish_here directory before firstFree,
        view_publish_eq_file_iff directory before firstFree more firstUntouched] at run
      rw [meetsGenerated, Bool.or_eq_false_iff]
      exact run.trans (and_left_comm.trans and_assoc.symm)

theorem meetsGenerated_of_foreign_entry (slashFree : ∀ pages ∈ calls, ∀ page ∈ pages, page.SlashFree)
    {name : String} (foreign : name ∉ ownNames)
    (present : before.view (directory.destination before.here ++ [name]) ≠ none) :
    meetsGenerated directory calls before = false := by
  induction calls generalizing before with
  | nil => rfl
  | cons pages others ih =>
      have notYet := isGenerated_of_foreign_entry foreign present
      have firstFree := slashFree pages List.mem_cons_self
      rw [meetsGenerated, notYet, Bool.false_or]
      apply ih fun pages member => slashFree pages (List.mem_cons_of_mem _ member)
      have grows := publish_grows_anywhere directory before firstFree
      rw [clear_of_foreign notYet] at grows
      rw [grows.here]
      exact grows.isSome present

/-- A file in the directory that is not published over survives a series of publications exactly
when none of them finds the directory looking generated. An entry at its top with a name that no
publication leaves there keeps it from ever looking so. -/
theorem file_survives_publishAll (slashFree : ∀ pages ∈ calls, ∀ page ∈ pages, page.SlashFree)
    {rest : Node.Location} {text : String} (more : rest ≠ [])
    (held : before.view (directory.destination before.here ++ rest) = some (.file text))
    (notMarker : rest ≠ [markerName]) (notHome : rest ≠ [Page.homeName])
    (noPage : ∀ pages ∈ calls, ∀ page ∈ pages, page.isBlank = false → rest ≠ page.location.names) :
    ((publishAll directory calls before).view (directory.destination before.here ++ rest) = some (.file text) ↔
      meetsGenerated directory calls before = false) ∧
    ((∃ name, name ∉ ownNames ∧ before.view (directory.destination before.here ++ [name]) ≠ none) →
      (publishAll directory calls before).view (directory.destination before.here ++ rest) = some (.file text)) := by
  have survives : (publishAll directory calls before).view (directory.destination before.here ++ rest) =
      some (.file text) ↔ meetsGenerated directory calls before = false := by
    rw [view_publishAll_eq_file_iff slashFree more fun pages isCall =>
      not_mem_contents notMarker notHome (noPage pages isCall)]
    exact and_iff_left held
  refine ⟨survives, ?_⟩
  rintro ⟨name, foreign, present⟩
  exact survives.mpr (meetsGenerated_of_foreign_entry slashFree foreign present)

end Run

/-- Notes among the modules of a directory that nobody published, beside the given entries. -/
def notesTree (entries : Node.Entries) : FileTree where
  root := .directory [("api", .directory (entries ++ [("modules", .directory [("notes.md", .file "kept")])]))]
  limits := .usual

theorem notes_survive_beside_licence :
    isGenerated (notesTree [("LICENSE", .file "")]) ⟨"/api/modules/.."⟩ = false ∧
      (notesTree [("LICENSE", .file "")]).view ["api", "modules", "notes.md"] = some (.file "kept") ∧
      (publishAll ⟨"/api/modules/.."⟩ [[⟨some "demo", "funcs.md", "# demo"⟩], [⟨none, "README.md", "home"⟩], []]
        (notesTree [("LICENSE", .file "")])).view ["api", "modules", "notes.md"] = some (.file "kept") := by
  refine ⟨by decide +kernel, by decide +kernel, ?_⟩
  have survives := @file_survives_publishAll ⟨"/api/modules/.."⟩
    [[⟨some "demo", "funcs.md", "# demo"⟩], [⟨none, "README.md", "home"⟩], []]
    (notesTree [("LICENSE", .file "")]) (by decide +kernel) ["modules", "notes.md"] "kept" (by decide)
    (by decide +kernel) (by decide) (by decide) (by decide +kernel)
  exact survives.2 ⟨"LICENSE", by decide, by decide +kernel⟩

/-- The first publication completes what the second one takes for a generated directory. -/
theorem publishAll_twice_loses_notes :
    (notesTree []).isDirectory ⟨"/api"⟩ = true ∧ isGenerated (notesTree []) ⟨"/api"⟩ = false ∧
      (notesTree []).view ["api", "modules", "notes.md"] = some (.file "kept") ∧
      (publishAll ⟨"/api"⟩ [[]] (notesTree [])).view ["api", "modules", "notes.md"] = some (.file "kept") ∧
      (publishAll ⟨"/api"⟩ [[], []] (notesTree [])).view ["api", "modules", "notes.md"] = none := by
  decide +kernel

end ApiReference.Publication
