import ApiReference.Proofs.FileTree.Steps
import ApiReference.Proofs.FileTree.WellFormed

namespace ApiReference

/-! Trees that hold the same files and directories but list the entries of directories in another
order. Paths lead to the same places in both. -/

namespace Node

/-- No name is used twice in a directory, down to the bottom. -/
abbrev Unambiguous : Node → Prop := Everywhere fun entries => (entries.map Prod.fst).Nodup

/-- The same node with the entries of every directory in any order. -/
inductive Relisted : Node → Node → Prop where
  | file (text : String) : Relisted (.file text) (.file text)
  | directory {entries others : Entries} (names : (entries.map Prod.fst).Perm (others.map Prod.fst))
      (children : ∀ name child other, (name, child) ∈ entries → (name, other) ∈ others → Relisted child other) :
      Relisted (.directory entries) (.directory others)

theorem exists_of_names {entries others : Entries} (names : (entries.map Prod.fst).Perm (others.map Prod.fst))
    {name : String} {other : Node} (listed : (name, other) ∈ others) : ∃ child, (name, child) ∈ entries := by
  have named : name ∈ entries.map Prod.fst := names.mem_iff.mpr (List.mem_map_of_mem listed)
  simpa using named

namespace Relisted

variable {first second : Node}

theorem symm (relisted : first.Relisted second) : second.Relisted first := by
  induction relisted with
  | file text => exact .file text
  | directory names _ ih =>
      refine .directory names.symm ?_
      intro name other child listed held
      exact ih name child other held listed

theorem refl {node : Node} (unambiguous : node.Unambiguous) : node.Relisted node := by
  induction unambiguous with
  | file text => exact .file text
  | directory distinct _ ih =>
      refine .directory (.refl _) ?_
      intro name child other listed again
      rw [← OrderedMap.lookup_eq_some_iff_mem distinct, (OrderedMap.lookup_eq_some_iff_mem distinct).mpr listed] at again
      cases again
      exact ih (name, child) listed

/-- Listing one directory in another order. -/
theorem of_perm {entries others : Entries} (unambiguous : (Node.directory entries).Unambiguous)
    (perm : entries.Perm others) : (Node.directory entries).Relisted (.directory others) := by
  cases refl unambiguous with
  | directory _ children =>
      refine .directory (perm.map Prod.fst) ?_
      intro name child other listed again
      exact children name child other listed (perm.mem_iff.mpr again)

theorem shape_eq (relisted : first.Relisted second) : first.shape = second.shape := by
  cases relisted <;> rfl

theorem isDirectory_eq (relisted : first.Relisted second) : first.isDirectory = second.isDirectory := by
  cases relisted <;> rfl

/-- What holds of the names in every directory still does. -/
theorem everywhere {condition : Entries → Prop}
    (kept : ∀ entries others, (entries.map Prod.fst).Perm (others.map Prod.fst) → condition entries → condition others)
    (relisted : first.Relisted second) (held : Everywhere condition first) : Everywhere condition second := by
  induction relisted with
  | file text => exact .file text
  | @directory entries others names _ ih =>
      obtain ⟨own, children⟩ := Everywhere.directory_iff.mp held
      refine .directory (kept entries others names own) ?_
      intro (name, other) listed
      obtain ⟨child, member⟩ := exists_of_names names listed
      exact ih name child other member listed (children (name, child) member)

theorem unambiguous (relisted : first.Relisted second) (held : first.Unambiguous) : second.Unambiguous :=
  relisted.everywhere (fun _ _ names distinct => names.nodup_iff.mp distinct) held

theorem wellNamed (relisted : first.Relisted second) (held : first.WellNamed) : second.WellNamed := by
  refine relisted.everywhere ?_ held
  intro entries others names proper (name, other) listed
  obtain ⟨child, member⟩ := exists_of_names names listed
  exact proper (name, child) member

/-- The same locations lead to nodes that are relisted again. -/
theorem get? (relisted : first.Relisted second) (unambiguous : second.Unambiguous) {location : Location} {node : Node}
    (held : first.get? location = some node) : ∃ other, second.get? location = some other ∧ node.Relisted other := by
  induction location generalizing first second with
  | nil =>
      rw [get?_nil] at held
      cases held
      exact ⟨second, get?_nil second, relisted⟩
  | cons name rest ih =>
      cases relisted with
      | file text => cases held
      | @directory entries others names children =>
          rw [get?_directory_cons] at held
          obtain ⟨child, found, held⟩ := Option.bind_eq_some_iff.mp held
          obtain ⟨distinct, below⟩ := Everywhere.directory_iff.mp unambiguous
          have member := mem_of_lookup found
          obtain ⟨other, listed⟩ := exists_of_names names.symm member
          rw [get?_directory_cons, (OrderedMap.lookup_eq_some_iff_mem distinct).mpr listed, Option.bind_some]
          exact ih (children name child other member listed) (below (name, other) listed) held

/-- Files are the same in both. -/
theorem get?_file_iff (relisted : first.Relisted second) (held : first.Unambiguous) {location : Location}
    {text : String} : first.get? location = some (.file text) ↔ second.get? location = some (.file text) := by
  constructor
  · intro found
    obtain ⟨other, present, again⟩ := relisted.get? (relisted.unambiguous held) found
    cases again
    exact present
  · intro found
    obtain ⟨other, present, again⟩ := relisted.symm.get? held found
    cases again
    exact present

theorem view_eq (relisted : first.Relisted second) (held : first.Unambiguous) : first.view = second.view := by
  have other := relisted.unambiguous held
  funext location
  unfold view
  cases found : first.get? location with
  | some node =>
      obtain ⟨next, foundNext, again⟩ := relisted.get? other found
      rw [foundNext, Option.map_some, Option.map_some, again.shape_eq]
  | none =>
      cases foundNext : second.get? location with
      | none => rfl
      | some next =>
          obtain ⟨node, present, _⟩ := relisted.symm.get? held foundNext
          rw [found] at present
          cases present

end Relisted

end Node

namespace FileTree

variable {tree : FileTree} {root : Node}

theorem step?_relisted (same : tree.root.view = root.view) : { tree with root := root }.step? = tree.step? := by
  have directories : ∀ location, isDirectoryAt root location = isDirectoryAt tree.root location := by
    intro location
    rw [Bool.eq_iff_iff, isDirectoryAt_iff, isDirectoryAt_iff, same]
  funext location component
  cases component <;> simp only [step?, directories]

/-- A path leads to the same node, relisted. -/
theorem node?_relisted (unambiguous : tree.root.Unambiguous) (relisted : tree.root.Relisted root) {path : Path}
    {node : Node} (held : tree.node? path = some node) :
    ∃ other, { tree with root := root }.node? path = some other ∧ node.Relisted other := by
  have located : { tree with root := root }.locate? path = tree.locate? path := by
    unfold locate?
    rw [step?_relisted (relisted.view_eq unambiguous)]
  unfold node? at held ⊢
  rw [located]
  simp only [Option.bind_eq_bind] at held ⊢
  obtain ⟨location, found, held⟩ := Option.bind_eq_some_iff.mp held
  obtain ⟨present, present?, chosen⟩ := Option.bind_eq_some_iff.mp held
  obtain ⟨other, other?, again⟩ := relisted.get? (relisted.unambiguous unambiguous) present?
  rw [found, Option.bind_some, other?, Option.bind_some, ← again.isDirectory_eq]
  split at chosen
  · cases chosen
  · cases chosen
    rename_i kind
    exact ⟨other, if_neg kind, again⟩

end FileTree

end ApiReference
