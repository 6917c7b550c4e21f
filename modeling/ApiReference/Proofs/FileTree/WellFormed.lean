import ApiReference.Proofs.FileTree.Work
import ApiReference.Proofs.FileTree.View
import ApiReference.Proofs.Path.Parts

namespace ApiReference

/-! Nodes as a file system has them: the entries of every directory stand in the order of their
names, no name is used twice, and each can be a step of a path. In ordered nodes the view leaves
nothing open. -/

namespace Node

/-- A condition on the entries of every directory, down to the bottom. -/
inductive Everywhere (condition : Entries → Prop) : Node → Prop where
  | file (text : String) : Everywhere condition (.file text)
  | directory {entries : Entries} (own : condition entries)
      (children : ∀ entry ∈ entries, Everywhere condition entry.2) : Everywhere condition (.directory entries)

/-- The names of entries from the least to the greatest, each of them once. -/
def NamesAscend (entries : Entries) : Prop := (entries.map Prod.fst).Pairwise (· < ·)

/-- A name that can be given to a file or a directory. -/
structure ProperName (name : String) : Prop extends Path.IsPart name where
  noStepUp : name ≠ ".."

abbrev Ordered : Node → Prop := Everywhere NamesAscend

abbrev WellNamed : Node → Prop := Everywhere fun entries => ∀ entry ∈ entries, ProperName entry.1

structure WellFormed (root : Node) : Prop where
  ordered : root.Ordered
  wellNamed : root.WellNamed

instance (entries : Entries) : Decidable (NamesAscend entries) :=
  inferInstanceAs (Decidable ((entries.map Prod.fst).Pairwise (· < ·)))

theorem properName_iff {name : String} :
    ProperName name ↔ '/' ∉ name.toList ∧ Path.isIdle name = false ∧ name ≠ ".." :=
  ⟨fun proper => ⟨proper.slashFree, proper.active, proper.noStepUp⟩,
    fun ⟨slashFree, active, noStepUp⟩ => ⟨⟨slashFree, active⟩, noStepUp⟩⟩

instance (name : String) : Decidable (ProperName name) := decidable_of_iff' _ properName_iff

theorem mem_of_lookup {entries : Entries} {name : String} {child : Node}
    (found : entries.lookup name = some child) : (name, child) ∈ entries := by
  obtain ⟨front, back, split, _⟩ := List.lookup_eq_some_iff.mp found
  simp [split]

namespace Everywhere

variable {condition : Entries → Prop}

theorem directory_iff {entries : Entries} :
    Everywhere condition (.directory entries) ↔
      condition entries ∧ ∀ entry ∈ entries, Everywhere condition entry.2 := by
  constructor
  · rintro (_ | ⟨own, children⟩)
    exact ⟨own, children⟩
  · rintro ⟨own, children⟩
    exact .directory own children

section Decidable

variable (condition) [DecidablePred condition]

mutual

/-- Whether a condition holds everywhere. -/
def holds : Node → Bool
  | .file _ => true
  | .directory entries => condition entries && holdsIn entries

def holdsIn : Entries → Bool
  | [] => true
  | (_, node) :: rest => holds node && holdsIn rest

end

variable {condition}

mutual

theorem holds_iff (node : Node) : holds condition node = true ↔ Everywhere condition node := by
  cases node with
  | file text => exact ⟨fun _ => .file text, fun _ => by rw [holds]⟩
  | directory entries => rw [holds, Bool.and_eq_true, decide_eq_true_eq, holdsIn_iff entries, directory_iff]

theorem holdsIn_iff (entries : Entries) :
    holdsIn condition entries = true ↔ ∀ entry ∈ entries, Everywhere condition entry.2 := by
  match entries with
  | [] => simp [holdsIn]
  | (name, node) :: rest => rw [holdsIn, Bool.and_eq_true, holds_iff node, holdsIn_iff rest, List.forall_mem_cons]

end

instance (node : Node) : Decidable (Everywhere condition node) := decidable_of_iff _ (holds_iff node)

end Decidable

theorem get? {root node : Node} {location : Location} (everywhere : Everywhere condition root)
    (held : root.get? location = some node) : Everywhere condition node := by
  induction location generalizing root with
  | nil =>
      rw [get?_nil] at held
      cases held
      exact everywhere
  | cons name rest ih =>
      cases everywhere with
      | file text => cases held
      | directory own children =>
          rw [get?_directory_cons] at held
          obtain ⟨child, found, held⟩ := Option.bind_eq_some_iff.mp held
          exact ih (children (name, child) (mem_of_lookup found)) held

end Everywhere

theorem proper_of_get? {root node : Node} (wellNamed : root.WellNamed) {location : Location}
    (held : root.get? location = some node) : ∀ name ∈ location, ProperName name := by
  induction location generalizing root with
  | nil => exact List.forall_mem_nil _
  | cons name rest ih =>
      cases wellNamed with
      | file text => cases held
      | directory own children =>
          rw [get?_directory_cons] at held
          obtain ⟨child, found, held⟩ := Option.bind_eq_some_iff.mp held
          have member := mem_of_lookup found
          exact List.forall_mem_cons.mpr ⟨own (name, child) member, ih (children (name, child) member) held⟩

theorem NamesAscend.nodup {entries : Entries} (ascend : NamesAscend entries) :
    (entries.map Prod.fst).Nodup := by
  refine List.Pairwise.imp ?_ ascend
  rintro name _ before rfl
  exact String.lt_irrefl name before

theorem mem_insertEntry {name : String} {node : Node} {entries : Entries} {entry : String × Node}
    (member : entry ∈ insertEntry name node entries) : entry = (name, node) ∨ entry ∈ entries := by
  induction entries with
  | nil => exact .inl (List.mem_singleton.mp member)
  | cons first rest ih =>
      unfold insertEntry at member
      split at member
      · rcases List.mem_cons.mp member with same | member
        · exact .inl same
        · exact .inr (List.mem_cons_of_mem _ member)
      · split at member
        · exact List.mem_cons.mp member
        · rcases List.mem_cons.mp member with same | member
          · exact .inr (same ▸ List.mem_cons_self)
          · exact (ih member).imp_right (List.mem_cons_of_mem _)

theorem NamesAscend.insertEntry {entries : Entries} (ascend : NamesAscend entries) (name : String) (node : Node) :
    NamesAscend (insertEntry name node entries) := by
  induction entries with
  | nil => exact List.pairwise_singleton _ _
  | cons first rest ih =>
      obtain ⟨other, child⟩ := first
      obtain ⟨least, ascendRest⟩ := List.pairwise_cons.mp ascend
      unfold Node.insertEntry
      split
      · rename_i same
        subst same
        exact List.pairwise_cons.mpr ⟨least, ascendRest⟩
      · split
        · rename_i before
          refine List.pairwise_cons.mpr ⟨?_, ascend⟩
          intro later member
          rcases List.mem_cons.mp member with same | member
          · exact same ▸ before
          · exact String.lt_trans before (least later member)
        · rename_i different notBefore
          -- names are totally ordered, so the new one goes behind the first
          have behind : other < name := String.not_le.mp fun reverse =>
            different (String.le_antisymm reverse (String.not_lt.mp notBefore))
          refine List.pairwise_cons.mpr ⟨?_, ih ascendRest⟩
          intro later member
          obtain ⟨entry, inserted, rfl⟩ := List.mem_map.mp member
          rcases mem_insertEntry inserted with rfl | member
          · exact behind
          · exact least entry.1 (List.mem_map_of_mem member)

theorem NamesAscend.eraseEntry {entries : Entries} (ascend : NamesAscend entries) (name : String) :
    NamesAscend (eraseEntry name entries) :=
  ascend.sublist (List.filter_sublist.map Prod.fst)

/-- A change that leaves ordered nodes leaves the whole ordered. -/
theorem Ordered.alter {change : Option Node → Option Node} (changed : ∀ node after, change node = some after → after.Ordered)
    {location : Location} {node : Option Node} (ordered : ∀ inner, node = some inner → inner.Ordered)
    {after : Node} (altered : alter change location node = some after) : after.Ordered := by
  induction location generalizing node after with
  | nil => exact changed node after altered
  | cons name rest ih =>
      match node with
      | none => cases altered
      | some (.file text) =>
          cases altered
          exact .file text
      | some (.directory entries) =>
          cases altered
          obtain ⟨ascend, children⟩ := Everywhere.directory_iff.mp (ordered _ rfl)
          have looked : ∀ inner, entries.lookup name = some inner → inner.Ordered :=
            fun inner found => children (name, inner) (mem_of_lookup found)
          unfold alterEntry
          cases altered : Node.alter change rest (entries.lookup name) with
          | none =>
              refine .directory (ascend.eraseEntry name) ?_
              intro entry member
              exact children entry (List.mem_of_mem_filter member)
          | some inner =>
              refine .directory (ascend.insertEntry name inner) ?_
              intro entry member
              rcases mem_insertEntry member with rfl | member
              · exact ih looked altered
              · exact children entry member

theorem Ordered.put {root node : Node} (ordered : root.Ordered) (location : Location) (nodeOrdered : node.Ordered) :
    (root.put location node).Ordered := by
  refine Ordered.alter ?_ ?_ (alter_eq_some_put root node location)
  · rintro _ _ ⟨⟩
    exact nodeOrdered
  · rintro _ ⟨⟩
    exact ordered

theorem Ordered.erase {root : Node} (ordered : root.Ordered) (location : Location) : (root.erase location).Ordered := by
  by_cases deep : location = []
  · subst deep
    exact .directory .nil (List.forall_mem_nil _)
  · refine Ordered.alter ?_ ?_ (alter_eq_some_erase root deep)
    · rintro _ _ ⟨⟩
    · rintro _ ⟨⟩
      exact ordered

/-- Two entries lists that ascend are equal when the same nodes are found in them. -/
theorem NamesAscend.ext {first second : Entries} (one : NamesAscend first) (two : NamesAscend second)
    (same : ∀ name, first.lookup name = second.lookup name) : first = second := by
  have perm := OrderedMap.perm_of_lookup_eq one.nodup two.nodup same
  refine perm.eq_of_pairwise ?_ (List.pairwise_map.mp one) (List.pairwise_map.mp two)
  intro a b _ _ before after
  exact absurd (String.lt_trans before after) (String.lt_irrefl _)

/-- Two nodes, where there are any, are equal when so much shows below both. -/
theorem eq_of_views_eq {first second : Option Node}
    (ext : ∀ one, first = some one → ∀ two, second = some two → one.view = two.view → one = two)
    (same : ∀ rest, (first.bind (get? rest)).map shape = (second.bind (get? rest)).map shape) : first = second := by
  cases first with
  | none =>
      cases second with
      | none => rfl
      | some two => simpa using same []
  | some one =>
      cases second with
      | none => simpa using same []
      | some two =>
          have below : one.view = two.view := by
            funext rest
            simpa [view] using same rest
          exact congrArg some (ext one rfl two rfl below)

theorem Ordered.eq_of_view_eq {first second : Node} (one : first.Ordered) (two : second.Ordered)
    (same : first.view = second.view) : first = second := by
  induction one generalizing second with
  | file text =>
      have top := congrFun same []
      cases second <;> simp [shape] at top
      rw [top]
  | @directory entries ascend children ih =>
      cases two with
      | file text =>
          have top := congrFun same []
          simp [shape] at top
      | @directory others ascendOthers childrenOthers =>
          congr 1
          apply ascend.ext ascendOthers
          intro name
          -- below a name that both have, the two views agree again
          refine eq_of_views_eq ?_ fun rest => congrFun same (name :: rest)
          intro child found other foundOther below
          have otherOrdered := childrenOthers (name, other) (mem_of_lookup foundOther)
          exact ih (name, child) (mem_of_lookup found) otherOrdered below

theorem Ordered.get?_eq_of_below {first second : Node} (one : first.Ordered) (two : second.Ordered)
    {base : Location} (same : first.view.below base = second.view.below base) : first.get? base = second.get? base := by
  refine eq_of_views_eq ?_ ?_
  · intro node found other foundOther below
    exact Ordered.eq_of_view_eq (Everywhere.get? one found) (Everywhere.get? two foundOther) below
  · intro rest
    have shown := congrFun same rest
    rwa [View.below, View.below, view, view, get?_append, get?_append] at shown

end Node

theorem FileTree.eq_of_view_eq {first second : FileTree} (one : first.root.Ordered) (two : second.root.Ordered)
    (here : first.here = second.here) (limits : first.limits = second.limits) (garbled : first.garbled = second.garbled)
    (same : first.root.view = second.root.view) : first = second := by
  cases first
  cases second
  cases here
  cases limits
  cases garbled
  cases Node.Ordered.eq_of_view_eq one two same
  rfl

namespace FileWork

/-- An ordered tree stays ordered. -/
def KeepsOrder (before after : FileTree) : Prop := before.root.Ordered → after.root.Ordered

theorem lasting_keepsOrder : Lasting KeepsOrder where
  same _ ordered := ordered
  compose first second ordered := second (first ordered)

theorem write_keepsOrder (path : Path) (text : String) : Keeps KeepsOrder (write path text) := by
  intro tree ordered
  rw [write_result]
  split
  · exact ordered
  · split
    · exact ordered
    · exact ordered.put _ (.file text)

theorem enter_keepsOrder (location : Node.Location) (component : Component) :
    Keeps KeepsOrder (enter location component) := by
  intro tree ordered
  rw [enter_result]
  split
  · exact ordered
  · split
    · exact ordered.put _ (.directory .nil (List.forall_mem_nil _))
    · split <;> exact ordered

theorem enterAll_keepsOrder (components : List Component) : Keeps KeepsOrder (enterAll components) := by
  apply Keeps.get_bind
  intro tree
  apply Keeps.bind lasting_keepsOrder
  · exact Keeps.foldlM lasting_keepsOrder enter_keepsOrder components tree.here
  · intro _
    exact Keeps.pure lasting_keepsOrder _

theorem createDirectories_keepsOrder (path : Path) : Keeps KeepsOrder (createDirectories path) := by
  apply Keeps.bind lasting_keepsOrder (Keeps.checkPath lasting_keepsOrder path)
  intro _
  apply Keeps.get_bind
  intro tree
  split
  · apply Keeps.bind lasting_keepsOrder (enterAll_keepsOrder _)
    intro _
    exact Keeps.throw lasting_keepsOrder _
  · exact enterAll_keepsOrder _

theorem createParent_keepsOrder (path : Path) : Keeps KeepsOrder (createParent path) :=
  Keeps.bind lasting_keepsOrder (Keeps.checkPath lasting_keepsOrder path.parent) fun _ => enterAll_keepsOrder _

end FileWork

end ApiReference
