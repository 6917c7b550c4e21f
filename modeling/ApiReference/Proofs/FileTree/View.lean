import ApiReference.FileTree.Basic
import ApiReference.Proofs.OrderedMap

namespace ApiReference

/-! What is at the locations of a file tree: a directory, a file with its text, or nothing.

The order in which a directory keeps its entries does not show in the view of a tree. -/

inductive Shape where
  | directory
  | file (text : String)
deriving DecidableEq

/-- What is at each location. -/
abbrev View := Node.Location → Option Shape

namespace View

/-- An empty directory. -/
def empty : View := fun location => if location = [] then some .directory else none

/-- What is below a location, as seen from there. -/
def below (view : View) (base : Node.Location) : View := fun location => view (base ++ location)

/-- Puts something at a place and makes the directories above it. -/
def lay (view : View) (place : Node.Location) (shape : Shape) : View := fun location =>
  if location = place then some shape
  else if location <+: place then some .directory
  else view location

/-- Lays one item after the other, so that of two items at one place the later one stays. -/
def overlay (view : View) (items : List (Node.Location × Shape)) : View :=
  items.foldl (fun view item => view.lay item.1 item.2) view

end View

namespace Node

def shape : Node → Shape
  | .directory _ => .directory
  | .file text => .file text

def view (root : Node) : View := fun location => (root.get? location).map shape

@[simp] theorem get?_nil (root : Node) : root.get? [] = some root := by
  cases root <;> rfl

@[simp] theorem view_nil (root : Node) : root.view [] = some root.shape := by
  simp [view]

theorem bind_get?_nil (node : Option Node) : node.bind (get? []) = node := by
  cases node <;> simp

theorem get?_append (root : Node) (first second : Location) :
    root.get? (first ++ second) = (root.get? first).bind (get? second) := by
  induction first generalizing root with
  | nil => simp
  | cons name rest ih =>
      cases root with
      | file text => rfl
      | directory entries =>
          cases found : entries.lookup name with
          | none => simp [get?, found]
          | some child => simpa [get?, found] using ih child

theorem get?_directory_cons (entries : Entries) (name : String) (rest : Location) :
    (directory entries).get? (name :: rest) = (entries.lookup name).bind (get? rest) := rfl

theorem view_eq_directory_iff {root : Node} {location : Location} :
    root.view location = some .directory ↔ ∃ entries, root.get? location = some (.directory entries) := by
  unfold view
  cases root.get? location with
  | none => simp
  | some node => cases node <;> simp [shape]

theorem view_eq_file_iff {root : Node} {location : Location} {text : String} :
    root.view location = some (.file text) ↔ root.get? location = some (.file text) := by
  unfold view
  cases root.get? location with
  | none => simp
  | some node => cases node <;> simp [shape]

theorem view_eq_none_iff {root : Node} {location : Location} :
    root.view location = none ↔ root.get? location = none := by
  simp [view]

theorem view_append_of_absent {root : Node} {location : Location} (absent : root.view location = none) (rest : Location) :
    root.view (location ++ rest) = none := by
  rw [view_eq_none_iff] at absent ⊢
  rw [get?_append, absent, Option.bind_none]

theorem mem_keys_of_view {root : Node} {location : Location} {entries : Entries} {name : String}
    (held : root.get? location = some (.directory entries)) (present : root.view (location ++ [name]) ≠ none) :
    name ∈ entries.map Prod.fst := by
  rw [ne_eq, view_eq_none_iff, get?_append, held, Option.bind_some, get?_directory_cons, bind_get?_nil] at present
  by_contra absent
  apply present
  rw [List.lookup_eq_none_iff]
  intro entry member
  simp only [bne_iff_ne, ne_eq]
  rintro rfl
  exact absent (List.mem_map_of_mem member)

theorem view_of_mem_keys {root : Node} {location : Location} {entries : Entries} {name : String}
    (held : root.get? location = some (.directory entries)) (member : name ∈ entries.map Prod.fst) :
    root.view (location ++ [name]) ≠ none := by
  rw [ne_eq, view_eq_none_iff, get?_append, held, Option.bind_some, get?_directory_cons, bind_get?_nil,
    List.lookup_eq_none_iff]
  intro absent
  obtain ⟨entry, listed, rfl⟩ := List.mem_map.mp member
  simpa using absent entry listed

/-- All that stands somewhere stands in a directory. -/
theorem view_of_append {root : Node} {location rest : Location} (more : rest ≠ []) {shape : Shape}
    (held : root.view (location ++ rest) = some shape) : root.view location = some .directory := by
  obtain ⟨name, others, rfl⟩ := List.exists_cons_of_ne_nil more
  rw [view_eq_directory_iff]
  unfold view at held
  rw [get?_append] at held
  cases found : root.get? location with
  | none => simp [found] at held
  | some node =>
      cases node with
      | directory entries => exact ⟨entries, rfl⟩
      | file text => simp [found, get?] at held

theorem view_of_prefix {root : Node} {location place : Location} (above : location <+: place)
    (held : root.view place = some .directory) : root.view location = some .directory := by
  obtain ⟨rest, rfl⟩ := above
  cases rest with
  | nil => simpa using held
  | cons name more => exact view_of_append (List.cons_ne_nil name more) held

theorem prefix_dropLast {location place : Location} (above : location <+: place)
    (other : location ≠ place) : location <+: place.dropLast := by
  obtain ⟨rest, rfl⟩ := above
  have more : rest ≠ [] := by
    rintro rfl
    simp at other
  rw [List.dropLast_append_of_ne_nil more]
  exact List.prefix_append location rest.dropLast

theorem lookup_insertEntry (name : String) (node : Node) (entries : Entries) (wanted : String) :
    (insertEntry name node entries).lookup wanted =
      if wanted = name then some node else entries.lookup wanted := by
  induction entries with
  | nil => simp [insertEntry, OrderedMap.lookup_cons_eq_ite]
  | cons entry rest ih =>
      obtain ⟨other, child⟩ := entry
      unfold insertEntry
      split
      · rename_i same
        subst same
        simp only [OrderedMap.lookup_cons_eq_ite]
        split <;> rfl
      · split
        · simp only [OrderedMap.lookup_cons_eq_ite]
        · rename_i different _
          simp only [OrderedMap.lookup_cons_eq_ite, ih]
          by_cases found : wanted = other
          · simp [found, Ne.symm different]
          · simp [found]

theorem lookup_eraseEntry (name : String) (entries : Entries) (wanted : String) :
    (eraseEntry name entries).lookup wanted = if wanted = name then none else entries.lookup wanted := by
  induction entries with
  | nil => simp [eraseEntry]
  | cons entry rest ih =>
      obtain ⟨other, child⟩ := entry
      unfold eraseEntry at ih ⊢
      by_cases same : other = name
      · subst same
        simp only [List.filter_cons, ne_eq, not_true_eq_false, decide_false, Bool.false_eq_true, if_false, ih,
          OrderedMap.lookup_cons_eq_ite]
        split <;> rfl
      · simp only [List.filter_cons, ne_eq, same, not_false_eq_true, decide_true, if_true, OrderedMap.lookup_cons_eq_ite, ih]
        by_cases found : wanted = other
        · simp [found, same]
        · simp [found]

theorem lookup_alterEntry (name : String) (change : Option Node → Option Node) (entries : Entries)
    (wanted : String) :
    (alterEntry name change entries).lookup wanted =
      if wanted = name then change (entries.lookup name) else entries.lookup wanted := by
  unfold alterEntry
  cases changed : change (entries.lookup name) with
  | none => rw [lookup_eraseEntry]
  | some node => rw [lookup_insertEntry]

/-- A change at a location shows in no view from elsewhere. -/
theorem view_alter (change : Option Node → Option Node) {location other : Location}
    (apart : ¬ location <+: other) (node : Option Node) :
    ((alter change location node).bind (get? other)).map shape = (node.bind (get? other)).map shape := by
  induction location generalizing other node with
  | nil => exact absurd List.nil_prefix apart
  | cons name rest ih =>
      match node with
      | none => rfl
      | some (.file text) => rfl
      | some (.directory entries) =>
          cases other with
          | nil => rfl
          | cons wanted more =>
              simp only [alter, Option.bind_some, get?_directory_cons, lookup_alterEntry]
              by_cases same : wanted = name
              · -- both paths go into the entry that changes, and part further down
                subst same
                rw [if_pos rfl]
                exact ih (fun begins => apart (List.cons_prefix_cons.mpr ⟨rfl, begins⟩)) _
              · rw [if_neg same]

/-- At a location in a directory the change applies to what is there. -/
theorem get?_alter (change : Option Node → Option Node) {location : Location} (name : String)
    {root : Node} (inside : root.view location = some .directory) (rest : Location) :
    (alter change (location ++ [name]) (some root)).bind (get? (location ++ name :: rest)) =
      (change (root.get? (location ++ [name]))).bind (get? rest) := by
  induction location generalizing root with
  | nil =>
      obtain ⟨entries, held⟩ := view_eq_directory_iff.mp inside
      rw [get?_nil] at held
      cases held
      simp only [List.nil_append, alter, Option.bind_some, get?_directory_cons, lookup_alterEntry, if_true,
        bind_get?_nil]
  | cons first more ih =>
      match root with
      | .file text => cases inside
      | .directory entries =>
          cases found : entries.lookup first with
          | none => simp [view, get?_directory_cons, found] at inside
          | some child =>
              have childInside : child.view more = some .directory := by
                simpa [view, get?_directory_cons, found] using inside
              have changed := ih childInside
              simpa [alter, get?_directory_cons, lookup_alterEntry, found] using changed

theorem alter_eq_some_put (root node : Node) (location : Location) :
    alter (fun _ => some node) location (some root) = some (root.put location node) := by
  unfold put
  match location, root with
  | [], _ => rfl
  | _ :: _, .directory _ => rfl
  | _ :: _, .file _ => rfl

theorem view_put_elsewhere {location other : Location} (apart : ¬ location <+: other) (root node : Node) :
    (root.put location node).view other = root.view other := by
  have same := view_alter (fun _ => some node) apart (some root)
  rwa [alter_eq_some_put] at same

theorem view_put_inside {location : Location} (name : String) {root : Node}
    (inside : root.view location = some .directory) (node : Node) (rest : Location) :
    (root.put (location ++ [name]) node).view (location ++ name :: rest) = node.view rest := by
  have changed := get?_alter (fun _ => some node) name inside rest
  rw [alter_eq_some_put, Option.bind_some, Option.bind_some] at changed
  rw [view, changed, view]

theorem view_put_below {location : Location} {root : Node} {entries : Entries}
    (held : root.get? location = some (.directory entries)) (node : Node) (rest : Location) :
    (root.put location node).view (location ++ rest) = node.view rest := by
  rcases List.eq_nil_or_concat location with rfl | ⟨front, name, rfl⟩
  · rfl
  · rw [List.concat_eq_append] at held ⊢
    have inside : root.view front = some .directory :=
      view_of_append (List.cons_ne_nil name []) (view_eq_directory_iff.mpr ⟨entries, held⟩)
    rw [List.append_assoc, List.singleton_append, view_put_inside name inside]

theorem alter_eq_some_erase (root : Node) {location : Location} (deep : location ≠ []) :
    alter (fun _ => none) location (some root) = some (root.erase location) := by
  unfold erase
  match location, root with
  | [], _ => exact absurd rfl deep
  | _ :: _, .directory _ => rfl
  | _ :: _, .file _ => rfl

theorem view_erase_elsewhere {location other : Location} (apart : ¬ location <+: other) (root : Node) :
    (root.erase location).view other = root.view other := by
  have deep : location ≠ [] := by
    rintro rfl
    exact apart List.nil_prefix
  have same := view_alter (fun _ => none) apart (some root)
  rwa [alter_eq_some_erase root deep] at same

/-- Nothing is left below a location that was erased. -/
theorem view_erase_below {location rest : Location} (more : rest ≠ []) {root : Node} {entries : Entries}
    (held : root.get? location = some (.directory entries)) :
    (root.erase location).view (location ++ rest) = none := by
  rcases List.eq_nil_or_concat location with rfl | ⟨front, name, rfl⟩
  · obtain ⟨name, others, rfl⟩ := List.exists_cons_of_ne_nil more
    rfl
  · rw [List.concat_eq_append] at held ⊢
    have inside : root.view front = some .directory :=
      view_of_append (List.cons_ne_nil name []) (view_eq_directory_iff.mpr ⟨entries, held⟩)
    have changed := get?_alter (fun _ => none) name inside rest
    rw [alter_eq_some_erase root (by simp), Option.bind_some, Option.bind_none] at changed
    rw [List.append_assoc, List.singleton_append, view_eq_none_iff, changed]

end Node

namespace View

theorem lay_self (view : View) (place : Node.Location) (shape : Shape) :
    view.lay place shape place = some shape := if_pos rfl

theorem lay_above (view : View) {place location : Node.Location} (shape : Shape) (above : location <+: place)
    (other : location ≠ place) : view.lay place shape location = some .directory := by
  rw [lay, if_neg other, if_pos above]

theorem lay_elsewhere (view : View) {place location : Node.Location} (shape : Shape)
    (apart : ¬ location <+: place) : view.lay place shape location = view location := by
  have other : location ≠ place := by
    rintro rfl
    exact apart List.prefix_rfl
  rw [lay, if_neg other, if_neg apart]

theorem below_lay (view : View) (base place : Node.Location) (shape : Shape) :
    (view.lay (base ++ place) shape).below base = (view.below base).lay place shape := by
  funext location
  simp [below, lay]

theorem below_overlay (view : View) (base : Node.Location) (items : List (Node.Location × Shape)) :
    (view.overlay (items.map fun item => (base ++ item.1, item.2))).below base = (view.below base).overlay items := by
  induction items generalizing view with
  | nil => rfl
  | cons item rest ih =>
      change View.below (View.overlay (view.lay (base ++ item.1) item.2) _) base = _
      rw [ih, below_lay]
      rfl

end View

end ApiReference
