import ApiReference.FileTree.Node
import ApiReference.Proofs.Text.Line
import ApiReference.Path.Basic

namespace ApiReference

/-! Paths that were put together part by part: their names, the location they lead to and those
on the way. -/

namespace Component

/-- Where a step leads, whatever is there. -/
def follow (location : Node.Location) : Component → Node.Location
  | .root => []
  | .current => location
  | .parent => location.dropLast
  | .name text => location ++ [text]

/-- The locations that are reached step by step. -/
def way (location : Node.Location) : List Component → List Node.Location
  | [] => []
  | component :: rest => follow location component :: way (follow location component) rest

theorem way_append (location : Node.Location) (first second : List Component) :
    way location (first ++ second) = way location first ++ way (first.foldl follow location) second := by
  induction first generalizing location with
  | nil => rfl
  | cons component rest ih => simp [way, ih]

theorem way_dropLast_subset (location : Node.Location) (components : List Component) :
    way location components.dropLast ⊆ way location components := by
  rcases List.eq_nil_or_concat components with rfl | ⟨front, last, rfl⟩
  · exact List.Subset.refl _
  · rw [List.concat_eq_append, List.dropLast_concat, way_append]
    exact List.subset_append_left _ _

theorem foldl_follow_names (location : Node.Location) (names : List String) :
    (names.map Component.name).foldl follow location = location ++ names := by
  induction names generalizing location with
  | nil => simp
  | cons name rest ih =>
      rw [List.map_cons, List.foldl_cons, ih, follow, List.append_assoc, List.singleton_append]

/-- Following names only leads down. -/
theorem prefix_of_mem_way {location place : Node.Location} {names : List String}
    (member : place ∈ way location (names.map Component.name)) :
    location <+: place ∧ place <+: location ++ names := by
  induction names generalizing location with
  | nil => cases member
  | cons name rest ih =>
      have rejoined : location ++ [name] ++ rest = location ++ name :: rest := by simp
      rcases List.mem_cons.mp member with rfl | member
      · exact ⟨List.prefix_append _ _, rejoined ▸ List.prefix_append (location ++ [name]) rest⟩
      · obtain ⟨down, upTo⟩ := ih member
        exact ⟨(List.prefix_append location [name]).trans down, rejoined ▸ upTo⟩

end Component

namespace Path

/-- The pieces of a path that stand for a step. -/
def names (path : Path) : List String := path.pieces.filter (!isIdle ·)

theorem components_eq (path : Path) :
    path.components = path.start ++ path.names.map pieceComponent := rfl

/-- The location from which the names of a path are followed. -/
def origin (here : Node.Location) (path : Path) : Node.Location :=
  if path.isAbsolute then [] else here

/-- The location that a path leads to, whatever is on the way. -/
def destination (here : Node.Location) (path : Path) : Node.Location :=
  (path.names.map pieceComponent).foldl Component.follow (path.origin here)

/-- Where a path starts and all locations that it leads through. -/
def stations (here : Node.Location) (path : Path) : List Node.Location :=
  path.origin here :: Component.way (path.origin here) (path.names.map pieceComponent)

theorem foldl_follow_components (here : Node.Location) (path : Path) :
    path.components.foldl Component.follow here = path.destination here := by
  have started : path.start.foldl Component.follow here = path.origin here := by
    unfold start origin
    split
    · rfl
    · split <;> rfl
  rw [components_eq, List.foldl_append, started, destination]

theorem startsWith_slash_eq_false_iff {text : String} :
    Text.startsWith "/" text = false ↔ text.toList.head? ≠ some '/' := by
  rw [Text.startsWith, ← Bool.not_eq_true, List.isPrefixOf_iff_prefix]
  change ¬ ['/'] <+: text.toList ↔ _
  cases text.toList with
  | nil => simp
  | cons c rest => simp [List.cons_prefix_cons, eq_comm]

theorem push_of_relative {part : String} (relative : Text.startsWith "/" part = false) (path : Path) :
    path.push part =
      if path.text = "" ∨ path.text.toList.getLast? = some '/' then ⟨path.text ++ part⟩
      else ⟨path.text ++ "/" ++ part⟩ := by
  simp [push, relative]

theorem pieces_append_slash (first second : String) :
    (Path.mk (first ++ "/" ++ second)).pieces = (Path.mk first).pieces ++ (Path.mk second).pieces := by
  have written : (first ++ "/" ++ second).toList = first.toList ++ '/' :: second.toList := by
    simp
  simp only [pieces, Text.splitOn, written, Chars.splitOn_eq, List.splitOn_append_cons_self, List.map_append]

theorem pieces_slash (text : String) : (Path.mk ("/" ++ text)).pieces = "" :: (Path.mk text).pieces := by
  have cut := pieces_append_slash "" text
  rwa [String.empty_append] at cut

theorem eq_of_pieces_eq {first second : String} (same : (Path.mk first).pieces = (Path.mk second).pieces) :
    first = second :=
  Text.splitOn_injective '/' same

theorem pieces_ne_nil (path : Path) : path.pieces ≠ [] := by
  simp [pieces, Text.splitOn, Chars.splitOn_eq, List.splitOn_ne_nil]

theorem names_append_slash (first second : String) :
    (Path.mk (first ++ "/" ++ second)).names = (Path.mk first).names ++ (Path.mk second).names := by
  simp only [names, pieces_append_slash, List.filter_append]

/-- The pieces of a pushed path are those of the path, up to an empty one, and of the part. -/
theorem pieces_push {path : Path} (nonempty : path.text ≠ "") {part : String}
    (relative : Text.startsWith "/" part = false) :
    ∃ front, (path.pieces = front ∨ path.pieces = front ++ [""]) ∧
      (path.push part).pieces = front ++ (Path.mk part).pieces := by
  rw [push_of_relative relative]
  by_cases slash : path.text.toList.getLast? = some '/'
  · rw [if_pos (.inr slash)]
    obtain ⟨front, written⟩ := List.getLast?_eq_some_iff.mp slash
    refine ⟨Text.splitOn '/' (String.ofList front), .inr ?_, ?_⟩
    · simp only [pieces, Text.splitOn, written, Chars.splitOn_eq, String.toList_ofList,
        List.splitOn_append_cons_self]
      simp
    · simp only [pieces, Text.splitOn, String.toList_append, written, Chars.splitOn_eq,
        String.toList_ofList, List.append_assoc, List.singleton_append, List.splitOn_append_cons_self,
        List.map_append]
  · rw [if_neg (not_or.mpr ⟨nonempty, slash⟩)]
    exact ⟨path.pieces, .inl rfl, pieces_append_slash path.text part⟩

theorem names_push (path : Path) {part : String} (relative : Text.startsWith "/" part = false) :
    (path.push part).names = path.names ++ (Path.mk part).names := by
  by_cases nonempty : path.text = ""
  · have noNames : path.names = [] := by
      simp only [names, pieces, nonempty]
      rfl
    rw [push_of_relative relative, if_pos (.inl nonempty), noNames, nonempty]
    simp
  · obtain ⟨front, own, pushed⟩ := pieces_push nonempty relative
    unfold names
    rw [pushed, List.filter_append]
    rcases own with own | own
    · rw [own]
    · have idle : [""].filter (!isIdle ·) = [] := by decide
      rw [own, List.filter_append, idle, List.append_nil]

theorem isAbsolute_push (path : Path) {part : String} (relative : Text.startsWith "/" part = false) :
    (path.push part).isAbsolute = path.isAbsolute := by
  by_cases nonempty : path.text = ""
  · rw [push_of_relative relative, if_pos (.inl nonempty)]
    rw [isAbsolute, isAbsolute, nonempty, String.empty_append, relative]
    rfl
  · obtain ⟨c, rest, written⟩ := List.exists_cons_of_ne_nil (show path.text.toList ≠ [] by simpa using nonempty)
    rw [push_of_relative relative]
    split <;> simp [isAbsolute, Text.startsWith, written, List.isPrefixOf]

theorem fileName?_of_names {path : Path} {front : List String} {last : String}
    (split : path.names = front ++ [last]) : path.fileName? = if last = ".." then none else some last := by
  have final : path.components.getLast? = some (pieceComponent last) := by
    rw [components_eq, split, List.map_append, ← List.append_assoc, List.map_singleton]
    exact List.getLast?_concat
  unfold fileName?
  rw [final]
  by_cases up : last = ".."
  · simp [pieceComponent, up]
  · simp [pieceComponent, up]

theorem map_pieceComponent {names : List String} (plain : ".." ∉ names) :
    names.map pieceComponent = names.map Component.name := by
  apply List.map_congr_left
  intro name member
  have other : name ≠ ".." := fun same => plain (same ▸ member)
  simp [pieceComponent, other]

theorem destination_of_plain {path : Path} (plain : ".." ∉ path.names) (here : Node.Location) :
    path.destination here = path.origin here ++ path.names := by
  rw [destination, map_pieceComponent plain, Component.foldl_follow_names]

/-- A part without steps up leads on from where the path leads. -/
theorem destination_push (here : Node.Location) (path : Path) {part : String}
    (relative : Text.startsWith "/" part = false) (plain : ".." ∉ (Path.mk part).names) :
    (path.push part).destination here = path.destination here ++ (Path.mk part).names := by
  unfold destination origin
  rw [isAbsolute_push path relative, names_push path relative, List.map_append, List.foldl_append,
    map_pieceComponent plain, Component.foldl_follow_names]

/-- Without steps up there are no detours. -/
theorem prefix_destination_of_mem_way {path : Path} (plain : ".." ∉ path.names)
    {here place : Node.Location} (member : place ∈ Component.way here path.components) :
    place <+: path.destination here := by
  rw [destination_of_plain plain, origin]
  rw [components_eq, map_pieceComponent plain, start] at member
  split at member
  · rename_i absolute
    rw [if_pos absolute]
    rcases List.mem_cons.mp member with rfl | member
    · exact List.nil_prefix
    · exact (Component.prefix_of_mem_way member).2
  · rename_i relative
    rw [if_neg relative]
    split at member
    · rcases List.mem_cons.mp member with rfl | member
      · exact List.prefix_append _ _
      · exact (Component.prefix_of_mem_way member).2
    · exact (Component.prefix_of_mem_way member).2

/-- A part without a slash is one name, or none at all. -/
theorem names_of_slashFree {part : String} (slashFree : '/' ∉ part.toList) :
    (Path.mk part).names = if isIdle part then [] else [part] := by
  simp only [names, pieces, Text.splitOn_of_not_mem slashFree, List.filter_singleton]
  cases isIdle part <;> rfl

theorem relative_of_slashFree {part : String} (slashFree : '/' ∉ part.toList) :
    Text.startsWith "/" part = false := by
  rw [startsWith_slash_eq_false_iff]
  exact fun slash => slashFree (List.mem_of_mem_head? slash)

end Path

end ApiReference
