import ApiReference.Proofs.FileTree.View
import ApiReference.Proofs.FileTree.Work
import ApiReference.Proofs.Path.Push

namespace ApiReference

/-! What one operation on a file tree can do to its view. -/

namespace FileTree

def view (tree : FileTree) : View := tree.root.view

theorem isDirectoryAt_iff {root : Node} {location : Node.Location} :
    isDirectoryAt root location = true ↔ root.view location = some .directory := by
  unfold isDirectoryAt Node.view
  cases root.get? location with
  | none => simp
  | some node => cases node <;> simp [Node.isDirectory, Node.shape]

theorem step?_name_eq_some_iff {tree : FileTree} {location next : Node.Location} {name : String} :
    tree.step? location (.name name) = some next ↔
      tree.view location = some .directory ∧ tree.limits.admitsName name = true ∧ next = location ++ [name] := by
  simp only [step?, view, ← isDirectoryAt_iff]
  cases isDirectoryAt tree.root location <;> cases tree.limits.admitsName name <;> simp [eq_comm]

theorem step?_current_eq_some_iff {tree : FileTree} {location next : Node.Location} :
    tree.step? location .current = some next ↔ tree.view location = some .directory ∧ next = location := by
  simp only [step?, view, ← isDirectoryAt_iff]
  cases isDirectoryAt tree.root location <;> simp [eq_comm]

theorem step?_parent_eq_some_iff {tree : FileTree} {location next : Node.Location} :
    tree.step? location .parent = some next ↔
      tree.view location = some .directory ∧ next = location.dropLast := by
  simp only [step?, view, ← isDirectoryAt_iff]
  cases isDirectoryAt tree.root location <;> simp [eq_comm]

theorem view_dropLast {tree : FileTree} {location : Node.Location}
    (standing : tree.view location = some .directory) :
    tree.view location.dropLast = some .directory := by
  rcases List.eq_nil_or_concat location with rfl | ⟨front, name, rfl⟩
  · exact standing
  · rw [List.concat_eq_append] at standing
    rw [List.concat_eq_append, List.dropLast_concat]
    exact Node.view_of_append (List.cons_ne_nil name []) standing

theorem locate?_eq_some_iff {tree : FileTree} {path : Path} {location : Node.Location} :
    tree.locate? path = some location ↔
      tree.limits.admits path = true ∧ path.components ≠ [] ∧
        path.components.foldlM tree.step? tree.here = some location := by
  unfold locate?
  cases tree.limits.admits path with
  | false => simp
  | true => cases path.components <;> simp

theorem step?_eq_follow {tree : FileTree} {location next : Node.Location} {component : Component}
    (stepped : tree.step? location component = some next) : next = component.follow location := by
  cases component with
  | root => exact (Option.some.inj stepped).symm
  | current => exact (step?_current_eq_some_iff.mp stepped).2
  | parent => exact (step?_parent_eq_some_iff.mp stepped).2
  | name name => exact (step?_name_eq_some_iff.mp stepped).2.2

theorem locate?_eq_destination {tree : FileTree} {path : Path} {location : Node.Location}
    (found : tree.locate? path = some location) : location = path.destination tree.here := by
  obtain ⟨_, _, walked⟩ := locate?_eq_some_iff.mp found
  rw [← Path.foldl_follow_components]
  generalize path.components = components at walked
  generalize tree.here = start at walked
  induction components generalizing start with
  | nil => exact (Option.some.inj walked).symm
  | cons component rest ih =>
      rw [List.foldlM_cons] at walked
      obtain ⟨next, stepped, rested⟩ := Option.bind_eq_some_iff.mp walked
      rw [ih next rested, step?_eq_follow stepped, List.foldl_cons]

/-- The last name of a path is looked for in a directory. -/
theorem exists_of_locate?_of_fileName? {tree : FileTree} {path : Path} {location : Node.Location}
    (found : tree.locate? path = some location) (named : path.fileName?.isNone = false) :
    ∃ above name, location = above ++ [name] ∧ tree.view above = some .directory := by
  obtain ⟨_, _, walked⟩ := locate?_eq_some_iff.mp found
  rcases List.eq_nil_or_concat path.components with none | ⟨front, last, split⟩
  · simp [Path.fileName?, none] at named
  · rw [List.concat_eq_append] at split
    rw [split, List.foldlM_append] at walked
    obtain ⟨above, _, stepped⟩ := Option.bind_eq_some_iff.mp walked
    cases last with
    | name name =>
        simp only [List.foldlM_cons, List.foldlM_nil, Option.bind_eq_bind] at stepped
        obtain ⟨next, stepped, ended⟩ := Option.bind_eq_some_iff.mp stepped
        obtain ⟨inside, _, rfl⟩ := step?_name_eq_some_iff.mp stepped
        cases ended
        exact ⟨above, name, rfl, inside⟩
    | root => simp [Path.fileName?, split] at named
    | current => simp [Path.fileName?, split] at named
    | parent => simp [Path.fileName?, split] at named

theorem exists_locate?_of_node? {tree : FileTree} {path : Path} {node : Node}
    (held : tree.node? path = some node) :
    ∃ location, tree.locate? path = some location ∧ tree.root.get? location = some node := by
  unfold node? at held
  simp only [Option.bind_eq_bind] at held
  obtain ⟨location, found, held⟩ := Option.bind_eq_some_iff.mp held
  obtain ⟨other, present, chosen⟩ := Option.bind_eq_some_iff.mp held
  split at chosen
  · cases chosen
  · cases chosen
    exact ⟨location, found, present⟩

theorem node?_of_locate? {tree : FileTree} {path : Path} {location : Node.Location}
    (found : tree.locate? path = some location) {node : Node} (held : tree.root.get? location = some node)
    (kind : path.asksDirectory = true → node.isDirectory = true) :
    tree.node? path = some node := by
  unfold node?
  simp only [found, held, Option.bind_eq_bind, Option.bind_some]
  cases asks : path.asksDirectory with
  | false => rfl
  | true => simp [kind asks]

theorem exists_node?_of_isFile {tree : FileTree} {path : Path} (isFile : tree.isFile path = true) :
    ∃ node, tree.node? path = some node := by
  unfold FileTree.isFile at isFile
  split at isFile
  · exact ⟨_, by assumption⟩
  · cases isFile

theorem exists_node?_of_isDirectory {tree : FileTree} {path : Path}
    (isDirectory : tree.isDirectory path = true) : ∃ node, tree.node? path = some node := by
  unfold FileTree.isDirectory at isDirectory
  split at isDirectory
  · exact ⟨_, by assumption⟩
  · cases isDirectory

theorem isDirectory_iff_of_locate? {tree : FileTree} {path : Path} {location : Node.Location}
    (found : tree.locate? path = some location) :
    tree.isDirectory path = true ↔ tree.view location = some .directory := by
  unfold isDirectory node? view Node.view
  simp only [found, Option.bind_eq_bind, Option.bind_some]
  cases tree.root.get? location with
  | none => simp
  | some node => cases node <;> cases path.asksDirectory <;> simp [Node.isDirectory, Node.shape]

end FileTree

namespace Node

/-- Something without entries that is put into a directory, where there is no directory. -/
theorem view_put_leaf {root node : Node} {above : Location} {name : String}
    (inside : root.view above = some .directory) (free : root.view (above ++ [name]) ≠ some .directory)
    (leaf : node.entries = []) :
    (root.put (above ++ [name]) node).view = root.view.lay (above ++ [name]) node.shape := by
  have bare : ∀ first more, node.view (first :: more) = none := by
    intro first more
    cases node with
    | file text => rfl
    | directory entries =>
        cases leaf
        rfl
  funext location
  by_cases under : above ++ [name] <+: location
  · obtain ⟨rest, rfl⟩ := under
    rw [List.append_assoc, List.singleton_append, view_put_inside name inside]
    cases rest with
    | nil => rw [View.lay_self, view_nil]
    | cons first more =>
        have nothing : root.view (above ++ name :: first :: more) = none := by
          by_contra held
          obtain ⟨shape, held⟩ := Option.ne_none_iff_exists'.mp held
          exact free (view_of_append (List.cons_ne_nil first more) (by simpa using held))
        rw [bare, View.lay_elsewhere, nothing]
        intro begins
        have longer := begins.length_le
        simp at longer
  · rw [view_put_elsewhere under]
    by_cases onWay : location <+: above ++ [name]
    · have other : location ≠ above ++ [name] := fun same => under (same ▸ List.prefix_rfl)
      have upTo : location <+: above := by simpa using prefix_dropLast onWay other
      rw [View.lay_above _ _ onWay other, view_of_prefix upTo inside]
    · rw [View.lay_elsewhere _ _ onWay]

end Node

namespace FileWork

/-- Writing fails without a trace, or lays a file into a directory where no directory is. -/
theorem write_cases (path : Path) (text : String) (tree : FileTree) :
    result (write path text) tree = (.error .fileTree, tree) ∨
      ∃ after, result (write path text) tree = (.ok (), after) ∧ path.fileName?.isNone = false ∧
        tree.view (path.destination tree.here) ≠ some .directory ∧
        tree.view (path.destination tree.here).dropLast = some .directory ∧
        after.here = tree.here ∧ after.limits = tree.limits ∧ after.garbled = tree.garbled ∧
        after.view = tree.view.lay (path.destination tree.here) (.file text) := by
  rw [write_result]
  cases found : tree.locate? path with
  | none => exact .inl rfl
  | some location =>
      by_cases refused : (path.asksDirectory || path.fileName?.isNone || tree.isDirectory path) = true
      · exact .inl (if_pos refused)
      · right
        simp only [refused, Bool.false_eq_true, if_false]
        simp only [Bool.not_eq_true, Bool.or_eq_false_iff] at refused
        obtain ⟨above, name, rfl, inside⟩ := FileTree.exists_of_locate?_of_fileName? found refused.1.2
        have free : tree.view (above ++ [name]) ≠ some .directory := by
          intro directory
          rw [(FileTree.isDirectory_iff_of_locate? found).mpr directory] at refused
          cases refused.2
        rw [← FileTree.locate?_eq_destination found]
        exact ⟨_, rfl, refused.1.2, free, by simpa using inside, rfl, rfl, rfl, Node.view_put_leaf inside free rfl⟩

/-- Entering fails without a trace, finds a directory, or lays one where nothing is. -/
theorem enter_cases (location : Node.Location) (component : Component) (tree : FileTree) :
    result (enter location component) tree = (.error .fileTree, tree) ∨
      (result (enter location component) tree = (.ok (component.follow location), tree) ∧
        tree.view (component.follow location) = some .directory) ∨
      ∃ after, result (enter location component) tree = (.ok (component.follow location), after) ∧
        tree.view (component.follow location) = none ∧
        tree.view (component.follow location).dropLast = some .directory ∧
        after.here = tree.here ∧ after.limits = tree.limits ∧ after.garbled = tree.garbled ∧
        after.view = tree.view.lay (component.follow location) .directory := by
  rw [enter_result]
  cases stepped : tree.step? location component with
  | none => exact .inl rfl
  | some next =>
      simp only
      cases held : tree.root.get? next with
      | some node =>
          cases node with
          | file text => exact .inl rfl
          | directory entries =>
              rw [← FileTree.step?_eq_follow stepped]
              exact .inr (.inl ⟨rfl, Node.view_eq_directory_iff.mpr ⟨entries, held⟩⟩)
      | none =>
          have missing : tree.view next = none := Node.view_eq_none_iff.mpr held
          cases component with
          | name name =>
              obtain ⟨inside, _, rfl⟩ := FileTree.step?_name_eq_some_iff.mp stepped
              refine .inr (.inr ⟨_, rfl, missing, by simpa [Component.follow] using inside, rfl, rfl, rfl, ?_⟩)
              exact Node.view_put_leaf inside (by rw [← FileTree.view, missing]; simp) rfl
          | root =>
              cases stepped
              simp at held
          | current =>
              obtain ⟨standing, rfl⟩ := FileTree.step?_current_eq_some_iff.mp stepped
              rw [standing] at missing
              cases missing
          | parent =>
              obtain ⟨standing, rfl⟩ := FileTree.step?_parent_eq_some_iff.mp stepped
              -- where a directory is, the one that holds it cannot be missing
              rw [FileTree.view_dropLast standing] at missing
              cases missing

end FileWork

end ApiReference
