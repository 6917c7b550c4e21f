import ApiReference.Proofs.FileTree.Growth
import ApiReference.Proofs.FileTree.Overlay
import ApiReference.Proofs.Path.Parts

namespace ApiReference

/-! When operations on a file tree succeed: the limits allow the path, and neither is a file on the
way nor a directory in the place of a file. -/

/-- A path within the limits: its text and each of its names. -/
structure Limits.Allows (limits : Limits) (path : Path) : Prop where
  text : limits.admits path = true
  names : ∀ name ∈ path.names, limits.admitsName name = true

theorem Limits.unlimited_allows (path : Path) : unlimited.Allows path := ⟨rfl, fun _ _ => rfl⟩

namespace FileTree

variable {tree : FileTree} {path : Path}

theorem foldlM_step?_names {location : Node.Location} {names : List String}
    (standing : tree.view (location ++ names.dropLast) = some .directory)
    (admitted : ∀ name ∈ names, tree.limits.admitsName name = true) :
    (names.map Component.name).foldlM tree.step? location = some (location ++ names) := by
  induction names generalizing location with
  | nil => simp
  | cons name rest ih =>
      have inside : tree.view location = some .directory :=
        Node.view_of_prefix (List.prefix_append location _) standing
      have stepped : tree.step? location (.name name) = some (location ++ [name]) :=
        step?_name_eq_some_iff.mpr ⟨inside, admitted name List.mem_cons_self, rfl⟩
      rw [List.map_cons, List.foldlM_cons, stepped]
      cases rest with
      | nil => rfl
      | cons next others =>
          have walked := @ih (location ++ [name]) (by simpa using standing)
            fun other member => admitted other (List.mem_cons_of_mem _ member)
          simpa using walked

theorem foldlM_step?_start (base : tree.view (path.origin tree.here) = some .directory) :
    path.start.foldlM tree.step? tree.here = some (path.origin tree.here) := by
  unfold Path.start Path.origin at *
  split
  · rfl
  · rename_i relative
    rw [if_neg relative] at base
    split
    · rw [List.foldlM_cons, step?_current_eq_some_iff.mpr ⟨base, rfl⟩]
      rfl
    · rfl

/-- A path without steps up leads where it says if all but its end is there. -/
theorem locate?_of_plain (plain : ".." ∉ path.names) (steps : path.names ≠ []) (allowed : tree.limits.Allows path)
    (standing : tree.view (path.destination tree.here).dropLast = some .directory) :
    tree.locate? path = some (path.destination tree.here) := by
  rw [Path.destination_of_plain plain, List.dropLast_append_of_ne_nil steps] at standing
  have base : tree.view (path.origin tree.here) = some .directory :=
    Node.view_of_prefix (List.prefix_append _ _) standing
  refine locate?_eq_some_iff.mpr ⟨allowed.text, by simp [Path.components_eq, steps], ?_⟩
  rw [Path.components_eq, Path.map_pieceComponent plain, List.foldlM_append, foldlM_step?_start base,
    Path.destination_of_plain plain]
  exact foldlM_step?_names standing allowed.names

theorem admitsName_of_foldlM_step? {components : List Component} {location reached : Node.Location}
    (walked : components.foldlM tree.step? location = some reached) {name : String} (member : .name name ∈ components) :
    tree.limits.admitsName name = true := by
  induction components generalizing location with
  | nil => cases member
  | cons component rest ih =>
      rw [List.foldlM_cons] at walked
      obtain ⟨next, stepped, rested⟩ := Option.bind_eq_some_iff.mp walked
      rcases List.mem_cons.mp member with rfl | member
      · exact (step?_name_eq_some_iff.mp stepped).2.1
      · exact ih rested member

theorem name_mem_components (plain : ".." ∉ path.names) {name : String} (member : name ∈ path.names) :
    .name name ∈ path.components := by
  rw [Path.components_eq, Path.map_pieceComponent plain]
  exact List.mem_append_right _ (List.mem_map_of_mem member)

section Unchanged

variable {before after : FileTree}

theorem step?_of_kept {location next : Node.Location} {component : Component} (limits : after.limits = before.limits)
    (kept : before.view location = some .directory → after.view location = some .directory)
    (stepped : before.step? location component = some next) : after.step? location component = some next := by
  cases component with
  | root => exact stepped
  | current =>
      obtain ⟨standing, rfl⟩ := step?_current_eq_some_iff.mp stepped
      exact step?_current_eq_some_iff.mpr ⟨kept standing, rfl⟩
  | parent =>
      obtain ⟨standing, rfl⟩ := step?_parent_eq_some_iff.mp stepped
      exact step?_parent_eq_some_iff.mpr ⟨kept standing, rfl⟩
  | name name =>
      obtain ⟨standing, admitted, rfl⟩ := step?_name_eq_some_iff.mp stepped
      exact step?_name_eq_some_iff.mpr ⟨kept standing, limits ▸ admitted, rfl⟩

theorem foldlM_step?_of_kept {components : List Component} {location reached : Node.Location}
    (limits : after.limits = before.limits)
    (kept : ∀ place ∈ location :: Component.way location components,
      before.view place = some .directory → after.view place = some .directory)
    (walked : components.foldlM before.step? location = some reached) :
    components.foldlM after.step? location = some reached := by
  induction components generalizing location with
  | nil => exact walked
  | cons component rest ih =>
      rw [List.foldlM_cons] at walked ⊢
      obtain ⟨next, stepped, rested⟩ := Option.bind_eq_some_iff.mp walked
      rw [step?_of_kept limits (kept location List.mem_cons_self) stepped]
      refine ih ?_ rested
      intro place member
      rw [step?_eq_follow stepped] at member
      exact kept place (List.mem_cons_of_mem _ member)

theorem foldlM_start_of_kept {location : Node.Location}
    (kept : before.view (path.origin before.here) = some .directory → after.view (path.origin before.here) = some .directory)
    (walked : path.start.foldlM before.step? before.here = some location) :
    location = path.origin before.here ∧ path.start.foldlM after.step? before.here = some location := by
  unfold Path.start Path.origin at *
  split at walked
  · rename_i absolute
    rw [if_pos absolute, if_pos absolute]
    cases walked
    exact ⟨rfl, rfl⟩
  · rename_i relative
    rw [if_neg relative] at kept ⊢
    rw [if_neg relative]
    split at walked
    · rename_i dotted
      rw [if_pos dotted]
      obtain ⟨next, stepped, ended⟩ := Option.bind_eq_some_iff.mp walked
      cases ended
      obtain ⟨standing, rfl⟩ := step?_current_eq_some_iff.mp stepped
      rw [List.foldlM_cons, step?_current_eq_some_iff.mpr ⟨kept standing, rfl⟩]
      exact ⟨rfl, rfl⟩
    · rename_i bare
      rw [if_neg bare]
      cases walked
      exact ⟨rfl, rfl⟩

/-- A path still leads where it did when the directories it leads through are still there. -/
theorem locate?_of_kept {location : Node.Location} (here : after.here = before.here) (limits : after.limits = before.limits)
    (kept : ∀ place ∈ path.stations before.here, before.view place = some .directory → after.view place = some .directory)
    (found : before.locate? path = some location) : after.locate? path = some location := by
  obtain ⟨admitted, steps, walked⟩ := locate?_eq_some_iff.mp found
  refine locate?_eq_some_iff.mpr ⟨limits ▸ admitted, steps, ?_⟩
  rw [Path.components_eq, List.foldlM_append] at walked ⊢
  obtain ⟨started, first, rest⟩ := Option.bind_eq_some_iff.mp walked
  obtain ⟨rfl, again⟩ := foldlM_start_of_kept (kept _ List.mem_cons_self) first
  rw [here, again]
  exact foldlM_step?_of_kept limits kept rest

theorem node?_of_kept {node : Node} (here : after.here = before.here) (limits : after.limits = before.limits)
    (kept : ∀ place ∈ path.stations before.here, before.view place = some .directory → after.view place = some .directory)
    (same : after.root.get? (path.destination before.here) = before.root.get? (path.destination before.here))
    (held : before.node? path = some node) : after.node? path = some node := by
  obtain ⟨location, found, _⟩ := exists_locate?_of_node? held
  rw [← locate?_eq_destination found] at same
  unfold node? at held ⊢
  rw [locate?_of_kept here limits kept found]
  rw [found] at held
  simp only [Option.bind_eq_bind, Option.bind_some] at held ⊢
  rw [same]
  exact held

end Unchanged

end FileTree

namespace FileWork

open FileTree

variable {tree : FileTree} {path : Path}

theorem write_exists (text : String) (plain : ".." ∉ path.names) (steps : path.names ≠ []) (isName : path.asksDirectory = false)
    (allowed : tree.limits.Allows path) (standing : tree.view (path.destination tree.here).dropLast = some .directory)
    (free : tree.view (path.destination tree.here) ≠ some .directory) :
    ∃ after, result (write path text) tree = (.ok (), after) := by
  have found := locate?_of_plain plain steps allowed standing
  obtain ⟨front, last, split⟩ := (List.eq_nil_or_concat path.names).resolve_left steps
  rw [List.concat_eq_append] at split
  have noStepUp : last ≠ ".." := by
    rintro rfl
    exact plain (by simp [split])
  have named : path.fileName?.isNone = false := by simp [Path.fileName?_of_names split, noStepUp]
  have isFree : tree.isDirectory path = false := by
    rw [← Bool.not_eq_true, isDirectory_iff_of_locate? found]
    exact free
  rw [write_result, found]
  simp only [isName, named, isFree, Bool.or_self, Bool.false_eq_true, if_false]
  exact ⟨_, rfl⟩

/-- What was written is read at the same path. -/
theorem read?_of_write {text : String} {after : FileTree} (ran : result (write path text) tree = (.ok (), after)) :
    after.read? path = some text := by
  rcases write_cases path text tree with failed | ⟨_, written, _, free, _, here, limits, _, laid⟩
  · rw [failed] at ran
    cases ran
  · rw [written] at ran
    cases ran
    rw [write_result] at written
    cases found : tree.locate? path with
    | none =>
        rw [found] at written
        cases written
    | some location =>
        obtain rfl := locate?_eq_destination found
        have kept : after.locate? path = some (path.destination tree.here) := by
          refine locate?_of_kept here limits (fun place _ standing => ?_) found
          rw [laid, View.lay]
          split
          · rename_i same
            exact absurd (same ▸ standing) free
          · split
            · rfl
            · exact standing
        have held : after.root.get? (path.destination tree.here) = some (.file text) :=
          Node.view_eq_file_iff.mp ((congrFun laid _).trans (View.lay_self _ _ _))
        have isName : path.asksDirectory = false := by
          rw [found] at written
          cases asks : path.asksDirectory with
          | false => rfl
          | true => simp [asks] at written
        simp [FileTree.read?, FileTree.node?, kept, held, isName]

theorem write_allows {text : String} {after : FileTree} (plain : ".." ∉ path.names)
    (ran : result (write path text) tree = (.ok (), after)) : tree.limits.Allows path := by
  rw [write_result] at ran
  cases found : tree.locate? path with
  | none =>
      rw [found] at ran
      cases ran
  | some location =>
      obtain ⟨admits, _, walked⟩ := locate?_eq_some_iff.mp found
      exact ⟨admits, fun name member => admitsName_of_foldlM_step? walked (name_mem_components plain member)⟩

theorem enter_eq_ok {component : Component} {location next : Node.Location} {after : FileTree}
    (ran : result (enter location component) tree = (.ok next, after)) :
    tree.step? location component = some next ∧ after.limits = tree.limits ∧
      after.view = tree.view.lay next .directory := by
  have stepped : tree.step? location component = some next := by
    rw [enter_result] at ran
    cases stepped : tree.step? location component with
    | none =>
        rw [stepped] at ran
        cases ran
    | some reached =>
        rw [stepped] at ran
        simp only at ran
        split at ran
        · cases ran
          rfl
        · split at ran <;> cases ran
          rfl
  refine ⟨stepped, ?_⟩
  rcases enter_cases location component tree with failed | ⟨found, standing⟩ | ⟨_, made, _, _, _, limits, _, laid⟩
  · rw [failed] at ran
    cases ran
  · rw [found] at ran
    cases ran
    exact ⟨rfl, @Grows.view_eq_lay _ _ _ (.refl _) standing⟩
  · rw [made] at ran
    cases ran
    exact ⟨limits, laid⟩

theorem admitsName_of_foldlM_enter {components : List Component} {location reached : Node.Location} {after : FileTree}
    (ran : result (components.foldlM enter location) tree = (.ok reached, after)) {name : String}
    (member : .name name ∈ components) : tree.limits.admitsName name = true := by
  induction components generalizing location tree with
  | nil => cases member
  | cons component rest ih =>
      rw [List.foldlM_cons] at ran
      obtain ⟨next, between, entered, rested⟩ := bind_eq_ok ran
      obtain ⟨stepped, limits, _⟩ := enter_eq_ok entered
      rcases List.mem_cons.mp member with rfl | member
      · exact (step?_name_eq_some_iff.mp stepped).2.1
      · exact limits ▸ ih rested member

theorem createDirectories_allows {after : FileTree} (plain : ".." ∉ path.names)
    (ran : result (createDirectories path) tree = (.ok (), after)) : tree.limits.Allows path := by
  obtain ⟨_, walked⟩ := enterAll_eq_ok (createDirectories_eq_ok ran)
  refine ⟨?_, fun name member => admitsName_of_foldlM_enter walked (name_mem_components plain member)⟩
  obtain ⟨_, _, checked, _⟩ := bind_eq_ok ran
  exact admits_of_checkPath checked

/-- A step down succeeds where there is a directory or nothing. -/
theorem enter_name_exists {location : Node.Location} {name : String} (base : tree.view location = some .directory)
    (admitted : tree.limits.admitsName name = true)
    (unblocked : ∀ shape, tree.view (location ++ [name]) = some shape → shape = .directory) :
    ∃ after, result (enter location (.name name)) tree = (.ok (location ++ [name]), after) := by
  have stepped : tree.step? location (.name name) = some (location ++ [name]) :=
    step?_name_eq_some_iff.mpr ⟨base, admitted, rfl⟩
  rw [enter_result, stepped]
  simp only
  cases held : tree.root.get? (location ++ [name]) with
  | none => exact ⟨_, rfl⟩
  | some node =>
      have isDirectory := unblocked node.shape (by simp [FileTree.view, Node.view, held])
      cases node with
      | file text => cases isDirectory
      | directory entries => exact ⟨_, rfl⟩

/-- Entering names one after the other makes what is missing, where no file is in the way. -/
theorem foldlM_enter_exists {location : Node.Location} {names : List String}
    (base : tree.view location = some .directory) (admits : tree.view.Admits (location ++ names, .directory))
    (admitted : ∀ name ∈ names, tree.limits.admitsName name = true) :
    ∃ after, result ((names.map Component.name).foldlM enter location) tree = (.ok (location ++ names), after) ∧
      after.limits = tree.limits ∧ after.view = tree.view.lay (location ++ names) .directory := by
  induction names generalizing location tree with
  | nil =>
      rw [List.append_nil]
      exact ⟨tree, rfl, rfl, @Grows.view_eq_lay _ _ _ (.refl tree) base⟩
  | cons name rest ih =>
      have rejoined : location ++ name :: rest = location ++ [name] ++ rest := by simp
      rw [rejoined] at admits
      obtain ⟨after, entered⟩ := enter_name_exists base (admitted name List.mem_cons_self) fun shape held =>
        (admits _ shape (List.prefix_append _ _) held).mpr fun _ => rfl
      obtain ⟨_, limits, laid⟩ := enter_eq_ok entered
      have standing : after.view (location ++ [name]) = some .directory := by
        rw [laid, View.lay_self]
      have stillAdmits : after.view.Admits (location ++ [name] ++ rest, .directory) := by
        rw [laid]
        exact @View.Admits.lay _ (_, .directory) _ admits (fun isFile => absurd rfl isFile) fun isFile => absurd rfl isFile
      obtain ⟨last, rested, lastLimits, lastLaid⟩ := ih standing stillAdmits fun other member =>
        limits ▸ admitted other (List.mem_cons_of_mem _ member)
      refine ⟨last, ?_, lastLimits.trans limits, ?_⟩
      · rw [List.map_cons, List.foldlM_cons, result_bind_of_ok entered, rejoined, rested]
      · rw [lastLaid, laid, View.lay_lay_of_prefix _ (List.prefix_append _ _), rejoined]

theorem foldlM_enter_start (base : tree.view (path.origin tree.here) = some .directory) :
    result (path.start.foldlM enter tree.here) tree = (.ok (path.origin tree.here), tree) := by
  obtain ⟨entries, held⟩ := Node.view_eq_directory_iff.mp base
  unfold Path.start Path.origin at *
  split
  · rename_i absolute
    rw [if_pos absolute] at held
    rw [List.foldlM_cons, result_bind, enter_result]
    simp only [FileTree.step?, held]
    rfl
  · rename_i relative
    rw [if_neg relative] at base held
    split
    · rw [List.foldlM_cons, result_bind, enter_result, step?_current_eq_some_iff.mpr ⟨base, rfl⟩]
      simp only [held]
      rfl
    · rfl

theorem enterAll_exists {names : List String} (base : tree.view (path.origin tree.here) = some .directory)
    (admits : tree.view.Admits (path.origin tree.here ++ names, .directory))
    (admitted : ∀ name ∈ names, tree.limits.admitsName name = true) :
    ∃ after, result (enterAll (path.start ++ names.map Component.name)) tree = (.ok (), after) ∧
      after.limits = tree.limits ∧ after.view = tree.view.lay (path.origin tree.here ++ names) .directory := by
  obtain ⟨after, walked, effect⟩ := foldlM_enter_exists base admits admitted
  refine ⟨after, ?_, effect⟩
  unfold enterAll
  rw [result_get_bind, List.foldlM_append, bind_assoc, result_bind_of_ok (foldlM_enter_start base),
    result_bind_of_ok walked]
  rfl

theorem endsInCurrent_push (path : Path) {part : String} (isPart : Path.IsPart part) :
    endsInCurrent (path.push part) = false := by
  obtain ⟨front, pushed⟩ := Path.exists_pieces_push path isPart.relative
  have active := isPart.active
  simp only [Path.isIdle, Bool.or_eq_false_iff, decide_eq_false_iff_not] at active
  simp [endsInCurrent, pushed, isPart.pieces, active.1, active.2]

theorem checkPath_of_admits (admits : tree.limits.admits path = true) : result (checkPath path) tree = (.ok (), tree) := by
  rw [checkPath_result, if_pos admits]

theorem createDirectories_exists (plain : ".." ∉ path.names) (isName : endsInCurrent path = false)
    (allowed : tree.limits.Allows path) (base : tree.view (path.origin tree.here) = some .directory)
    (admits : tree.view.Admits (path.destination tree.here, .directory)) :
    ∃ after, result (createDirectories path) tree = (.ok (), after) := by
  rw [Path.destination_of_plain plain] at admits
  obtain ⟨after, entered, _⟩ := enterAll_exists base admits allowed.names
  refine ⟨after, ?_⟩
  unfold createDirectories
  rw [result_bind_of_ok (checkPath_of_admits allowed.text), result_get_bind, isName, Path.components_eq,
    Path.map_pieceComponent plain]
  exact entered

theorem createParent_exists (plain : ".." ∉ path.names) (steps : path.names ≠ [])
    (parent : tree.limits.admits path.parent = true) (allowed : tree.limits.Allows path)
    (base : tree.view (path.origin tree.here) = some .directory)
    (admits : tree.view.Admits ((path.destination tree.here).dropLast, .directory)) :
    ∃ after, result (createParent path) tree = (.ok (), after) ∧ after.limits = tree.limits ∧
      after.view = tree.view.lay (path.destination tree.here).dropLast .directory := by
  rw [Path.destination_of_plain plain, List.dropLast_append_of_ne_nil steps] at admits ⊢
  obtain ⟨after, entered, effect⟩ := enterAll_exists base admits fun name member =>
    allowed.names name (List.dropLast_subset _ member)
  refine ⟨after, ?_, effect⟩
  unfold createParent
  rw [result_bind_of_ok (checkPath_of_admits parent), Path.components_eq, Path.map_pieceComponent plain,
    List.dropLast_append_of_ne_nil (by simpa using steps), ← List.map_dropLast, entered]

/-- A file can be written with the directories above it where neither a file nor a directory is in
the way. -/
theorem createParent_write_exists {text : String} (plain : ".." ∉ path.names) (steps : path.names ≠ [])
    (isName : path.asksDirectory = false) (parent : tree.limits.admits path.parent = true)
    (allowed : tree.limits.Allows path) (base : tree.view (path.origin tree.here) = some .directory)
    (admits : tree.view.Admits (path.destination tree.here, .file text)) :
    ∃ made after, result (createParent path) tree = (.ok (), made) ∧ result (write path text) made = (.ok (), after) := by
  have deep : path.destination tree.here ≠ [] := by
    rw [Path.destination_of_plain plain]
    exact List.append_ne_nil_of_right_ne_nil _ steps
  obtain ⟨made, parentMade, limits, laid⟩ := createParent_exists plain steps parent allowed base (admits.parent deep)
  have here : made.here = tree.here := by
    have grows := @createParent_grows tree.here (fun _ => True) (fun _ _ => True) path (fun _ _ => trivial) tree rfl
    rw [parentMade] at grows
    exact grows.here
  have inside : made.view (path.destination made.here).dropLast = some .directory := by
    rw [here, laid, View.lay_self]
  have free : made.view (path.destination made.here) ≠ some .directory := by
    rw [here, laid, View.lay_elsewhere _ _ (View.not_prefix_dropLast deep)]
    exact admits.not_directory
  rw [← limits] at allowed
  obtain ⟨after, wrote⟩ := write_exists text plain steps isName allowed inside free
  exact ⟨made, after, parentMade, wrote⟩

end FileWork

end ApiReference
