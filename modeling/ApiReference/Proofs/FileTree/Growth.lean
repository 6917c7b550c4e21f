import ApiReference.Proofs.FileTree.Steps

namespace ApiReference

/-! File trees that lose nothing: directories appear only where they may be made, and files
only where they may be written. -/

namespace FileTree

structure Grows (made : Node.Location → Prop) (written : Node.Location → String → Prop)
    (before after : FileTree) : Prop where
  here : after.here = before.here
  limits : after.limits = before.limits
  garbled : after.garbled = before.garbled
  change : ∀ location, after.view location = before.view location ∨
    made location ∧ before.view location = none ∧ after.view location = some .directory ∨
    ∃ text, written location text ∧ before.view location ≠ some .directory ∧
      after.view location = some (.file text)

namespace Grows

variable {made : Node.Location → Prop} {written : Node.Location → String → Prop}
  {before between after : FileTree} {location : Node.Location}

theorem refl (tree : FileTree) : Grows made written tree tree :=
  ⟨rfl, rfl, rfl, fun _ => .inl rfl⟩

theorem trans (first : Grows made written before between) (second : Grows made written between after) :
    Grows made written before after := by
  refine ⟨second.here.trans first.here, second.limits.trans first.limits, second.garbled.trans first.garbled, ?_⟩
  intro location
  rcases first.change location with same | ⟨isMade, missing, laid⟩ | ⟨text, isWritten, free, laid⟩
  · rw [← same]
    exact second.change location
  · rcases second.change location with again | ⟨_, gone, _⟩ | ⟨_, _, noDirectory, _⟩
    · exact .inr (.inl ⟨isMade, missing, again.trans laid⟩)
    · rw [laid] at gone
      cases gone
    · exact absurd laid noDirectory
  · rcases second.change location with again | ⟨_, gone, _⟩ | ⟨newer, isWritten, _, laidAgain⟩
    · exact .inr (.inr ⟨text, isWritten, free, again.trans laid⟩)
    · rw [laid] at gone
      cases gone
    · exact .inr (.inr ⟨newer, isWritten, free, laidAgain⟩)

theorem isSome (grows : Grows made written before after) (held : before.view location ≠ none) :
    after.view location ≠ none := by
  rcases grows.change location with same | ⟨_, missing, _⟩ | ⟨_, _, _, laid⟩
  · rwa [same]
  · exact absurd missing held
  · simp [laid]

/-- Where nothing is written the files stay the same. -/
theorem view_eq_file_iff (grows : Grows made written before after)
    (untouched : ∀ text, ¬ written location text) {text : String} :
    after.view location = some (.file text) ↔ before.view location = some (.file text) := by
  rcases grows.change location with same | ⟨_, missing, laid⟩ | ⟨other, isWritten, _⟩
  · rw [same]
  · simp [missing, laid]
  · exact absurd isWritten (untouched other)

/-- Something laid into a directory, over nothing or a file over a file. -/
theorem of_lay {place : Node.Location} {shape : Shape} (here : after.here = before.here)
    (limits : after.limits = before.limits) (garbled : after.garbled = before.garbled)
    (laid : after.view = before.view.lay place shape)
    (inside : before.view place.dropLast = some .directory)
    (allowed : made place ∧ before.view place = none ∧ shape = .directory ∨
      ∃ text, written place text ∧ before.view place ≠ some .directory ∧ shape = .file text) :
    Grows made written before after := by
  refine ⟨here, limits, garbled, ?_⟩
  intro location
  rw [laid]
  by_cases same : location = place
  · subst same
    rw [View.lay_self]
    rcases allowed with ⟨isMade, missing, rfl⟩ | ⟨text, isWritten, free, rfl⟩
    · exact .inr (.inl ⟨isMade, missing, rfl⟩)
    · exact .inr (.inr ⟨text, isWritten, free, rfl⟩)
  · left
    by_cases above : location <+: place
    · -- what is above the place was a directory before
      rw [View.lay_above _ _ above same]
      exact (Node.view_of_prefix (Node.prefix_dropLast above same) inside).symm
    · exact View.lay_elsewhere _ _ above

/-- What is laid last at a place hides how the tree grew towards it. -/
theorem lay_eq {place : Node.Location} (grows : Grows (· <+: place) (fun _ _ => False) before after)
    (shape : Shape) : after.view.lay place shape = before.view.lay place shape := by
  funext location
  by_cases above : location <+: place
  · by_cases same : location = place
    · rw [same, View.lay_self, View.lay_self]
    · rw [View.lay_above _ _ above same, View.lay_above _ _ above same]
  · rw [View.lay_elsewhere _ _ above, View.lay_elsewhere _ _ above]
    rcases grows.change location with same | ⟨isMade, _⟩ | ⟨_, isWritten, _⟩
    · exact same
    · exact absurd isMade above
    · cases isWritten

/-- A tree that grew towards a directory, where only directories were made. -/
theorem view_eq_lay {place : Node.Location} (grows : Grows (· <+: place) (fun _ _ => False) before after)
    (reached : after.view place = some .directory) : after.view = before.view.lay place .directory := by
  rw [← grows.lay_eq]
  funext location
  by_cases above : location <+: place
  · have standing : after.view location = some .directory := Node.view_of_prefix above reached
    rw [standing]
    by_cases same : location = place
    · rw [same, View.lay_self]
    · rw [View.lay_above _ _ above same]
  · rw [View.lay_elsewhere _ _ above]

end Grows

/-- Growth of the trees with the given starting point of relative paths. -/
def GrowsFrom (here : Node.Location) (made : Node.Location → Prop)
    (written : Node.Location → String → Prop) (before after : FileTree) : Prop :=
  before.here = here → Grows made written before after

theorem lasting_growsFrom (here : Node.Location) (made : Node.Location → Prop)
    (written : Node.Location → String → Prop) : FileWork.Lasting (GrowsFrom here made written) where
  same tree _ := .refl tree
  compose first second start := (first start).trans (second ((first start).here.trans start))

end FileTree

namespace FileWork

open FileTree

variable {here : Node.Location} {made : Node.Location → Prop} {written : Node.Location → String → Prop}

theorem foldlM_enter_grows {components : List Component} {location : Node.Location}
    (allMade : ∀ place ∈ Component.way location components, made place) :
    Keeps (Grows made written) (components.foldlM enter location) := by
  induction components generalizing location with
  | nil => exact fun tree => .refl tree
  | cons component rest ih =>
      intro tree
      have restMade := ih fun place member => allMade place (List.mem_cons_of_mem _ member)
      rw [List.foldlM_cons, result_bind]
      rcases enter_cases location component tree with
        ran | ⟨ran, _⟩ | ⟨after, ran, missing, inside, here, limits, garbled, laid⟩
      · rw [ran]
        exact .refl tree
      · rw [ran]
        exact restMade tree
      · rw [ran]
        have isMade := allMade _ List.mem_cons_self
        have first : Grows made written tree after :=
          .of_lay here limits garbled laid inside (.inl ⟨isMade, missing, rfl⟩)
        exact first.trans (restMade after)

/-- Where entering step by step ends, there is a directory. -/
theorem foldlM_enter_eq_ok {components : List Component} {location reached : Node.Location}
    {before after : FileTree}
    (ran : result (components.foldlM enter location) before = (.ok reached, after)) (steps : components ≠ []) :
    reached = components.foldl Component.follow location ∧ after.view reached = some .directory := by
  induction components generalizing location before with
  | nil => exact absurd rfl steps
  | cons component rest ih =>
      rw [List.foldlM_cons] at ran
      obtain ⟨next, between, entered, rested⟩ := bind_eq_ok ran
      have standing : next = component.follow location ∧ between.view next = some .directory := by
        rcases enter_cases location component before with
          failed | ⟨found, isDirectory⟩ | ⟨_, made, _, _, _, _, _, laid⟩
        · rw [failed] at entered
          cases entered
        · rw [found] at entered
          cases entered
          exact ⟨rfl, isDirectory⟩
        · rw [made] at entered
          cases entered
          exact ⟨rfl, laid ▸ View.lay_self _ _ _⟩
      obtain ⟨rfl, isDirectory⟩ := standing
      by_cases last : rest = []
      · subst last
        obtain ⟨rfl, rfl⟩ := pure_eq_ok rested
        exact ⟨rfl, isDirectory⟩
      · exact ih rested last

theorem enterAll_grows {components : List Component}
    (allMade : ∀ place ∈ Component.way here components, made place) :
    Keeps (GrowsFrom here made written) (enterAll components) := by
  have lasting := lasting_growsFrom here made written
  intro before start
  subst start
  unfold enterAll
  rw [result_get_bind]
  have walked : Keeps (GrowsFrom before.here made written) (components.foldlM enter before.here) :=
    fun tree _ => foldlM_enter_grows allMade tree
  exact Keeps.bind lasting walked (fun _ => Keeps.pure lasting _) before rfl

theorem createDirectories_grows {path : Path}
    (allMade : ∀ place ∈ Component.way here path.components, made place) :
    Keeps (GrowsFrom here made written) (createDirectories path) := by
  have lasting := lasting_growsFrom here made written
  apply Keeps.bind lasting (Keeps.checkPath lasting path)
  intro _
  apply Keeps.get_bind
  intro tree
  split
  · apply Keeps.bind lasting
    · exact enterAll_grows fun place member => allMade place (Component.way_dropLast_subset _ _ member)
    · intro _
      exact Keeps.throw lasting _
  · exact enterAll_grows allMade

theorem createParent_grows {path : Path}
    (allMade : ∀ place ∈ Component.way here path.components, made place) :
    Keeps (GrowsFrom here made written) (createParent path) := by
  have lasting := lasting_growsFrom here made written
  apply Keeps.bind lasting (Keeps.checkPath lasting path.parent)
  intro _
  exact enterAll_grows fun place member => allMade place (Component.way_dropLast_subset _ _ member)

theorem write_grows {path : Path} {text : String}
    (isWritten : path.fileName?.isNone = false → written (path.destination here) text) :
    Keeps (GrowsFrom here made written) (write path text) := by
  intro tree start
  subst start
  rcases write_cases path text tree with ran | ⟨after, ran, named, free, inside, here, limits, garbled, laid⟩
  · rw [ran]
    exact .refl tree
  · rw [ran]
    exact .of_lay here limits garbled laid inside (.inr ⟨text, isWritten named, free, rfl⟩)

end FileWork

end ApiReference
