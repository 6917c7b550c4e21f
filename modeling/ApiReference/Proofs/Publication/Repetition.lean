import ApiReference.Proofs.Publication.Replacement

namespace ApiReference

/-! Publishing the same pages once more changes nothing: either the second publication takes away
what the first one left and publishes it again, or both lay the same over what they leave alone. -/

/-- A path that does not lead through anything inside a directory. -/
def Path.Avoids (here api : Node.Location) (path : Path) : Prop :=
  ∀ place ∈ path.stations here, api <+: place → place = api

instance (here api : Node.Location) (path : Path) : Decidable (path.Avoids here api) :=
  inferInstanceAs (Decidable (∀ place ∈ path.stations here, api <+: place → place = api))

namespace Publication

open FileTree FileWork

variable {directory : Path} {before after : FileTree} {pages : List Page} {files : List Path}

theorem publish_eq_ok (plain : ".." ∉ directory.names) (proper : ∀ page ∈ pages, page.Proper)
    (ran : result (publish directory pages) before = (.ok files, after)) :
    ∃ flag cleared, result (clear directory) before = (.ok flag, cleared) ∧ cleared.limits = before.limits ∧
      files = ((pages.filter (!·.isBlank)).map fun page => directory.join page.location) ∧
      Laid (directory.destination before.here) (contents pages) cleared after ∧ Fits after.limits directory pages := by
  rw [publish_eq] at ran
  obtain ⟨flag, cleared, clearing, furnished⟩ := bind_eq_ok ran
  obtain ⟨paths, laid⟩ := furnish_eq_ok plain proper furnished
  have fits := fits_of_furnish plain proper furnished
  have frame := clear_frame directory before
  rw [clearing] at frame
  obtain ⟨here, limits, _⟩ : cleared.here = before.here ∧ cleared.limits = before.limits ∧ _ := frame
  rw [here] at laid
  rw [← laid.limits] at fits
  exact ⟨flag, cleared, clearing, limits, paths, laid, fits⟩

theorem standing_of_laid {api : Node.Location} {cleared : FileTree} (regular : ∀ page ∈ pages, page.Regular)
    (laid : Laid api (contents pages) cleared after) : after.view api = some .directory := by
  have top := congrFun laid.below_eq []
  rwa [View.below, List.append_nil, overlay_contents_nil regular] at top

/-- A directory that is not taken away with the reference is still there afterwards. -/
theorem publish_keeps_directory (plain : ".." ∉ directory.names) (regular : ∀ page ∈ pages, page.Regular)
    (ran : result (publish directory pages) before = (.ok files, after)) {place : Node.Location}
    (spared : isGenerated before directory = true → directory.destination before.here <+: place →
      place = directory.destination before.here)
    (standing : before.view place = some .directory) : after.view place = some .directory := by
  have proper := proper_of_regular regular
  by_cases inside : directory.destination before.here <+: place
  · cases generated : isGenerated before directory with
    | true =>
        obtain ⟨_, _, _, _, _, laid, _⟩ := publish_eq_ok plain proper ran
        rw [spared generated inside]
        exact standing_of_laid regular laid
    | false =>
        have grows := publish_grows_anywhere directory before fun page member => (proper page member).toSlashFree
        rw [clear_of_foreign generated, ran] at grows
        rcases grows.change place with same | ⟨_, missing, _⟩ | ⟨_, _, noDirectory, _⟩
        · exact same.trans standing
        · cases missing.symm.trans standing
        · exact absurd standing noDirectory
  · have outside := publish_outside plain proper before inside
    rw [ran] at outside
    rcases outside with same | ⟨_, missing, _⟩
    · exact same.trans standing
    · cases missing.symm.trans standing

section Reading

variable (plain : ".." ∉ directory.names) (regular : ∀ page ∈ pages, page.Regular)
  (ran : result (publish directory pages) before = (.ok files, after)) {path : Path}
  (avoids : isGenerated before directory = true → path.Avoids before.here (directory.destination before.here))

include plain regular ran avoids

theorem node?_publish {node : Node} (held : before.node? path = some node)
    (same : after.root.get? (path.destination before.here) = before.root.get? (path.destination before.here)) :
    after.node? path = some node := by
  have proper := proper_of_regular regular
  obtain ⟨_, _, _, limits, _, laid, _⟩ := publish_eq_ok plain proper ran
  have here : after.here = before.here := by
    have kept := publish_here directory before fun page member => (proper page member).toSlashFree
    rwa [ran] at kept
  refine node?_of_kept here (laid.limits.trans limits) ?_ same held
  intro place member
  exact publish_keeps_directory plain regular ran fun generated => avoids generated place member

/-- A file outside the directory of the reference is still found. -/
theorem node?_publish_of_file (outside : ¬ directory.destination before.here <+: path.destination before.here)
    {text : String} (held : before.node? path = some (.file text)) : after.node? path = some (.file text) := by
  have proper := proper_of_regular regular
  obtain ⟨location, found, present⟩ := exists_locate?_of_node? held
  rw [locate?_eq_destination found] at present
  have unchanged := publish_outside plain proper before outside
  rw [ran] at unchanged
  refine node?_publish plain regular ran avoids held ?_
  rcases unchanged with same | ⟨_, missing, _⟩
  · rw [view, view, Node.view_eq_file_iff.mpr present] at same
    rw [present, Node.view_eq_file_iff.mp same]
  · cases (Node.view_eq_none_iff.mp missing).symm.trans present

/-- A directory beside that of the reference is still found with all it holds. -/
theorem node?_publish_of_apart (ordered : before.root.Ordered) (afterOrdered : after.root.Ordered)
    (outside : ¬ directory.destination before.here <+: path.destination before.here)
    (apart : ¬ path.destination before.here <+: directory.destination before.here)
    {node : Node} (held : before.node? path = some node) : after.node? path = some node := by
  have proper := proper_of_regular regular
  refine node?_publish plain regular ran avoids held (afterOrdered.get?_eq_of_below ordered ?_)
  funext rest
  have beside : ¬ directory.destination before.here <+: path.destination before.here ++ rest := by
    intro below
    rcases List.prefix_or_prefix_of_prefix below (List.prefix_append _ rest) with inside | above
    · exact outside inside
    · exact apart above
  have unchanged := publish_outside plain proper before beside
  rw [ran] at unchanged
  rcases unchanged with same | ⟨above, _, _⟩
  · exact same
  · exact absurd ((List.prefix_append _ _).trans above) apart

end Reading

section Again

variable (plain : ".." ∉ directory.names) (isName : endsInCurrent directory = false)
  (regular : ∀ page ∈ pages, page.Regular) (ordered : before.root.Ordered)
  (ran : result (publish directory pages) before = (.ok files, after))

include plain isName regular ordered ran

/-- What was published into nothing is taken away and published again. -/
theorem publish_again_of_bare (steps : directory.names ≠ [])
    (bare : isGenerated before directory = true ∨
      ∀ rest, rest ≠ [] → before.view (directory.destination before.here ++ rest) = none) :
    result (publish directory pages) after = (.ok files, after) := by
  have proper := proper_of_regular regular
  obtain ⟨_, cleared, clearing, _, rfl, laid, fits⟩ := publish_eq_ok plain proper ran
  have effect : Cleared (directory.destination before.here) before cleared := by
    cases generated : isGenerated before directory with
    | true =>
        have effect := clear_of_generated generated
        rwa [clearing] at effect
    | false =>
        rw [clear_of_foreign generated] at clearing
        cases clearing
        exact ⟨rfl, rfl, rfl, fun _ _ => rfl, bare.resolve_left (by simp [generated])⟩
  have here : after.here = before.here := laid.here.trans effect.here
  have below := laid.below_eq
  rw [effect.overlay_contents, ← here] at below
  have afterOrdered := ordered_of_publish isName ordered ran
  have generated := isGenerated_of_below plain steps regular fits.own afterOrdered below
  obtain ⟨emptied, again, emptying, published, relaid, belowAgain, againOrdered, _⟩ :=
    publish_exists plain steps isName regular (.inl generated) afterOrdered fits
  have sameView : again.view = after.view := by
    funext location
    by_cases inside : directory.destination after.here <+: location
    · obtain ⟨rest, rfl⟩ := inside
      exact congrFun (belowAgain.trans below.symm) rest
    · have outside := publish_outside plain proper after inside
      rw [published] at outside
      rcases outside with same | ⟨above, missing, _⟩
      · exact same
      · have standing := Node.view_of_prefix above (here ▸ standing_of_laid regular laid)
        cases missing.symm.trans standing
  have same : again = after :=
    FileTree.eq_of_view_eq againOrdered afterOrdered (relaid.here.trans emptying.here)
      (relaid.limits.trans emptying.limits) (relaid.garbled.trans emptying.garbled) sameView
  rw [published, same]

/-- Over a directory that is not taken away the same is laid twice. -/
theorem publish_again_of_foreign {name : String} (foreign : name ∉ ownNames)
    (present : before.view (directory.destination before.here ++ [name]) ≠ none) :
    result (publish directory pages) after = (.ok files, after) := by
  have proper := proper_of_regular regular
  obtain ⟨_, cleared, clearing, _, rfl, laid, fits⟩ := publish_eq_ok plain proper ran
  have untouched := isGenerated_of_foreign_entry foreign present
  rw [clear_of_foreign untouched] at clearing
  cases clearing
  have afterOrdered := ordered_of_publish isName ordered ran
  have presentAfter : after.view (directory.destination after.here ++ [name]) ≠ none := by
    have grows := publish_grows_anywhere directory before fun page member => (proper page member).toSlashFree
    rw [clear_of_foreign untouched, ran] at grows
    rw [laid.here]
    exact grows.isSome present
  have clearing := clear_of_foreign (isGenerated_of_foreign_entry foreign presentAfter)
  have standing := standing_of_laid regular laid
  rw [← laid.here] at standing
  have base : after.view (directory.origin after.here) = some .directory := by
    rw [Path.destination_of_plain plain] at standing
    exact Node.view_of_prefix (List.prefix_append _ _) standing
  have admits : ∀ item ∈ contents pages, (after.view.below (directory.destination after.here)).Admits item := by
    intro item member
    rw [laid.here, laid.below_eq]
    exact (contents_coherent regular).admits member
  obtain ⟨refiles, again, furnished⟩ := furnish_exists plain regular fits base (admits_of_standing standing) admits
  obtain ⟨rfl, relaid⟩ := furnish_eq_ok plain proper furnished
  have againOrdered : again.root.Ordered := by
    have kept := furnish_keepsOrder directory pages after afterOrdered
    rwa [furnished] at kept
  have sameView : again.view = after.view := by
    rw [relaid.view, laid.here, laid.view, View.overlay_overlay]
  have same : again = after :=
    FileTree.eq_of_view_eq againOrdered afterOrdered relaid.here relaid.limits relaid.garbled sameView
  rw [publish_eq, result_bind_of_ok clearing, furnished, same]

end Again

end Publication

end ApiReference
