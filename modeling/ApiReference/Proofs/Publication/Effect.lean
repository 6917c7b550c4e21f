import ApiReference.Proofs.Publication.Steps

namespace ApiReference

/-! What a successful publication leaves, and what it leaves alone. -/

namespace FileTree

/-- The tree after some things were laid below a location, one after the other. -/
structure Laid (base : Node.Location) (items : List (Node.Location × Shape)) (before after : FileTree) : Prop where
  here : after.here = before.here
  limits : after.limits = before.limits
  garbled : after.garbled = before.garbled
  view : after.view = before.view.overlay (items.map fun item => (base ++ item.1, item.2))

namespace Laid

variable {base : Node.Location} {first second : List (Node.Location × Shape)}
  {before between after : FileTree}

theorem nil (tree : FileTree) : Laid base [] tree tree := ⟨rfl, rfl, rfl, rfl⟩

theorem append (one : Laid base first before between) (two : Laid base second between after) :
    Laid base (first ++ second) before after := by
  refine ⟨two.here.trans one.here, two.limits.trans one.limits, two.garbled.trans one.garbled, ?_⟩
  rw [two.view, one.view, List.map_append, View.overlay, View.overlay, View.overlay, List.foldl_append]

theorem below_eq {items : List (Node.Location × Shape)} (laid : Laid base items before after) :
    after.view.below base = (before.view.below base).overlay items := by
  rw [laid.view, View.below_overlay]

end Laid

end FileTree

namespace FileWork

open FileTree

variable {before after : FileTree} {path : Path}

theorem createDirectories_laid {base place : Node.Location} (plain : ".." ∉ path.names) (steps : path.names ≠ [])
    (leads : path.destination before.here = base ++ place)
    (ran : result (createDirectories path) before = (.ok (), after)) :
    Laid base [(place, .directory)] before after := by
  have grows : Grows (· <+: path.destination before.here) (fun _ _ => False) before after := by
    have left : (result (createDirectories path) before).2 = after := by rw [ran]
    rw [← left]
    exact createDirectories_grows (fun _ => Path.prefix_destination_of_mem_way plain) before rfl
  obtain ⟨reached, walked⟩ := enterAll_eq_ok (createDirectories_eq_ok ran)
  have someSteps : path.components ≠ [] := by simp [Path.components_eq, steps]
  obtain ⟨rfl, standing⟩ := foldlM_enter_eq_ok walked someSteps
  rw [Path.foldl_follow_components] at standing
  refine ⟨grows.here, grows.limits, grows.garbled, ?_⟩
  rw [grows.view_eq_lay standing, leads]
  rfl

theorem write_laid {base place : Node.Location} {text : String}
    (leads : path.destination before.here = base ++ place)
    (ran : result (write path text) before = (.ok (), after)) : Laid base [(place, .file text)] before after := by
  rcases write_cases path text before with failed | ⟨_, written, _, _, _, here, limits, garbled, laid⟩
  · rw [failed] at ran
    cases ran
  · rw [written] at ran
    cases ran
    refine ⟨here, limits, garbled, ?_⟩
    rw [laid, leads]
    rfl

end FileWork

namespace Publication

open FileTree FileWork

variable {directory : Path} {before after : FileTree}

theorem save_eq_ok {page : Page} {saved : Option Path} (plain : ".." ∉ directory.names) (proper : page.Proper)
    (ran : result (save directory page) before = (.ok saved, after)) :
    if page.isBlank then saved = none ∧ after = before
    else saved = some (directory.join page.location) ∧
      Laid (directory.destination before.here) [(page.location.names, .file page.text)] before after := by
  unfold save at ran
  split
  · rename_i blank
    rw [if_pos blank] at ran
    cases ran
    exact ⟨rfl, rfl⟩
  · rename_i filled
    rw [if_neg filled] at ran
    obtain ⟨_, made, parent, ran⟩ := bind_eq_ok ran
    obtain ⟨_, _, wrote, ended⟩ := bind_eq_ok ran
    cases ended
    refine ⟨rfl, ?_⟩
    have pathPlain : ".." ∉ (directory.join page.location).names := by
      rw [Path.join, Path.names_push directory (Page.location_relative proper.toSlashFree), List.mem_append, not_or]
      exact ⟨plain, Page.location_plain proper⟩
    have grows : Grows (· <+: (directory.join page.location).destination before.here) (fun _ _ => False) before made := by
      have left : (result (createParent (directory.join page.location)) before).2 = made := by rw [parent]
      rw [← left]
      exact createParent_grows (fun _ => Path.prefix_destination_of_mem_way pathPlain) before rfl
    have leads : (directory.join page.location).destination before.here =
        directory.destination before.here ++ page.location.names :=
      Path.destination_push before.here directory (Page.location_relative proper.toSlashFree)
        (Page.location_plain proper)
    have laid : Laid (directory.destination before.here) [(page.location.names, .file page.text)] made after :=
      write_laid (by rw [grows.here, leads]) wrote
    refine ⟨laid.here.trans grows.here, laid.limits.trans grows.limits, laid.garbled.trans grows.garbled, ?_⟩
    rw [laid.view]
    rw [leads] at grows
    exact grows.lay_eq _

theorem mapM_save_eq_ok {pages : List Page} {saved : List (Option Path)} (plain : ".." ∉ directory.names)
    (proper : ∀ page ∈ pages, page.Proper) (ran : result (pages.mapM (save directory)) before = (.ok saved, after)) :
    saved.filterMap id = (pages.filter (!·.isBlank)).map (fun page => directory.join page.location) ∧
      Laid (directory.destination before.here) (pageItems pages) before after := by
  induction pages generalizing before saved with
  | nil =>
      cases ran
      exact ⟨rfl, .nil after⟩
  | cons page rest ih =>
      rw [List.mapM_cons] at ran
      obtain ⟨first, between, savedFirst, ran⟩ := bind_eq_ok ran
      obtain ⟨others, _, savedRest, ended⟩ := bind_eq_ok ran
      cases ended
      have one := save_eq_ok plain (proper page List.mem_cons_self) savedFirst
      obtain ⟨paths, laid⟩ := ih (fun page member => proper page (List.mem_cons_of_mem _ member)) savedRest
      cases blank : page.isBlank with
      | true =>
          rw [if_pos blank] at one
          obtain ⟨rfl, rfl⟩ := one
          simpa [pageItems, blank] using ⟨paths, laid⟩
      | false =>
          rw [if_neg (by simp [blank])] at one
          obtain ⟨rfl, laidFirst⟩ := one
          rw [laidFirst.here] at laid
          refine ⟨by simpa [blank] using paths, ?_⟩
          simpa [pageItems, blank] using laidFirst.append laid

theorem furnish_eq_ok {pages : List Page} {files : List Path} (plain : ".." ∉ directory.names)
    (proper : ∀ page ∈ pages, page.Proper) (ran : result (furnish directory pages) before = (.ok files, after)) :
    files = (pages.filter (!·.isBlank)).map (fun page => directory.join page.location) ∧
      Laid (directory.destination before.here) (contents pages) before after := by
  unfold furnish at ran
  obtain ⟨_, first, madeModules, ran⟩ := bind_eq_ok ran
  obtain ⟨_, second, wroteMarker, ran⟩ := bind_eq_ok ran
  obtain ⟨_, third, wroteHome, ran⟩ := bind_eq_ok ran
  obtain ⟨saved, _, savedPages, ended⟩ := bind_eq_ok ran
  cases ended
  have modulesNames : (directory.push Page.modulesDir).names = directory.names ++ [Page.modulesDir] := by
    rw [Path.names_push directory (by decide)]
    rfl
  have laidModules := createDirectories_laid (by rw [modulesNames]; simp [plain]; decide) (by simp [modulesNames])
    (destination_push_own before.here directory (by decide)) madeModules
  have laidMarker := write_laid (destination_push_own first.here directory (by decide)) wroteMarker
  have laidHome := write_laid (destination_push_own second.here directory (by decide)) wroteHome
  obtain ⟨paths, laidPages⟩ := mapM_save_eq_ok plain proper savedPages
  rw [laidHome.here, laidMarker.here, laidModules.here] at laidPages
  rw [laidMarker.here, laidModules.here] at laidHome
  rw [laidModules.here] at laidMarker
  exact ⟨paths, laidModules.append (laidMarker.append (laidHome.append laidPages))⟩

/-- After the directory was cleared what is laid first makes it anew. -/
theorem Cleared.overlay_contents {api : Node.Location} (cleared : Cleared api before after) (pages : List Page) :
    (after.view.below api).overlay (contents pages) = View.empty.overlay (contents pages) := by
  -- the two differ at most in the directory itself, and the first item lays that
  have first : (after.view.below api).lay [Page.modulesDir] .directory =
      View.empty.lay [Page.modulesDir] .directory := by
    funext location
    by_cases onWay : location <+: [Page.modulesDir]
    · by_cases same : location = [Page.modulesDir]
      · rw [same, View.lay_self, View.lay_self]
      · rw [View.lay_above _ _ onWay same, View.lay_above _ _ onWay same]
    · have deep : location ≠ [] := by
        rintro rfl
        exact onWay List.nil_prefix
      rw [View.lay_elsewhere _ _ onWay, View.lay_elsewhere _ _ onWay, View.below, cleared.inside location deep,
        View.empty, if_neg deep]
  change View.overlay (View.lay _ _ _) _ = View.overlay (View.lay _ _ _) _
  rw [first]

/-- A successful publication into a path without steps up leaves below it what it lays, over what
was there or, if that was generated, over nothing; outside it makes no more than the directories
above; and it gives the paths of the pages that are not blank. -/
theorem publish_effect {pages : List Page} {files : List Path} (plain : ".." ∉ directory.names)
    (proper : ∀ page ∈ pages, page.Proper)
    (published : result (publish directory pages) before = (.ok files, after)) :
    after.view.below (directory.destination before.here) =
        (if isGenerated before directory then View.empty
          else before.view.below (directory.destination before.here)).overlay (contents pages) ∧
      (∀ location, ¬ directory.destination before.here <+: location →
        after.view location = before.view location ∨
          location <+: directory.destination before.here ∧ before.view location = none ∧
            after.view location = some .directory) ∧
      files = (pages.filter (!·.isBlank)).map (fun page => directory.join page.location) ∧
      after.here = before.here ∧ after.limits = before.limits := by
  have frame := fun location => @publish_outside directory plain pages proper before location
  rw [published] at frame
  rw [publish_eq] at published
  obtain ⟨_, cleared, clearing, furnished⟩ := bind_eq_ok published
  have left : (result (clear directory) before).2 = cleared := by rw [clearing]
  obtain ⟨paths, laid⟩ := furnish_eq_ok plain proper furnished
  have below := laid.below_eq
  cases generated : isGenerated before directory with
  | false =>
      rw [clear_of_foreign generated] at left
      subst left
      exact ⟨below, frame, paths, laid.here, laid.limits⟩
  | true =>
      have emptied := clear_of_generated generated
      rw [left] at emptied
      rw [emptied.here, emptied.overlay_contents] at below
      exact ⟨below, frame, paths, laid.here.trans emptied.here, laid.limits.trans emptied.limits⟩

/-- A reference that was generated before, seen from the directory of its project. -/
def generatedTree : FileTree where
  root := .directory [("work", .directory [("docs", .directory [("api", .directory [("MIKEDOC", .file ""),
    ("README.md", .file "old"), ("modules", .directory [("old.md", .file "old")])])])])]
  here := ["work"]
  limits := .unlimited

/-- A home page, a blank page and two pages of one name. -/
def fourPages : List Page :=
  [⟨none, "README.md", "home"⟩, ⟨some "demo.core", "funcs.md", " "⟩, ⟨some "demo", "class-A.md", "first"⟩,
    ⟨some "demo", "class-A.md", "second"⟩]

theorem publish_replaces_generated :
    isGenerated generatedTree ⟨"docs/api"⟩ = true ∧
      (result (publish ⟨"docs/api"⟩ fourPages) generatedTree).2.view.below ["work", "docs", "api"] =
        View.empty.overlay (contents fourPages) ∧
      View.empty.overlay (contents fourPages) ["modules", "old.md"] = none ∧
      View.empty.overlay (contents fourPages) ["modules", "demo", "core"] = none ∧
      View.empty.overlay (contents fourPages) ["modules", "demo", "class-A.md"] = some (.file "second") := by
  have succeeded : (result (publish ⟨"docs/api"⟩ fourPages) generatedTree).1 =
      .ok [⟨"docs/api/README.md"⟩, ⟨"docs/api/modules/demo/class-A.md"⟩, ⟨"docs/api/modules/demo/class-A.md"⟩] := by
    decide +kernel
  rcases ran : result (publish ⟨"docs/api"⟩ fourPages) generatedTree with ⟨outcome, after⟩
  rw [ran] at succeeded
  subst succeeded
  have effect := publish_effect (by decide +kernel) (by decide +kernel) ran
  have generated : isGenerated generatedTree ⟨"docs/api"⟩ = true := by decide +kernel
  have leads : (Path.mk "docs/api").destination generatedTree.here = ["work", "docs", "api"] := by decide +kernel
  rw [if_pos generated, leads] at effect
  exact ⟨generated, effect.1, by decide +kernel, by decide +kernel, by decide +kernel⟩

end Publication

end ApiReference
