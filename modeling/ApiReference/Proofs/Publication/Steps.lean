import ApiReference.Proofs.FileTree.Growth
import ApiReference.Proofs.Site.Address
import ApiReference.Publication

namespace ApiReference.Publication

open FileTree FileWork

/-! What clearing and furnishing the directory of a reference can do, whether or not they
succeed. -/

/-- What publishing does after the directory was cleared. -/
def furnish (directory : Path) (pages : List Page) : FileWork (List Path) := do
  createDirectories (directory.push Page.modulesDir)
  write (directory.push markerName) markerText
  write (directory.push Page.homeName) ""
  return (← pages.mapM (save directory)).filterMap id

theorem publish_eq (directory : Path) (pages : List Page) :
    publish directory pages = clear directory >>= fun _ => furnish directory pages := by
  simp [publish, prepare, furnish, bind_assoc]

/-- The names that publishing leaves at the top of the directory. -/
def ownNames : List String := [markerName, Page.homeName, Page.modulesDir]

theorem ownNames_plain : ∀ name ∈ ownNames,
    Text.startsWith "/" name = false ∧ (Path.mk name).names = [name] ∧ ".." ∉ [name] := by
  decide

theorem destination_push_own (here : Node.Location) (directory : Path) {name : String} (own : name ∈ ownNames) :
    (directory.push name).destination here = directory.destination here ++ [name] := by
  obtain ⟨relative, names, plain⟩ := ownNames_plain name own
  rw [← names] at plain
  rw [Path.destination_push here directory relative plain, names]

/-- The pages that are not blank, each at its place. -/
def pageItems (pages : List Page) : List (Node.Location × Shape) :=
  (pages.filter (!·.isBlank)).map fun page => (page.location.names, .file page.text)

/-- What publishing lays below the directory, in this order. -/
def contents (pages : List Page) : List (Node.Location × Shape) :=
  ([Page.modulesDir], .directory) :: ([markerName], .file markerText) :: ([Page.homeName], .file "") ::
    pageItems pages

theorem mem_contents_of_mem {pages : List Page} {page : Page} (member : page ∈ pages) (filled : page.isBlank = false) :
    (page.location.names, Shape.file page.text) ∈ contents pages := by
  have kept : page ∈ pages.filter (!·.isBlank) := by simp [member, filled]
  simp only [contents, pageItems, List.mem_cons]
  exact .inr (.inr (.inr (List.mem_map_of_mem kept)))

theorem not_mem_contents {pages : List Page} {rest : Node.Location} (notMarker : rest ≠ [markerName])
    (notHome : rest ≠ [Page.homeName])
    (noPage : ∀ page ∈ pages, page.isBlank = false → rest ≠ page.location.names) (text : String) :
    (rest, Shape.file text) ∉ contents pages := by
  intro member
  simp only [contents, pageItems, List.mem_cons, Prod.mk.injEq, reduceCtorEq, and_false, false_or] at member
  rcases member with marker | home | member
  · exact notMarker marker.1
  · exact notHome home.1
  · obtain ⟨page, kept, same⟩ := List.mem_map.mp member
    obtain ⟨listed, filled⟩ := List.mem_filter.mp kept
    exact noPage page listed (by simpa using filled) (Prod.mk.inj same).1.symm

/-- The files that publishing may write. -/
def Writes (api : Node.Location) (pages : List Page) (location : Node.Location) (text : String) : Prop :=
  ∃ place, location = api ++ place ∧ (place, Shape.file text) ∈ contents pages

section Growth

variable {directory : Path} {here : Node.Location} {made : Node.Location → Prop}
  {written : Node.Location → String → Prop}

/-- Only the basename of a page can be a step up, and then the page has no file name. -/
theorem location_plain_of_fileName? {page : Page} (slashFree : page.SlashFree)
    (named : (directory.join page.location).fileName?.isNone = false) : ".." ∉ page.location.names := by
  intro member
  rw [Page.location_names slashFree] at member
  rcases List.mem_append.mp member with member | member
  · exact Page.directory_names slashFree member
  · split at member
    · cases member
    · rename_i active
      have stepUp : page.basename = ".." := (List.mem_singleton.mp member).symm
      have names : (directory.join page.location).names =
          (directory.names ++ page.directory.names) ++ [page.basename] := by
        rw [Path.join, Path.names_push directory (Page.location_relative slashFree), List.append_assoc]
        change directory.names ++ page.location.names = _
        rw [Page.location_names slashFree, if_neg active]
      rw [Path.fileName?_of_names names, if_pos stepUp] at named
      cases named

theorem save_grows {page : Page} (slashFree : page.SlashFree)
    (allMade : page.isBlank = false → ∀ place ∈ Component.way here (directory.join page.location).components, made place)
    (isWritten : page.isBlank = false → written (directory.destination here ++ page.location.names) page.text) :
    Keeps (GrowsFrom here made written) (save directory page) := by
  have lasting := lasting_growsFrom here made written
  unfold save
  split
  · exact Keeps.pure lasting _
  · rename_i filled
    rw [Bool.not_eq_true] at filled
    apply Keeps.bind lasting (createParent_grows (allMade filled))
    intro _
    apply Keeps.bind lasting
    · apply write_grows
      intro named
      have plain := location_plain_of_fileName? slashFree named
      rw [Path.join, Path.destination_push here directory (Page.location_relative slashFree) plain]
      exact isWritten filled
    · intro _
      exact Keeps.pure lasting _

theorem furnish_grows {pages : List Page} (slashFree : ∀ page ∈ pages, page.SlashFree)
    (modulesMade : ∀ place ∈ Component.way here (directory.push Page.modulesDir).components, made place)
    (pagesMade : ∀ page ∈ pages, page.isBlank = false →
      ∀ place ∈ Component.way here (directory.join page.location).components, made place) :
    Keeps (GrowsFrom here made (Writes (directory.destination here) pages)) (furnish directory pages) := by
  have lasting := lasting_growsFrom here made (Writes (directory.destination here) pages)
  unfold furnish
  apply Keeps.bind lasting (createDirectories_grows modulesMade)
  intro _
  apply Keeps.bind lasting
  · apply write_grows
    rw [destination_push_own here directory (by decide)]
    exact fun _ => ⟨_, rfl, by simp [contents]⟩
  intro _
  apply Keeps.bind lasting
  · apply write_grows
    rw [destination_push_own here directory (by decide)]
    exact fun _ => ⟨_, rfl, by simp [contents]⟩
  intro _
  apply Keeps.bind lasting
  · apply Keeps.mapM lasting
    intro page member
    apply save_grows (slashFree page member) (pagesMade page member)
    intro filled
    exact ⟨_, rfl, mem_contents_of_mem member filled⟩
  · intro _
    exact Keeps.pure lasting _

end Growth

/-- A directory that was taken away or stays behind empty. -/
structure Cleared (api : Node.Location) (before after : FileTree) : Prop where
  here : after.here = before.here
  limits : after.limits = before.limits
  garbled : after.garbled = before.garbled
  outside : ∀ location, ¬ api <+: location → after.view location = before.view location
  inside : ∀ rest, rest ≠ [] → after.view (api ++ rest) = none

section Clearing

variable {api : Node.Location} {before tree : FileTree} {entries : Node.Entries} {directory : Path}

theorem cleared_put
    (held : tree.root.get? api = some (.directory entries)) :
    Cleared api tree { tree with root := tree.root.put api (.directory []) } where
  here := rfl
  limits := rfl
  garbled := rfl
  outside _ apart := Node.view_put_elsewhere apart _ _
  inside rest more := by
    obtain ⟨name, others, rfl⟩ := List.exists_cons_of_ne_nil more
    exact Node.view_put_below held _ _

theorem cleared_erase (held : tree.root.get? api = some (.directory entries)) (cleared : Cleared api before tree) :
    Cleared api before { tree with root := tree.root.erase api } where
  here := cleared.here
  limits := cleared.limits
  garbled := cleared.garbled
  outside location apart := (Node.view_erase_elsewhere apart _).trans (cleared.outside location apart)
  inside _ more := Node.view_erase_below more held

theorem removeDirectory_cleared (path : Path) (held : tree.root.get? api = some (.directory entries)) :
    Cleared api tree (result (removeDirectory path api) tree).2 := by
  have emptied := cleared_put held
  unfold removeDirectory
  rw [result_get_bind, result_bind, result_setRoot]
  simp only
  split
  · exact emptied
  · rw [result_get_bind]
    split
    · rw [result_get_bind, result_setRoot]
      -- the empty directory that was put there is what is erased
      have standing : (tree.root.put api (.directory [])).view api = some .directory := by
        simpa [Node.shape] using Node.view_put_below held (.directory []) []
      obtain ⟨_, still⟩ := Node.view_eq_directory_iff.mp standing
      exact cleared_erase still emptied
    · exact emptied

theorem clear_of_foreign (foreign : isGenerated tree directory = false) :
    result (clear directory) tree = (.ok false, tree) := by
  unfold clear
  rw [result_get_bind, foreign]
  rfl

theorem node?_of_isGenerated (generated : isGenerated tree directory = true) :
    ∃ entries, tree.node? directory = some (.directory entries) ∧ entries.length = 3 := by
  unfold isGenerated at generated
  split at generated
  · rename_i entries held
    simp only [Bool.and_eq_true, decide_eq_true_eq] at generated
    exact ⟨entries, held, generated.1.1.1⟩
  · cases generated

theorem clear_of_generated (generated : isGenerated tree directory = true) :
    Cleared (directory.destination tree.here) tree (result (clear directory) tree).2 := by
  obtain ⟨entries, held, _⟩ := node?_of_isGenerated generated
  obtain ⟨location, found, present⟩ := exists_locate?_of_node? held
  have removed : result (remove directory) tree = result (removeDirectory directory location) tree := by
    unfold remove
    rw [result_get_bind, result_require_bind, found]
    simp only
    rw [result_require_bind, held]
  unfold clear
  rw [result_get_bind, if_pos generated, snd_result_bind_pure, removed, ← locate?_eq_destination found]
  exact removeDirectory_cleared directory present

/-- Clearing changes nothing of a tree but what is in it. -/
theorem clear_frame (directory : Path) (tree : FileTree) :
    (result (clear directory) tree).2.here = tree.here ∧
      (result (clear directory) tree).2.limits = tree.limits ∧
      (result (clear directory) tree).2.garbled = tree.garbled := by
  cases generated : isGenerated tree directory with
  | false =>
      rw [clear_of_foreign generated]
      exact ⟨rfl, rfl, rfl⟩
  | true =>
      have cleared := clear_of_generated generated
      exact ⟨cleared.here, cleared.limits, cleared.garbled⟩

end Clearing

/-- Publishing clears the directory, and from there on nothing is lost. -/
theorem publish_grows {directory : Path} {made : Node.Location → Prop} {pages : List Page} (tree : FileTree)
    (slashFree : ∀ page ∈ pages, page.SlashFree)
    (modulesMade : ∀ place ∈ Component.way tree.here (directory.push Page.modulesDir).components, made place)
    (pagesMade : ∀ page ∈ pages, page.isBlank = false →
      ∀ place ∈ Component.way tree.here (directory.join page.location).components, made place) :
    Grows made (Writes (directory.destination tree.here) pages)
      (result (clear directory) tree).2 (result (publish directory pages) tree).2 := by
  have here := (clear_frame directory tree).1
  rw [publish_eq, result_bind]
  generalize result (clear directory) tree = clearing at here
  rcases clearing with ⟨failure | _, cleared⟩
  · exact .refl cleared
  · exact furnish_grows slashFree modulesMade pagesMade cleared here

section Anywhere

variable (directory : Path) {pages : List Page} (tree : FileTree)

theorem publish_grows_anywhere (slashFree : ∀ page ∈ pages, page.SlashFree) :
    Grows (fun _ => True) (Writes (directory.destination tree.here) pages)
      (result (clear directory) tree).2 (result (publish directory pages) tree).2 :=
  publish_grows tree slashFree (fun _ _ => trivial) fun _ _ _ _ _ => trivial

theorem publish_here (slashFree : ∀ page ∈ pages, page.SlashFree) :
    (result (publish directory pages) tree).2.here = tree.here :=
  (publish_grows_anywhere directory tree slashFree).here.trans (clear_frame directory tree).1

theorem publish_garbled (slashFree : ∀ page ∈ pages, page.SlashFree) :
    (result (publish directory pages) tree).2.garbled = tree.garbled :=
  (publish_grows_anywhere directory tree slashFree).garbled.trans (clear_frame directory tree).2.2

/-- A file that is not written is there afterwards if it was there in a foreign directory. -/
theorem view_publish_eq_file_iff (slashFree : ∀ page ∈ pages, page.SlashFree) {rest : Node.Location}
    (more : rest ≠ []) (untouched : ∀ text, (rest, Shape.file text) ∉ contents pages) {text : String} :
    (result (publish directory pages) tree).2.view (directory.destination tree.here ++ rest) = some (.file text) ↔
      isGenerated tree directory = false ∧
        tree.view (directory.destination tree.here ++ rest) = some (.file text) := by
  -- after clearing only what is written can change a file
  have unwritten : ∀ text, ¬ Writes (directory.destination tree.here) pages
      (directory.destination tree.here ++ rest) text := by
    rintro text ⟨place, same, member⟩
    rw [← List.append_cancel_left same] at member
    exact untouched text member
  rw [(publish_grows_anywhere directory tree slashFree).view_eq_file_iff unwritten]
  cases generated : isGenerated tree directory with
  | false => simp [clear_of_foreign generated]
  | true => simp [(clear_of_generated generated).inside rest more]

end Anywhere

/-- Without steps up all directories that are made are above or below the one of the reference. -/
theorem comparable_of_mem_way {directory : Path} (plain : ".." ∉ directory.names) {here place : Node.Location}
    {part : String} (relative : Text.startsWith "/" part = false) (partPlain : ".." ∉ (Path.mk part).names)
    (member : place ∈ Component.way here (directory.push part).components) :
    place <+: directory.destination here ∨ directory.destination here <+: place := by
  have pushedPlain : ".." ∉ (directory.push part).names := by
    rw [Path.names_push directory relative, List.mem_append, not_or]
    exact ⟨plain, partPlain⟩
  have onWay := Path.prefix_destination_of_mem_way pushedPlain member
  rw [Path.destination_push here directory relative partPlain] at onWay
  exact List.prefix_or_prefix_of_prefix onWay (List.prefix_append _ _)

/-- Outside the directory of the reference only directories above it are made. -/
theorem publish_outside {directory : Path} (plain : ".." ∉ directory.names) {pages : List Page}
    (proper : ∀ page ∈ pages, page.Proper) (tree : FileTree) {location : Node.Location}
    (outside : ¬ directory.destination tree.here <+: location) :
    (result (publish directory pages) tree).2.view location = tree.view location ∨
      location <+: directory.destination tree.here ∧ tree.view location = none ∧
        (result (publish directory pages) tree).2.view location = some .directory := by
  have uncleared : (result (clear directory) tree).2.view location = tree.view location := by
    cases generated : isGenerated tree directory with
    | false => rw [clear_of_foreign generated]
    | true => exact (clear_of_generated generated).outside location outside
  have slashFree : ∀ page ∈ pages, page.SlashFree := fun page member => (proper page member).toSlashFree
  have grows := publish_grows tree slashFree
    (fun _ => comparable_of_mem_way plain (by decide) (by decide))
    fun page member _ _ =>
      comparable_of_mem_way plain (Page.location_relative (slashFree page member)) (Page.location_plain (proper page member))
  rw [← uncleared]
  rcases grows.change location with same | ⟨above | below, missing, made⟩ | ⟨_, ⟨place, rfl, _⟩, _⟩
  · exact .inl same
  · exact .inr ⟨above, missing, made⟩
  · exact absurd below outside
  · exact absurd (List.prefix_append _ _) outside

theorem publish_failsOnly (directory : Path) (pages : List Page) :
    FailsOnly .fileTree (publish directory pages) := by
  rw [publish_eq]
  apply FailsOnly.bind
  · apply FailsOnly.get_bind
    intro _
    split
    · exact .bind (remove_failsOnly directory) fun _ => .pure _
    · exact .pure _
  intro _
  apply FailsOnly.bind (createDirectories_failsOnly _)
  intro _
  apply FailsOnly.bind (write_failsOnly _ _)
  intro _
  apply FailsOnly.bind (write_failsOnly _ _)
  intro _
  apply FailsOnly.bind
  · apply FailsOnly.mapM
    intro page
    unfold save
    split
    · exact .pure _
    · exact .bind (createParent_failsOnly _) fun _ => .bind (write_failsOnly _ _) fun _ => .pure _
  · intro _
    exact .pure _

end ApiReference.Publication
