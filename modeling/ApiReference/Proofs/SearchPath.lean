import ApiReference.SearchPath

namespace ApiReference

/-! The search path along a series of mounts and releases. A release takes away the first entry
that is the same path, which may belong to another mount; what stays true is that every path has as
many entries as it has live mounts. -/

namespace Path

theorem same_iff {a b : Path} : a.same b = true ↔ a.components = b.components :=
  decide_eq_true_iff

theorem same_self (path : Path) : path.same path = true := same_iff.mpr rfl

theorem same_congr {a b : Path} (same : a.same b = true) (path : Path) : a.same path = b.same path := by
  unfold Path.same
  rw [same_iff.mp same]

end Path

namespace SearchPath

variable {search : SearchPath} {point path : Path}

theorem release_mount (search : SearchPath) (point : Path) :
    (search.mount point).release point = search := by
  simp [mount, release, point.same_self]

section Mounted

variable {α : Type} {root : Path} {packageDir : String} {work : SearchPath → Except Failure α × SearchPath}

theorem withProject_of_located (located : Project.mountPoint root packageDir = .ok point) :
    search.withProject root packageDir work =
      ((work (search.mount point)).1, (work (search.mount point)).2.release point) := by
  unfold withProject
  rw [located]

/-- Work that leaves the mounted search path as it finds it leaves no trace of the mount. -/
theorem withProject_restored
    (restored : ∀ point, Project.mountPoint root packageDir = .ok point →
      (work (search.mount point)).2 = search.mount point) :
    (search.withProject root packageDir work).2 = search := by
  cases located : Project.mountPoint root packageDir with
  | error failure =>
      unfold withProject
      rw [located]
  | ok point => rw [withProject_of_located located, restored point located, release_mount]

end Mounted

/-- How many entries are the given path. -/
def entriesAt (search : SearchPath) (path : Path) : Nat := search.entries.countP (·.same path)

theorem entriesAt_mount (search : SearchPath) (point path : Path) :
    (search.mount point).entriesAt path =
      search.entriesAt path + if point.same path = true then 1 else 0 := by
  simp only [entriesAt, mount, List.countP_cons]

/-- Releasing a path that is mounted takes one entry of that path away, and no other. -/
theorem entriesAt_release (mounted : 0 < search.entriesAt point) (path : Path) :
    (search.release point).entriesAt path + (if point.same path = true then 1 else 0) =
      search.entriesAt path := by
  obtain ⟨entry, member, same⟩ := List.countP_pos_iff.mp mounted
  obtain ⟨first, front, back, _, same, split, erased⟩ :=
    @List.exists_of_eraseP _ (·.same point) search.entries entry member same
  rw [entriesAt, entriesAt, release, erased, split]
  simp only [List.countP_append, List.countP_cons, Path.same_congr same]
  omega

end SearchPath

namespace Mounts

/-- What can be done with a search path from outside. -/
inductive Action : Type 1 where
  | mount (path : Path)
  | mountProject (root : Path) (packageDir : String)
  | withProject {α : Type} (root : Path) (packageDir : String)
      (work : SearchPath → Except Failure α × SearchPath)
  | release (index : Nat)

/-- A mount that fails is not made. -/
def settle (mounts : Mounts) : Except Failure (Path × Mounts) → Mounts
  | .ok (_, after) => after
  | .error _ => mounts

def step (mounts : Mounts) : Action → Mounts
  | .mount path => mounts.mount path
  | .mountProject root packageDir => mounts.settle (mounts.mountProject root packageDir)
  | .withProject root packageDir work =>
      { mounts with search := (mounts.search.withProject root packageDir work).2 }
  | .release index => (mounts.release index).2

def run (mounts : Mounts) (actions : List Action) : Mounts := actions.foldl step mounts

/-- The paths of the mounts that were not released, the oldest first. -/
def live (mounts : Mounts) : List Path := mounts.guards.filterMap id

/-- The paths of the live mounts that were made after the given one. -/
def liveAfter (mounts : Mounts) (index : Nat) : List Path :=
  (mounts.guards.drop (index + 1)).filterMap id

/-- A condition on each action and the mounts that it meets. -/
def Along (condition : Mounts → Action → Prop) : Mounts → List Action → Prop
  | _, [] => True
  | mounts, action :: rest => condition mounts action ∧ Along condition (mounts.step action) rest

/-- Work inside a mounted project leaves the search path as it finds it. -/
def Restores (mounts : Mounts) : Action → Prop
  | .withProject root packageDir work => ∀ point, Project.mountPoint root packageDir = .ok point →
      (work (mounts.search.mount point)).2 = mounts.search.mount point
  | _ => True

/-- No mount is released while a later one of the same path is live. -/
def InOrder (mounts : Mounts) : Action → Prop
  | .release index => ∀ path, mounts.guards[index]? = some (some path) →
      ∀ later ∈ mounts.liveAfter index, later.same path = false
  | _ => True

theorem invariant_run {condition : Mounts → Action → Prop} {Invariant : Mounts → Prop}
    (kept : ∀ mounts action, condition mounts action → Invariant mounts → Invariant (mounts.step action))
    {mounts : Mounts} {actions : List Action} (initial : Invariant mounts)
    (along : Along condition mounts actions) : Invariant (mounts.run actions) := by
  induction actions generalizing mounts with
  | nil => exact initial
  | cons action rest ih => exact ih (kept mounts action along.1 initial) along.2

theorem along_and {first second : Mounts → Action → Prop} {mounts : Mounts} {actions : List Action}
    (one : Along first mounts actions) (two : Along second mounts actions) :
    Along (fun mounts action => first mounts action ∧ second mounts action) mounts actions := by
  induction actions generalizing mounts with
  | nil => trivial
  | cons action rest ih => exact ⟨⟨one.1, two.1⟩, ih one.2 two.2⟩

theorem eq_mount_of_mountProject {mounts after : Mounts} {root point : Path} {packageDir : String}
    (made : mounts.mountProject root packageDir = .ok (point, after)) : after = mounts.mount point := by
  unfold mountProject at made
  cases located : Project.mountPoint root packageDir with
  | error failure => simp [located, bind, Except.bind] at made
  | ok found =>
      rw [located] at made
      cases made
      rfl

/-- An action makes one mount, releases one live mount, or leaves everything as it was. -/
theorem step_cases (mounts : Mounts) (action : Action) (restores : Restores mounts action) :
    (∃ path, mounts.step action = mounts.mount path) ∨
      (∃ index path, action = .release index ∧ mounts.guards[index]? = some (some path) ∧
        mounts.step action = ⟨mounts.search.release path, mounts.guards.set index none⟩) ∨
      mounts.step action = mounts := by
  cases action with
  | mount path => exact .inl ⟨path, rfl⟩
  | mountProject root packageDir =>
      cases made : mounts.mountProject root packageDir with
      | error failure =>
          right; right
          rw [step, made, settle]
      | ok result =>
          left
          refine ⟨result.1, ?_⟩
          rw [step, made, settle]
          exact eq_mount_of_mountProject made
  | withProject root packageDir work =>
      right; right
      simp only [step, SearchPath.withProject_restored restores]
  | release index =>
      rcases held : mounts.guards[index]? with _ | _ | path
      · exact .inr (.inr (by rw [step, release, held]))
      · exact .inr (.inr (by rw [step, release, held]))
      · exact .inr (.inl ⟨index, path, rfl, held, by rw [step, release, held]⟩)

theorem live_mount (mounts : Mounts) (path : Path) : (mounts.mount path).live = mounts.live ++ [path] := by
  simp [live, mount]

/-- A live mount divides the others into older and newer ones; its release leaves these. -/
theorem live_release {mounts : Mounts} {index : Nat} {path : Path} (search : SearchPath)
    (held : mounts.guards[index]? = some (some path)) :
    ∃ older, mounts.live = older ++ path :: mounts.liveAfter index ∧
      live ⟨search, mounts.guards.set index none⟩ = older ++ mounts.liveAfter index := by
  obtain ⟨within, guard⟩ := List.getElem?_eq_some_iff.mp held
  have split : mounts.guards = mounts.guards.take index ++ some path :: mounts.guards.drop (index + 1) := by
    rw [← guard, List.getElem_cons_drop, List.take_append_drop]
  have emptied : mounts.guards.set index none =
      mounts.guards.take index ++ none :: mounts.guards.drop (index + 1) := by
    rw [List.set_eq_take_append_cons_drop, if_pos within]
  refine ⟨(mounts.guards.take index).filterMap id, ?_, ?_⟩
  · have divided := congrArg (List.filterMap id) split
    rwa [List.filterMap_append] at divided
  · rw [live, emptied, List.filterMap_append]
    rfl

/-- Every path has as many entries as it has live mounts. -/
def Mirrored (mounts : Mounts) : Prop :=
  ∀ path, mounts.search.entriesAt path = mounts.live.countP (·.same path)

theorem mirrored_step (mounts : Mounts) (action : Action) (restores : Restores mounts action)
    (mirrored : Mirrored mounts) : Mirrored (mounts.step action) := by
  intro path
  rcases step_cases mounts action restores with
    ⟨point, made⟩ | ⟨index, point, _, held, released⟩ | unchanged
  · rw [made, live_mount]
    simp only [mount, SearchPath.entriesAt_mount, mirrored path, List.countP_append, List.countP_singleton]
  · rw [released]
    obtain ⟨older, before, after⟩ := live_release (mounts.search.release point) held
    have mounted : 0 < mounts.search.entriesAt point := by
      rw [mirrored point, before, List.countP_append, List.countP_cons, if_pos point.same_self]
      omega
    have erased := SearchPath.entriesAt_release mounted path
    rw [mirrored path, before] at erased
    rw [after]
    simp only [List.countP_append, List.countP_cons] at erased ⊢
    omega
  · rw [unchanged]
    exact mirrored path

/-- The entries are the live mounts, the latest first. -/
def Stacked (mounts : Mounts) : Prop := mounts.search.entries = mounts.live.reverse

theorem stacked_step (mounts : Mounts) (action : Action)
    (orderly : Restores mounts action ∧ InOrder mounts action) (stacked : Stacked mounts) :
    Stacked (mounts.step action) := by
  unfold Stacked at stacked ⊢
  rcases step_cases mounts action orderly.1 with
    ⟨point, made⟩ | ⟨index, point, rfl, held, released⟩ | unchanged
  · rw [made, live_mount]
    simp [mount, SearchPath.mount, stacked]
  · rw [released]
    obtain ⟨older, before, after⟩ := live_release (mounts.search.release point) held
    -- the newer mounts stand in front, and none of them is the path that is released
    have others : ∀ later ∈ (mounts.liveAfter index).reverse, ¬ later.same point = true := by
      intro later member
      rw [orderly.2 point held later (List.mem_reverse.mp member)]
      exact Bool.false_ne_true
    rw [after, SearchPath.release, stacked, before]
    simp only [List.reverse_append, List.reverse_cons, List.append_assoc, List.singleton_append]
    rw [List.eraseP_append_right _ others]
    simp [point.same_self]
  · rw [unchanged]
    exact stacked

/-- After any series of mounts, mounted work and releases, every path has as many entries as live
mounts; a failed mount and mounted work leave the entries as they were; and if no mount was released
before a later one of the same path, the entries are the live mounts, the latest first. -/
theorem run_mirrors_live {actions : List Action} (restores : Along Restores {} actions) :
    let mounts := run {} actions
    (∀ path, mounts.search.entries.countP (·.same path) = mounts.live.countP (·.same path)) ∧
      (mounts.search.isEmpty = true ↔ mounts.live = []) ∧
      (∀ path, mounts.search.contains path = true ↔ ∃ point ∈ mounts.live, point.same path = true) ∧
      (∀ root packageDir failure, mounts.mountProject root packageDir = .error failure →
        (mounts.step (.mountProject root packageDir)).search = mounts.search) ∧
      (∀ (α : Type) root packageDir (work : SearchPath → Except Failure α × SearchPath),
        Restores mounts (.withProject root packageDir work) →
          (mounts.step (.withProject root packageDir work)).search = mounts.search) ∧
      (Along InOrder {} actions → mounts.search.entries = mounts.live.reverse) := by
  intro mounts
  have mirrored : Mirrored mounts := invariant_run mirrored_step (fun _ => rfl) restores
  have stacked : Along InOrder {} actions → Stacked mounts := fun inOrder =>
    invariant_run stacked_step rfl (along_and restores inOrder)
  clear_value mounts
  have contained : ∀ path, mounts.search.contains path = true ↔ ∃ point ∈ mounts.live, point.same path = true := by
    intro path
    rw [SearchPath.contains, List.any_eq_true, ← List.countP_pos_iff, ← List.countP_pos_iff]
    exact iff_of_eq (congrArg (0 < ·) (mirrored path))
  refine ⟨mirrored, ?_, contained, ?_, ?_, stacked⟩
  · rw [SearchPath.isEmpty, List.isEmpty_iff]
    constructor
    · intro empty
      rw [List.eq_nil_iff_forall_not_mem]
      intro point member
      have found := (contained point).mpr ⟨point, member, point.same_self⟩
      simp [SearchPath.contains, empty] at found
    · intro none
      rw [List.eq_nil_iff_forall_not_mem]
      intro entry member
      have found := (contained entry).mp (List.any_eq_true.mpr ⟨entry, member, entry.same_self⟩)
      simp [none] at found
  · intro root packageDir failure failed
    rw [step, failed, settle]
  · intro α root packageDir work restored
    simp only [step, SearchPath.withProject_restored restored]

/-- Two mounts of one path in two spellings, one of which is released. -/
def twiceMounted (released : Nat) : List Action :=
  [.mount ⟨"/srv/lib"⟩, .mount ⟨"/srv//lib/"⟩, .mountProject ⟨"/srv/lib"⟩ "./",
    .withProject ⟨"/srv"⟩ "lib/demo" fun search => ((.error (.other "failed") : Except Failure Unit), search),
    .mountProject ⟨"/srv"⟩ "demo", .release released]

/-- When the older mount is released, the entry that goes is that of the newer one; when the newer
one is, the entries stay in the order of the mounts. -/
theorem twiceMounted_mirrors_live :
    ((run {} (twiceMounted 0)).live = [⟨"/srv//lib/"⟩, ⟨"/srv"⟩] ∧
      (run {} (twiceMounted 0)).search.entries = [⟨"/srv"⟩, ⟨"/srv/lib"⟩] ∧
      (run {} (twiceMounted 0)).search.contains ⟨"/srv/./lib"⟩ = true) ∧
    ((run {} (twiceMounted 1)).live = [⟨"/srv/lib"⟩, ⟨"/srv"⟩] ∧
      (run {} (twiceMounted 1)).search.entries = (run {} (twiceMounted 1)).live.reverse) := by
  have restores : ∀ released, Along Restores {} (twiceMounted released) := fun _ =>
    ⟨trivial, trivial, trivial, fun _ _ => rfl, trivial, trivial, trivial⟩
  obtain ⟨_, _, contained, _⟩ := run_mirrors_live (restores 0)
  obtain ⟨_, _, _, _, _, stacked⟩ := run_mirrors_live (restores 1)
  refine ⟨⟨by decide +kernel, by decide +kernel, ?_⟩, by decide +kernel, stacked ?_⟩
  · exact (contained _).mpr ⟨⟨"/srv//lib/"⟩, by decide +kernel, by decide +kernel⟩
  · refine ⟨trivial, trivial, trivial, trivial, trivial, ?_, trivial⟩
    -- the only later mount is that of the directory above
    have later : ∀ other ∈ [(⟨"/srv"⟩ : Path)], other.same ⟨"/srv//lib/"⟩ = false := by decide +kernel
    intro path held
    cases held
    exact later

end Mounts

end ApiReference
