import ApiReference.FileTree.Basic
import Mathlib.Control.Lawful

namespace ApiReference.FileWork

/-! What work on a file tree gives and leaves behind. -/

variable {α β : Type}

/-- The outcome of work and the tree it leaves, also when it fails. -/
def result (work : FileWork α) (tree : FileTree) : Except Failure α × FileTree := work.run.run tree

@[simp] theorem result_pure (value : α) (tree : FileTree) :
    result (pure value) tree = (.ok value, tree) := rfl

@[simp] theorem result_throw (failure : Failure) (tree : FileTree) :
    result (throw failure : FileWork α) tree = (.error failure, tree) := rfl

theorem result_bind (work : FileWork α) (next : α → FileWork β) (tree : FileTree) :
    result (work >>= next) tree =
      match result work tree with
      | (.ok value, after) => result (next value) after
      | (.error failure, after) => (.error failure, after) := by
  unfold result
  rw [ExceptT.run_bind, StateT.run_bind]
  rcases work.run.run tree with ⟨_ | _, _⟩ <;> rfl

theorem result_bind_of_ok {work : FileWork α} {value : α} {before between : FileTree}
    (ran : result work before = (.ok value, between)) (next : α → FileWork β) :
    result (work >>= next) before = result (next value) between := by
  rw [result_bind, ran]

theorem snd_result_bind_pure (work : FileWork α) (next : α → β) (tree : FileTree) :
    (result (work >>= fun value => pure (next value)) tree).2 = (result work tree).2 := by
  rw [result_bind]
  rcases result work tree with ⟨_ | _, _⟩ <;> rfl

theorem result_get_bind (next : FileTree → FileWork β) (tree : FileTree) :
    result (get >>= next) tree = result (next tree) tree := rfl

@[simp] theorem result_setRoot (root : Node) (tree : FileTree) :
    result (setRoot root) tree = (.ok (), { tree with root }) := rfl

theorem result_require_bind (failure : Failure) (value : Option α) (next : α → FileWork β)
    (tree : FileTree) :
    result (require failure value >>= next) tree =
      match value with
      | some found => result (next found) tree
      | none => (.error failure, tree) := by
  cases value <;> rfl

theorem result_look_bind (read : FileTree → Except Failure α) (next : α → FileWork β) (tree : FileTree) :
    result (look read >>= next) tree =
      match read tree with
      | .ok value => result (next value) tree
      | .error failure => (.error failure, tree) := by
  unfold look
  rw [bind_assoc, result_get_bind]
  cases read tree <;> rfl

theorem bind_eq_ok {work : FileWork α} {next : α → FileWork β} {before after : FileTree} {value : β}
    (ran : result (work >>= next) before = (.ok value, after)) :
    ∃ found between, result work before = (.ok found, between) ∧
      result (next found) between = (.ok value, after) := by
  rw [result_bind] at ran
  rcases first : result work before with ⟨failure | found, between⟩
  · rw [first] at ran
    cases ran
  · rw [first] at ran
    exact ⟨found, between, rfl, ran⟩

theorem pure_eq_ok {given value : α} {before after : FileTree}
    (ran : result (pure given) before = (.ok value, after)) : given = value ∧ before = after := by
  cases ran
  exact ⟨rfl, rfl⟩

theorem write_result (path : Path) (text : String) (tree : FileTree) :
    result (write path text) tree =
      match tree.locate? path with
      | none => (.error .fileTree, tree)
      | some location =>
          if path.asksDirectory || path.fileName?.isNone || tree.isDirectory path then (.error .fileTree, tree)
          else (.ok (), { tree with root := tree.root.put location (.file text) }) := by
  unfold write
  rw [result_get_bind, result_require_bind]
  cases tree.locate? path with
  | none => rfl
  | some location =>
      simp only
      split <;> rfl

theorem enter_result (location : Node.Location) (component : Component) (tree : FileTree) :
    result (enter location component) tree =
      match tree.step? location component with
      | none => (.error .fileTree, tree)
      | some next =>
          match tree.root.get? next with
          | none => (.ok next, { tree with root := tree.root.put next (.directory []) })
          | some node => if node.isDirectory then (.ok next, tree) else (.error .fileTree, tree) := by
  unfold enter
  rw [result_get_bind, result_require_bind]
  cases tree.step? location component with
  | none => rfl
  | some next =>
      simp only
      cases tree.root.get? next with
      | none => rfl
      | some node => cases node <;> rfl

theorem enterAll_eq_ok {components : List Component} {before after : FileTree}
    (ran : result (enterAll components) before = (.ok (), after)) :
    ∃ location, result (components.foldlM enter before.here) before = (.ok location, after) := by
  unfold enterAll at ran
  rw [result_get_bind] at ran
  obtain ⟨location, between, walked, ended⟩ := bind_eq_ok ran
  obtain ⟨_, rfl⟩ := pure_eq_ok ended
  exact ⟨location, walked⟩

theorem checkPath_result (path : Path) (tree : FileTree) :
    result (checkPath path) tree =
      (if tree.limits.admits path then .ok () else .error .fileTree, tree) := by
  unfold checkPath
  rw [result_get_bind]
  cases tree.limits.admits path <;> rfl

theorem checkPath_eq_ok {path : Path} {before after : FileTree}
    (ran : result (checkPath path) before = (.ok (), after)) : after = before := by
  rw [checkPath_result] at ran
  exact (Prod.mk.inj ran).2.symm

theorem admits_of_checkPath {path : Path} {before after : FileTree}
    (ran : result (checkPath path) before = (.ok (), after)) : before.limits.admits path = true := by
  rw [checkPath_result] at ran
  cases admitted : before.limits.admits path with
  | true => rfl
  | false =>
      rw [admitted] at ran
      cases ran

theorem createDirectories_eq_ok {path : Path} {before after : FileTree}
    (ran : result (createDirectories path) before = (.ok (), after)) :
    result (enterAll path.components) before = (.ok (), after) := by
  unfold createDirectories at ran
  obtain ⟨_, between, checked, walked⟩ := bind_eq_ok ran
  obtain rfl := checkPath_eq_ok checked
  rw [result_get_bind] at walked
  split at walked
  · obtain ⟨_, _, _, thrown⟩ := bind_eq_ok walked
    cases thrown
  · exact walked

/-- A relation between trees that holds along any number of steps if it holds for each. -/
structure Lasting (Allowed : FileTree → FileTree → Prop) : Prop where
  same : ∀ tree, Allowed tree tree
  compose : ∀ {first second third}, Allowed first second → Allowed second third → Allowed first third

/-- Whatever the outcome, the tree that is left is one that the relation allows. -/
def Keeps (Allowed : FileTree → FileTree → Prop) (work : FileWork α) : Prop :=
  ∀ before, Allowed before (result work before).2

namespace Keeps

variable {Allowed : FileTree → FileTree → Prop}

theorem of_result_eq (lasting : Lasting Allowed) {work : FileWork α}
    (unchanged : ∀ tree, (result work tree).2 = tree) : Keeps Allowed work := by
  intro before
  rw [unchanged before]
  exact lasting.same before

theorem pure (lasting : Lasting Allowed) (value : α) : Keeps Allowed (pure value : FileWork α) :=
  of_result_eq lasting fun _ => rfl

theorem throw (lasting : Lasting Allowed) (failure : Failure) :
    Keeps Allowed (throw failure : FileWork α) :=
  of_result_eq lasting fun _ => rfl

theorem bind (lasting : Lasting Allowed) {work : FileWork α} {next : α → FileWork β}
    (first : Keeps Allowed work) (second : ∀ value, Keeps Allowed (next value)) :
    Keeps Allowed (work >>= next) := by
  intro before
  have kept := first before
  rw [result_bind]
  rcases outcome : result work before with ⟨failure | value, between⟩
  · rw [outcome] at kept
    exact kept
  · rw [outcome] at kept
    exact lasting.compose kept (second value between)

theorem get_bind {next : FileTree → FileWork β} (kept : ∀ tree, Keeps Allowed (next tree)) :
    Keeps Allowed (get >>= next) := fun before => kept before before

theorem foldlM (lasting : Lasting Allowed) {step : β → α → FileWork β}
    (kept : ∀ state item, Keeps Allowed (step state item)) (items : List α) (state : β) :
    Keeps Allowed (items.foldlM step state) := by
  induction items generalizing state with
  | nil => exact pure lasting state
  | cons item rest ih =>
      rw [List.foldlM_cons]
      exact bind lasting (kept state item) ih

theorem mapM (lasting : Lasting Allowed) {step : α → FileWork β} {items : List α}
    (kept : ∀ item ∈ items, Keeps Allowed (step item)) : Keeps Allowed (items.mapM step) := by
  induction items with
  | nil =>
      rw [List.mapM_nil]
      exact pure lasting []
  | cons item rest ih =>
      rw [List.mapM_cons]
      apply bind lasting (kept item (by simp))
      intro _
      apply bind lasting (ih fun other member => kept other (by simp [member]))
      intro _
      exact pure lasting _

theorem checkPath (lasting : Lasting Allowed) (path : Path) : Keeps Allowed (checkPath path) := by
  apply of_result_eq lasting
  intro tree
  rw [checkPath_result]

end Keeps

/-- Work that fails for no other reason than the given one. -/
def FailsOnly (cause : Failure) (work : FileWork α) : Prop :=
  ∀ before failure after, result work before = (.error failure, after) → failure = cause

namespace FailsOnly

variable {cause : Failure}

theorem pure (value : α) : FailsOnly cause (pure value : FileWork α) := by
  intro _ _ _ failed
  cases failed

theorem throw_bind (next : α → FileWork β) : FailsOnly cause ((throw cause : FileWork α) >>= next) := by
  intro _ _ _ failed
  cases failed
  rfl

theorem throw : FailsOnly cause (throw cause : FileWork α) := by
  intro _ _ _ failed
  cases failed
  rfl

theorem setRoot (root : Node) : FailsOnly cause (setRoot root) := by
  intro _ _ _ failed
  cases failed

theorem require (value : Option α) : FailsOnly cause (require cause value) := by
  cases value with
  | none => exact throw
  | some found => exact pure found

theorem bind {work : FileWork α} {next : α → FileWork β} (first : FailsOnly cause work)
    (second : ∀ value, FailsOnly cause (next value)) : FailsOnly cause (work >>= next) := by
  intro before failure after failed
  rw [result_bind] at failed
  rcases outcome : result work before with ⟨reason | value, between⟩
  · rw [outcome] at failed
    cases failed
    exact first before failure after outcome
  · rw [outcome] at failed
    exact second value between failure after failed

theorem get_bind {next : FileTree → FileWork β} (only : ∀ tree, FailsOnly cause (next tree)) :
    FailsOnly cause (get >>= next) := fun before => only before before

theorem foldlM {step : β → α → FileWork β} (only : ∀ state item, FailsOnly cause (step state item))
    (items : List α) (state : β) : FailsOnly cause (items.foldlM step state) := by
  induction items generalizing state with
  | nil => exact pure state
  | cons item rest ih =>
      rw [List.foldlM_cons]
      exact bind (only state item) ih

theorem mapM {step : α → FileWork β} (only : ∀ item, FailsOnly cause (step item)) (items : List α) :
    FailsOnly cause (items.mapM step) := by
  induction items with
  | nil =>
      rw [List.mapM_nil]
      exact pure []
  | cons item rest ih =>
      rw [List.mapM_cons]
      apply bind (only item)
      intro _
      apply bind ih
      intro _
      exact pure _

end FailsOnly

theorem write_failsOnly (path : Path) (text : String) : FailsOnly .fileTree (write path text) := by
  apply FailsOnly.get_bind
  intro tree
  apply FailsOnly.bind (.require _)
  intro _
  split
  · exact .throw_bind _
  · exact .setRoot _

theorem enterAll_failsOnly (components : List Component) : FailsOnly .fileTree (enterAll components) := by
  apply FailsOnly.get_bind
  intro _
  apply FailsOnly.bind
  · apply FailsOnly.foldlM
    intro location component
    apply FailsOnly.get_bind
    intro tree
    apply FailsOnly.bind (.require _)
    intro next
    cases tree.root.get? next with
    | none => exact .bind (.setRoot _) fun _ => .pure _
    | some node =>
        cases node with
        | directory entries => exact .pure _
        | file text => exact .throw
  · intro _
    exact .pure _

theorem checkPath_failsOnly (path : Path) : FailsOnly .fileTree (checkPath path) := by
  apply FailsOnly.get_bind
  intro tree
  split
  · exact .throw
  · exact .pure _

theorem createDirectories_failsOnly (path : Path) : FailsOnly .fileTree (createDirectories path) := by
  apply FailsOnly.bind (checkPath_failsOnly path)
  intro _
  apply FailsOnly.get_bind
  intro tree
  split
  · exact .bind (enterAll_failsOnly _) fun _ => .throw
  · exact enterAll_failsOnly _

theorem createParent_failsOnly (path : Path) : FailsOnly .fileTree (createParent path) :=
  .bind (checkPath_failsOnly path.parent) fun _ => enterAll_failsOnly _

theorem remove_failsOnly (path : Path) : FailsOnly .fileTree (remove path) := by
  apply FailsOnly.get_bind
  intro tree
  apply FailsOnly.bind (.require _)
  intro location
  apply FailsOnly.bind (.require _)
  intro node
  cases node with
  | file text => exact .setRoot _
  | directory entries =>
      apply FailsOnly.get_bind
      intro _
      apply FailsOnly.bind (.setRoot _)
      intro _
      split
      · exact .throw_bind _
      · apply FailsOnly.get_bind
        intro _
        split
        · exact .get_bind fun _ => .setRoot _
        · exact .pure _

end ApiReference.FileWork
