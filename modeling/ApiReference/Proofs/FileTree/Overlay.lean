import ApiReference.Proofs.FileTree.View

namespace ApiReference.View

/-! Laying several items over a view: which of them shows at a location, and when none of them is
in the way of another. -/

abbrev Item := Node.Location × Shape

variable {view : View} {items : List Item} {location : Node.Location}

theorem overlay_append (view : View) (front back : List Item) :
    view.overlay (front ++ back) = (view.overlay front).overlay back :=
  List.foldl_append

theorem overlay_elsewhere (apart : ∀ item ∈ items, ¬ location <+: item.1) :
    view.overlay items location = view location := by
  induction items generalizing view with
  | nil => rfl
  | cons item rest ih =>
      have rested := @ih (view.lay item.1 item.2) fun other member => apart other (List.mem_cons_of_mem _ member)
      rw [lay_elsewhere view item.2 (apart item List.mem_cons_self)] at rested
      exact rested

/-- The last item at or below a location decides what is there. -/
theorem overlay_decided {front back : List Item} {item : Item} (hit : location <+: item.1)
    (apart : ∀ later ∈ back, ¬ location <+: later.1) :
    view.overlay (front ++ item :: back) location = some (if location = item.1 then item.2 else .directory) := by
  rw [overlay_append]
  change View.overlay (View.lay _ item.1 item.2) back location = _
  rw [overlay_elsewhere apart]
  split
  · rename_i same
    rw [same, lay_self]
  · rename_i other
    exact lay_above _ _ hit other

theorem overlay_last {front back : List Item} {shape : Shape} (apart : ∀ later ∈ back, ¬ location <+: later.1) :
    view.overlay (front ++ (location, shape) :: back) location = some shape := by
  rw [overlay_decided List.prefix_rfl apart, if_pos rfl]

theorem exists_last_hit (hit : ∃ item ∈ items, location <+: item.1) :
    ∃ front item back, items = front ++ item :: back ∧ location <+: item.1 ∧
      ∀ later ∈ back, ¬ location <+: later.1 := by
  induction items with
  | nil => simp at hit
  | cons item rest ih =>
      by_cases later : ∃ other ∈ rest, location <+: other.1
      · obtain ⟨front, last, back, rfl, hit, apart⟩ := ih later
        exact ⟨item :: front, last, back, rfl, hit, apart⟩
      · simp only [not_exists, not_and] at later
        obtain ⟨found, member, hit⟩ := hit
        rcases List.mem_cons.mp member with rfl | member
        · exact ⟨[], found, rest, rfl, hit, later⟩
        · exact absurd hit (later found member)

/-- What is at a location was there before, or comes from an item whatever was there. -/
theorem overlay_cases (items : List Item) (location : Node.Location) :
    (∀ item ∈ items, ¬ location <+: item.1) ∧ (∀ view : View, view.overlay items location = view location) ∨
      ∃ item ∈ items, location <+: item.1 ∧
        ∀ view : View, view.overlay items location = some (if location = item.1 then item.2 else .directory) := by
  by_cases hit : ∃ item ∈ items, location <+: item.1
  · right
    obtain ⟨front, item, back, rfl, hit, apart⟩ := exists_last_hit hit
    exact ⟨item, by simp, hit, fun _ => overlay_decided hit apart⟩
  · left
    have apart : ∀ item ∈ items, ¬ location <+: item.1 := by simpa using hit
    exact ⟨apart, fun _ => overlay_elsewhere apart⟩

/-- A directory laid above a place does not show once something is laid there. -/
theorem lay_lay_of_prefix (view : View) {above place : Node.Location} (begins : above <+: place) (shape : Shape) :
    (view.lay above .directory).lay place shape = view.lay place shape := by
  funext location
  by_cases onWay : location <+: place
  · by_cases same : location = place
    · rw [same, lay_self, lay_self]
    · rw [lay_above _ _ onWay same, lay_above _ _ onWay same]
  · rw [lay_elsewhere _ _ onWay, lay_elsewhere _ _ onWay, lay_elsewhere _ _ fun further => onWay (further.trans begins)]

/-- Items that are laid twice look as if they were laid once. -/
theorem overlay_overlay (view : View) (items : List Item) : (view.overlay items).overlay items = view.overlay items := by
  funext location
  rcases overlay_cases items location with ⟨_, same⟩ | ⟨_, _, _, decided⟩
  · rw [same]
  · rw [decided, decided]

/-- Below a file there is nothing, and in its place nothing but a file. -/
def Item.Spares (one other : Item) : Prop :=
  one.2 ≠ .directory → one.1 <+: other.1 → other.1 = one.1 ∧ other.2 ≠ .directory

/-- No item is in the way of another one. -/
def Coherent (items : List Item) : Prop := ∀ one ∈ items, ∀ other ∈ items, Item.Spares one other

/-- What an item may find on its way: a directory, but in its own place something of its own kind. -/
def Item.Suits (item : Item) (location : Node.Location) (shape : Shape) : Prop :=
  shape = .directory ↔ (location = item.1 → item.2 = .directory)

/-- An item that can be laid without taking a file for a directory or a directory for a file. -/
def Admits (view : View) (item : Item) : Prop :=
  ∀ location shape, location <+: item.1 → view location = some shape → item.Suits location shape

theorem Item.Spares.suits {one other : Item} (spares : one.Spares other) (spared : other.Spares one)
    (hit : location <+: one.1) (above : location <+: other.1) :
    other.Suits location (if location = one.1 then one.2 else .directory) := by
  split
  · rename_i same
    constructor
    · intro isDirectory ownPlace
      by_contra isFile
      exact (spared isFile (ownPlace ▸ hit)).2 isDirectory
    · intro ofKind
      by_contra isFile
      obtain ⟨samePlace, otherFile⟩ := spares isFile (same ▸ above)
      exact otherFile (ofKind (same.trans samePlace.symm))
  · rename_i differ
    refine ⟨?_, fun _ => rfl⟩
    intro _ ownPlace
    by_contra isFile
    exact differ (ownPlace.trans (spared isFile (ownPlace ▸ hit)).1.symm)

theorem Admits.lay {one other : Item} (admits : view.Admits other) (spares : one.Spares other)
    (spared : other.Spares one) : (view.lay one.1 one.2).Admits other := by
  intro location shape above held
  by_cases hit : location <+: one.1
  · have decided := @overlay_decided view location [] [] one hit (List.forall_mem_nil _)
    cases held.symm.trans decided
    exact spares.suits spared hit above
  · rw [lay_elsewhere view one.2 hit] at held
    exact admits location shape above held

theorem Admits.not_directory {place : Node.Location} {text : String} (admits : view.Admits (place, .file text)) :
    view place ≠ some .directory := by
  intro isDirectory
  have suits := admits place .directory List.prefix_rfl isDirectory
  simp [Item.Suits] at suits

theorem not_prefix_dropLast {place : Node.Location} (deep : place ≠ []) : ¬ place <+: place.dropLast := by
  intro upTo
  have shorter := upTo.length_le
  have positive := List.length_pos_iff.mpr deep
  rw [List.length_dropLast] at shorter
  omega

/-- On the way to the directory that will hold an item nothing is in the way either. -/
theorem Admits.parent {item : Item} (admits : view.Admits item) (deep : item.1 ≠ []) :
    view.Admits (item.1.dropLast, .directory) := by
  intro location shape above held
  have shorter : location ≠ item.1 := by
    rintro rfl
    exact not_prefix_dropLast deep above
  have suits := admits location shape (above.trans (List.dropLast_prefix _)) held
  exact ⟨fun _ _ => rfl, fun _ => suits.mpr fun same => absurd same shorter⟩

/-- What can be laid below a location that can be reached can be laid from the top. -/
theorem Admits.append {base : Node.Location} {item : Item} (reached : view.Admits (base, .directory))
    (admits : (view.below base).Admits item) : view.Admits (base ++ item.1, item.2) := by
  intro location shape above held
  by_cases below : base <+: location
  · obtain ⟨rest, rfl⟩ := below
    have suits := admits rest shape ((List.prefix_append_right_inj base).mp above) held
    simpa [Item.Suits] using suits
  · have upTo : location <+: base :=
      (List.prefix_or_prefix_of_prefix above (List.prefix_append base item.1)).resolve_right below
    have isDirectory : shape = .directory := (reached location shape upTo held).mpr fun _ => rfl
    refine ⟨fun _ same => absurd (same ▸ List.prefix_append base item.1) below, fun _ => isDirectory⟩

/-- Items that are not in the way of each other can be laid again. -/
theorem Coherent.admits (coherent : Coherent items) {item : Item} (member : item ∈ items) :
    (view.overlay items).Admits item := by
  intro location shape above held
  rcases overlay_cases items location with ⟨apart, _⟩ | ⟨other, listed, hit, decided⟩
  · exact absurd above (apart item member)
  · cases held.symm.trans (decided view)
    exact (coherent other listed item member).suits (coherent item member other listed) hit above

theorem overlay_ne_none {item : Item} (member : item ∈ items) (hit : location <+: item.1) :
    ∃ shape, view.overlay items location = some shape := by
  rcases overlay_cases items location with ⟨apart, _⟩ | ⟨_, _, _, decided⟩
  · exact absurd hit (apart item member)
  · exact ⟨_, decided view⟩

theorem Coherent.overlay_above (coherent : Coherent items) {item : Item} (member : item ∈ items)
    (above : location <+: item.1) (other : location ≠ item.1) : view.overlay items location = some .directory := by
  obtain ⟨shape, held⟩ := overlay_ne_none member above
  rw [held, (coherent.admits member location shape above held).mpr fun same => absurd same other]

/-- In the place of an item there is something of its kind. -/
theorem Coherent.overlay_self (coherent : Coherent items) {item : Item} (member : item ∈ items) :
    ∃ shape, view.overlay items item.1 = some shape ∧ (shape = .directory ↔ item.2 = .directory) := by
  obtain ⟨shape, held⟩ := overlay_ne_none member List.prefix_rfl
  have suits := coherent.admits member item.1 shape List.prefix_rfl held
  exact ⟨shape, held, fun isDirectory => suits.mp isDirectory rfl, fun ofKind => suits.mpr fun _ => ofKind⟩

end ApiReference.View
