namespace ApiReference

/-! Values under distinct names, in the order in which the names first came. -/

structure OrderedMap (α : Type) where
  entries : List (String × α)
  distinct : (entries.map Prod.fst).Nodup
deriving DecidableEq

namespace OrderedMap

variable {α β : Type}

/-- Changes the value under a name in its place, or puts a first one at the end. -/
def upsertIn (name : String) (change : Option α → α) : List (String × α) → List (String × α)
  | [] => [(name, change none)]
  | (key, value) :: rest =>
      if key = name then (key, change (some value)) :: rest
      else (key, value) :: upsertIn name change rest

theorem keys_upsertIn (name : String) (change : Option α → α) (entries : List (String × α)) :
    (upsertIn name change entries).map Prod.fst =
      if name ∈ entries.map Prod.fst then entries.map Prod.fst
      else entries.map Prod.fst ++ [name] := by
  induction entries with
  | nil => simp [upsertIn]
  | cons entry rest ih =>
      obtain ⟨key, value⟩ := entry
      by_cases same : key = name
      · simp [upsertIn, same]
      · have other : ¬ name = key := fun equal => same equal.symm
        by_cases known : name ∈ rest.map Prod.fst
        · rw [if_pos known] at ih
          rw [if_pos (by simp only [List.map_cons, List.mem_cons]; exact .inr known)]
          simp [upsertIn, same, ih]
        · rw [if_neg known] at ih
          rw [if_neg (by simp only [List.map_cons, List.mem_cons]; exact not_or.mpr ⟨other, known⟩)]
          simp [upsertIn, same, ih]

theorem distinct_upsertIn (name : String) (change : Option α → α) {entries : List (String × α)}
    (distinct : (entries.map Prod.fst).Nodup) :
    ((upsertIn name change entries).map Prod.fst).Nodup := by
  rw [keys_upsertIn]
  split
  · exact distinct
  · rename_i unknown
    refine List.nodup_append.mpr ⟨distinct, by simp, ?_⟩
    intro key member other isNew equal
    rw [List.mem_singleton] at isNew
    exact unknown (isNew ▸ equal ▸ member)

def empty : OrderedMap α := ⟨[], List.nodup_nil⟩

instance : EmptyCollection (OrderedMap α) := ⟨empty⟩

instance : Inhabited (OrderedMap α) := ⟨empty⟩

def keys (map : OrderedMap α) : List String := map.entries.map Prod.fst

def get? (map : OrderedMap α) (name : String) : Option α := map.entries.lookup name

def isEmpty (map : OrderedMap α) : Bool := map.entries.isEmpty

def size (map : OrderedMap α) : Nat := map.entries.length

def upsert (map : OrderedMap α) (name : String) (change : Option α → α) : OrderedMap α :=
  ⟨upsertIn name change map.entries, distinct_upsertIn name change map.distinct⟩

/-- Puts a value under a name; a name already there keeps its place. -/
def insert (map : OrderedMap α) (name : String) (value : α) : OrderedMap α :=
  map.upsert name fun _ => value

/-- Of several values under one name the last one stays, in the place of the first. -/
def ofList (entries : List (String × α)) : OrderedMap α :=
  entries.foldl (fun map (name, value) => map.insert name value) ∅

theorem keys_filterMap_sublist (f : String → α → Option β) (entries : List (String × α)) :
    ((entries.filterMap fun (name, value) => (f name value).map (name, ·)).map Prod.fst).Sublist
      (entries.map Prod.fst) := by
  induction entries with
  | nil => simp
  | cons entry rest ih =>
      obtain ⟨name, value⟩ := entry
      cases kept : f name value with
      | none => simpa [kept] using ih.cons name
      | some image => simpa [kept] using ih.cons_cons name

/-- Changes every value and drops those that have no image. -/
def filterMap (map : OrderedMap α) (f : String → α → Option β) : OrderedMap β :=
  ⟨map.entries.filterMap fun (name, value) => (f name value).map (name, ·),
    map.distinct.sublist (keys_filterMap_sublist f map.entries)⟩

end OrderedMap

end ApiReference
