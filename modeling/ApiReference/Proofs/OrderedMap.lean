import ApiReference.OrderedMap
import Mathlib.Data.List.Induction
import Mathlib.Data.List.Nodup

namespace ApiReference.OrderedMap

/-! What is found under the names of an ordered map. -/

variable {α β : Type}

theorem lookup_cons_eq_ite (key wanted : String) (value : α) (rest : List (String × α)) :
    ((key, value) :: rest).lookup wanted = if wanted = key then some value else rest.lookup wanted := by
  by_cases same : wanted = key
  · simp [same]
  · have different : (wanted == key) = false := beq_eq_false_iff_ne.mpr same
    simp only [List.lookup_cons, different, same, if_false]

theorem lookup_upsertIn (name : String) (change : Option α → α) (entries : List (String × α))
    (wanted : String) :
    (upsertIn name change entries).lookup wanted =
      if wanted = name then some (change (entries.lookup name)) else entries.lookup wanted := by
  induction entries with
  | nil => simp [upsertIn, lookup_cons_eq_ite]
  | cons entry rest ih =>
      obtain ⟨key, value⟩ := entry
      by_cases changed : key = name
      · subst changed
        by_cases same : wanted = key
        · simp [upsertIn, same]
        · simp [upsertIn, lookup_cons_eq_ite, same]
      · by_cases same : wanted = key
        · simp [upsertIn, changed, same]
        · simp [upsertIn, lookup_cons_eq_ite, changed, same, Ne.symm changed, ih]

@[simp] theorem get?_empty (name : String) : (∅ : OrderedMap α).get? name = none := rfl

theorem get?_upsert (map : OrderedMap α) (name : String) (change : Option α → α) (wanted : String) :
    (map.upsert name change).get? wanted =
      if wanted = name then some (change (map.get? name)) else map.get? wanted :=
  lookup_upsertIn name change map.entries wanted

theorem lookup_eq_some_iff_mem {entries : List (String × α)} (distinct : (entries.map Prod.fst).Nodup)
    {name : String} {value : α} : entries.lookup name = some value ↔ (name, value) ∈ entries := by
  induction entries with
  | nil => simp
  | cons entry rest ih =>
      obtain ⟨key, held⟩ := entry
      obtain ⟨fresh, others⟩ := List.nodup_cons.mp distinct
      by_cases same : name = key
      · subst same
        have absent : (name, value) ∉ rest :=
          fun member => fresh (List.mem_map.mpr ⟨(name, value), member, rfl⟩)
        simp [absent, eq_comm]
      · simp [lookup_cons_eq_ite, same, ih others]

theorem get?_eq_some_iff {map : OrderedMap α} {name : String} {value : α} :
    map.get? name = some value ↔ (name, value) ∈ map.entries :=
  lookup_eq_some_iff_mem map.distinct

theorem isSome_get?_iff {map : OrderedMap α} {name : String} :
    (map.get? name).isSome = true ↔ name ∈ map.keys := by
  simp [Option.isSome_iff_exists, get?_eq_some_iff, keys]

theorem get?_eq_of_perm {first second : OrderedMap α} (perm : first.entries.Perm second.entries)
    (name : String) : first.get? name = second.get? name := by
  apply Option.ext
  intro value
  rw [get?_eq_some_iff, get?_eq_some_iff, perm.mem_iff]

theorem perm_of_lookup_eq {first second : List (String × α)}
    (firstDistinct : (first.map Prod.fst).Nodup) (secondDistinct : (second.map Prod.fst).Nodup)
    (same : ∀ name, first.lookup name = second.lookup name) : first.Perm second := by
  rw [List.perm_ext_iff_of_nodup (.of_map Prod.fst firstDistinct) (.of_map Prod.fst secondDistinct)]
  rintro ⟨name, value⟩
  rw [← lookup_eq_some_iff_mem firstDistinct, ← lookup_eq_some_iff_mem secondDistinct, same]

theorem lookup_map_snd (f : α → β) (entries : List (String × α)) (name : String) :
    (entries.map (Prod.map id f)).lookup name = (entries.lookup name).map f := by
  induction entries with
  | nil => rfl
  | cons entry rest ih =>
      obtain ⟨key, value⟩ := entry
      by_cases same : name = key
      · simp [same]
      · simp [lookup_cons_eq_ite, same, ih]

theorem upsertIn_of_not_mem {name : String} {entries : List (String × α)}
    (fresh : name ∉ entries.map Prod.fst) (change : Option α → α) :
    upsertIn name change entries = entries ++ [(name, change none)] := by
  induction entries with
  | nil => rfl
  | cons entry rest ih =>
      obtain ⟨key, value⟩ := entry
      rw [List.map_cons, List.mem_cons, not_or] at fresh
      simp [upsertIn, Ne.symm fresh.1, ih fresh.2]

/-- Changing the value under one of several names, each of which has the value of a function. -/
theorem upsertIn_map {names : List String} (distinct : names.Nodup) (value : String → α) (name : String)
    (change : Option α → α) :
    upsertIn name change (names.map fun key => (key, value key)) =
      if name ∈ names then names.map fun key => (key, if key = name then change (some (value key)) else value key)
      else (names.map fun key => (key, value key)) ++ [(name, change none)] := by
  induction names with
  | nil => simp [upsertIn]
  | cons first rest ih =>
      obtain ⟨fresh, others⟩ := List.nodup_cons.mp distinct
      by_cases same : first = name
      · subst same
        have unchanged : ∀ key ∈ rest, key ≠ first := fun key member equal => fresh (equal ▸ member)
        simp +contextual [upsertIn, unchanged]
      · by_cases later : name ∈ rest
        · simp [upsertIn, same, ih others, later]
        · simp [upsertIn, same, Ne.symm same, ih others, later]

theorem eraseDups_concat (names : List String) (name : String) :
    (names ++ [name]).eraseDups = if name ∈ names then names.eraseDups else names.eraseDups ++ [name] := by
  rw [List.eraseDups_append]
  by_cases known : name ∈ names
  · simp [List.removeAll, known]
  · simp [List.removeAll, known, List.eraseDups_cons]

theorem nodup_eraseDups (names : List String) : names.eraseDups.Nodup := by
  induction names using List.reverseRecOn with
  | nil => exact List.nodup_nil
  | append_singleton names name ih =>
      rw [eraseDups_concat]
      split
      · exact ih
      · rename_i fresh
        rw [← List.concat_eq_append]
        exact ih.concat (mt List.mem_eraseDups.mp fresh)

theorem entries_foldl_insert (map : OrderedMap α) (added : List (String × α))
    (distinct : ((map.entries ++ added).map Prod.fst).Nodup) :
    (added.foldl (fun map (name, value) => map.insert name value) map).entries =
      map.entries ++ added := by
  induction added generalizing map with
  | nil => simp
  | cons entry rest ih =>
      obtain ⟨name, value⟩ := entry
      have fresh : name ∉ map.entries.map Prod.fst := by
        rw [List.map_append, List.nodup_append] at distinct
        intro known
        exact distinct.2.2 name known name (by simp) rfl
      have inserted : (map.insert name value).entries = map.entries ++ [(name, value)] :=
        upsertIn_of_not_mem fresh _
      rw [List.foldl_cons, ih, inserted, List.append_assoc, List.singleton_append]
      rwa [inserted, List.append_assoc, List.singleton_append]

theorem ofList_entries (map : OrderedMap α) : ofList map.entries = map := by
  have entries := entries_foldl_insert ∅ map.entries map.distinct
  cases map
  unfold ofList
  rw [mk.injEq]
  exact entries

end ApiReference.OrderedMap
