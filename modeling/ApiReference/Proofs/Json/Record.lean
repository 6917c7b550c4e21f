import ApiReference.Json.Record
import ApiReference.Proofs.Json.RoundTrip
import ApiReference.Proofs.OrderedMap
import ApiReference.Symbols.Encoding

namespace ApiReference.Json

/-! Values that are written as JSON and found again in it. -/

variable {α β : Type}

/-- Every value is written without numbers and decoded from what is written. -/
structure Faithful (encode : α → Json) (decode? : Json → Option α) : Prop where
  spelled : ∀ value, (encode value).Spelled
  decoded : ∀ value, decode? (encode value) = some value

theorem mapM_map_of_inverse {f : α → β} {inverse? : β → Option α}
    (inverse : ∀ value, inverse? (f value) = some value) (values : List α) :
    (values.map f).mapM inverse? = some values := by
  induction values with
  | nil => rfl
  | cons value values ih => simp [inverse, ih]

theorem Spelled.ofMembers {members : List (String × Json)}
    (each : ∀ member ∈ members, member.2.Spelled) : (ofMembers members).Spelled := by
  refine .object ?_ ?_
  · intro member written
    obtain ⟨named, _, rfl⟩ := List.mem_map.mp written
    rfl
  · intro member written
    obtain ⟨named, held, rfl⟩ := List.mem_map.mp written
    exact each named held

namespace Faithful

theorem text : Faithful ofText text? where
  spelled := .text
  decoded _ := rfl

theorem flag : Faithful .bool flag? where
  spelled := .bool
  decoded _ := rfl

variable {encode : α → Json} {decode? : Json → Option α}

theorem list (faithful : Faithful encode decode?) :
    Faithful (fun values => .array (values.map encode)) (list? decode?) where
  spelled values := by
    refine .array fun item written => ?_
    obtain ⟨value, _, rfl⟩ := List.mem_map.mp written
    exact faithful.spelled value
  decoded values := mapM_map_of_inverse faithful.decoded values

theorem texts : Faithful ofTexts (list? text?) := text.list

theorem map (faithful : Faithful encode decode?) : Faithful (ofMap encode) (map? decode?) where
  spelled map := by
    refine .ofMembers fun member written => ?_
    obtain ⟨entry, _, rfl⟩ := List.mem_map.mp written
    exact faithful.spelled entry.2
  decoded map := by
    simp only [ofMap, ofMembers, map?, List.map_map]
    rw [mapM_map_of_inverse]
    · exact congrArg some map.ofList_entries
    · simp [faithful.decoded]

end Faithful

/-- What stands in the declared fields of a record; a field without a value is left out. -/
structure Slots (declared : List String) where
  values : List (String × Option Json)
  names : values.map Prod.fst = declared := by rfl
  distinct : declared.Nodup := by decide

/-- The fields that have a value, in declared order. -/
def present (values : List (String × Option Json)) : List (String × Json) :=
  values.filterMap fun (name, value) => value.map (name, ·)

theorem present_nil : present [] = [] := rfl

theorem present_cons (name : String) (value : Option Json) (values : List (String × Option Json)) :
    present ((name, value) :: values) = (value.map (name, ·)).toList ++ present values := by
  cases value <;> rfl

theorem optionalText_eq_toList (name : String) (text : Option String) :
    optionalText name text = ((text.map ofText).map (name, ·)).toList := by
  cases text <;> rfl

theorem names_present_sublist (values : List (String × Option Json)) :
    ((present values).map Prod.fst).Sublist (values.map Prod.fst) :=
  OrderedMap.keys_filterMap_sublist (fun _ value => value) values

theorem lookup_present {values : List (String × Option Json)}
    (distinct : (values.map Prod.fst).Nodup) (name : String) :
    (present values).lookup name = (values.lookup name).join := by
  induction values with
  | nil => rfl
  | cons slot values ih =>
      obtain ⟨key, value⟩ := slot
      obtain ⟨fresh, others⟩ := List.nodup_cons.mp distinct
      rw [present_cons, List.lookup_append, OrderedMap.lookup_cons_eq_ite, ih others]
      by_cases same : name = key
      · subst same
        have absent : values.lookup name = none :=
          List.lookup_eq_none_iff.mpr fun slot member => by
            simpa using fun equal => fresh (List.mem_map.mpr ⟨slot, member, equal.symm⟩)
        cases value <;> simp [absent]
      · cases value <;> simp [OrderedMap.lookup_cons_eq_ite, same]

namespace Slots

variable {declared : List String} (slots : Slots declared)

theorem distinct_names : (slots.values.map Prod.fst).Nodup := by
  rw [slots.names]
  exact slots.distinct

/-- A record written with its present fields is taken apart into them. -/
theorem record?_present :
    record? declared (ofMembers (present slots.values)) = some (present slots.values) := by
  have sublist := names_present_sublist slots.values
  rw [slots.names] at sublist
  have kept : ((present slots.values).filter fun field => field.1 ∈ declared) =
      present slots.values := by
    rw [List.filter_eq_self]
    intro field member
    simpa using sublist.subset (List.mem_map_of_mem member)
  simp only [record?, ofMembers]
  rw [mapM_map_of_inverse]
  · rw [Option.bind_eq_bind, Option.bind_some, kept, if_pos (slots.distinct.sublist sublist)]
    rfl
  · simp

theorem spelled_present (each : ∀ slot ∈ slots.values, ∀ json ∈ slot.2, json.Spelled) :
    (ofMembers (present slots.values)).Spelled := by
  refine .ofMembers fun field member => ?_
  obtain ⟨⟨name, value⟩, held, kept⟩ := List.mem_filterMap.mp member
  obtain ⟨json, rfl, rfl⟩ := Option.map_eq_some_iff.mp kept
  exact each _ held json rfl

theorem required?_present (name : String) (decode? : Json → Option α) :
    required? (present slots.values) name decode? =
      (slots.values.lookup name).join.bind decode? := by
  rw [required?, lookup_present slots.distinct_names]

theorem withDefault?_present (name : String) (decode? : Json → Option α) (default : α) :
    withDefault? (present slots.values) name decode? default =
      (slots.values.lookup name).join.elim (some default) decode? := by
  rw [withDefault?, lookup_present slots.distinct_names]
  cases (slots.values.lookup name).join <;> rfl

end Slots

theorem elim_map_of_decoded {encode : α → Json} {decode? : Json → Option (Option α)}
    (decoded : ∀ value, decode? (encode value) = some (some value)) (value : Option α) :
    (value.map encode).elim (some none) decode? = some value := by
  cases value with
  | none => rfl
  | some value => exact decoded value

theorem elim_map_ofText (text : Option String) :
    (text.map ofText).elim (some none) optionalText? = some text :=
  elim_map_of_decoded (fun _ => rfl) text

end ApiReference.Json
