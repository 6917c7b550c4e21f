import ApiReference.Proofs.Json.Record

namespace ApiReference.Json

/-! The ways to write one value. A record may be an object with its fields in any order, with
other members between them and without the fields that have their default, or the array of all
its fields; a choice without data may be an object that gives its name `null`. -/

variable {α : Type}

/-- The ways to write a choice that is written as `written`. -/
inductive ChoiceVariant : Json → Json → Prop
  | text (name : String) : ChoiceVariant (ofText name) (ofText name)
  | object (name : String) : ChoiceVariant (ofText name) (ofMembers [(name, .null)])

theorem ChoiceVariant.choice?_eq {written json : Json} (variant : ChoiceVariant written json) :
    json.choice? = written.choice? := by
  cases variant <;> rfl

/-- The items are written one by one, in their order. -/
def ListVariant (variant : α → Json → Prop) (values : List α) (json : Json) : Prop :=
  ∃ items, json = .array items ∧ List.Forall₂ variant values items

/-- The values are written one by one under their names, in their order. -/
def MapVariant (variant : α → Json → Prop) (map : OrderedMap α) (json : Json) : Prop :=
  ∃ members, json = ofMembers members ∧
    List.Forall₂ (fun entry member => member.1 = entry.1 ∧ variant entry.2 member.2) map.entries members

/-- The ways to write the value of a field, and whether the field may be left out. -/
structure Field where
  name : String
  writes : Json → Prop
  omissible : Prop

namespace Field

def required (name : String) (writes : Json → Prop) : Field := ⟨name, writes, False⟩

/-- A field that may be left out when it has its default. -/
def defaulted (name : String) (writes : Json → Prop) (value default : α) : Field :=
  ⟨name, writes, value = default⟩

/-- A field that is `null`, or left out, when it has no value. -/
def optional (name : String) (encode : α → Json) (value : Option α) : Field :=
  defaulted name (· = (value.map encode).getD .null) value none

/-- The field stands among the given ones in one of its ways, or is left out rightly. -/
def Found (field : Field) (given : List (String × Json)) : Prop :=
  match given.lookup field.name with
  | some json => field.writes json
  | none => field.omissible

/-- The fields that are written, in their order. -/
inductive Chosen : List Field → List (String × Json) → Prop
  | nil : Chosen [] []
  | write {field : Field} {json : Json} {fields : List Field} {members : List (String × Json)}
      (written : field.writes json) (rest : Chosen fields members) :
      Chosen (field :: fields) ((field.name, json) :: members)
  | skip {field : Field} {fields : List Field} {members : List (String × Json)}
      (left : field.omissible) (rest : Chosen fields members) : Chosen (field :: fields) members

end Field

/-- The ways to write a record. -/
inductive RecordVariant (fields : List Field) : Json → Prop
  | array {items : List Json} (written : List.Forall₂ Field.writes fields items) :
      RecordVariant fields (.array items)
  | object {own other members : List (String × Json)} (chosen : Field.Chosen fields own)
      (foreign : ∀ member ∈ other, member.1 ∉ fields.map Field.name) (mixed : members.Perm (own ++ other)) :
      RecordVariant fields (ofMembers members)

section Reading

variable {field : Field} {fields : List Field} {given own : List (String × Json)}

namespace Field

theorem Chosen.names_sublist (chosen : Chosen fields own) : (own.map Prod.fst).Sublist (fields.map Field.name) := by
  induction chosen with
  | nil => exact .slnil
  | write written rest ih => exact ih.cons_cons _
  | skip left rest ih => exact ih.cons _

theorem found_of_not_mem (left : field.omissible) (absent : field.name ∉ given.map Prod.fst) : field.Found given := by
  have none : given.lookup field.name = none := by
    rw [List.lookup_eq_none_iff]
    intro member held
    simpa using fun same => absent (List.mem_map.mpr ⟨member, held, same.symm⟩)
  rw [Found, none]
  exact left

theorem found_cons {json : Json} (written : field.writes json) (fresh : field.name ∉ fields.map Field.name)
    (rest : ∀ other ∈ fields, other.Found given) :
    ∀ other ∈ field :: fields, other.Found ((field.name, json) :: given) := by
  intro other member
  rw [Found, OrderedMap.lookup_cons_eq_ite]
  rcases List.mem_cons.mp member with rfl | member
  · rw [if_pos rfl]
    exact written
  · have apart : other.name ≠ field.name := fun same => fresh (same ▸ List.mem_map_of_mem member)
    rw [if_neg apart]
    exact rest other member

theorem Chosen.found (chosen : Chosen fields own) (distinct : (fields.map Field.name).Nodup) :
    ∀ field ∈ fields, field.Found own := by
  induction chosen with
  | nil => simp
  | write written rest ih =>
      obtain ⟨fresh, others⟩ := List.nodup_cons.mp distinct
      exact found_cons written fresh (ih others)
  | skip left rest ih =>
      obtain ⟨fresh, others⟩ := List.nodup_cons.mp distinct
      intro field member
      rcases List.mem_cons.mp member with rfl | member
      · exact found_of_not_mem left fun known => fresh (rest.names_sublist.subset known)
      · exact ih others field member

theorem found_zip {items : List Json} (written : List.Forall₂ writes fields items)
    (distinct : (fields.map Field.name).Nodup) : ∀ field ∈ fields, field.Found ((fields.map Field.name).zip items) := by
  induction written with
  | nil => simp
  | cons own rest ih =>
      obtain ⟨fresh, others⟩ := List.nodup_cons.mp distinct
      exact found_cons own fresh (ih others)

variable {name : String} {writes : Json → Prop} {decode? : Json → Option α} {value default : α}

theorem Found.required? (found : (required name writes).Found given)
    (decoded : ∀ json, writes json → decode? json = some value) : Json.required? given name decode? = some value := by
  unfold Found at found
  rw [Json.required?]
  split at found
  · rename_i json held
    exact (congrArg (Option.bind · decode?) held).trans (decoded json found)
  · exact found.elim

theorem Found.withDefault? (found : (defaulted name writes value default).Found given)
    (decoded : ∀ json, writes json → decode? json = some value) :
    Json.withDefault? given name decode? default = some value := by
  unfold Found at found
  rw [Json.withDefault?]
  split at found
  · rename_i json held
    rw [show given.lookup name = some json from held]
    exact decoded json found
  · rename_i absent
    rw [show given.lookup name = none from absent]
    exact congrArg some found.symm

theorem Found.optional? {encode : α → Json} {decode? : Json → Option (Option α)} {value : Option α}
    (found : (optional name encode value).Found given) (absent : decode? .null = some none)
    (decoded : ∀ value, decode? (encode value) = some (some value)) :
    Json.withDefault? given name decode? none = some value := by
  refine Found.withDefault? found fun json written => ?_
  rw [written]
  cases value with
  | none => exact absent
  | some value => exact decoded value

theorem Found.optionalText? {text : Option String} (found : (optional name ofText text).Found given) :
    Json.withDefault? given name Json.optionalText? none = some text :=
  found.optional? rfl fun _ => rfl

theorem Found.text? {text : String} (found : (required name (· = ofText text)).Found given) :
    Json.required? given name Json.text? = some text :=
  found.required? fun _ written => written ▸ rfl

theorem Found.flag? {flag default : Bool} (found : (defaulted name (· = .bool flag) flag default).Found given) :
    Json.withDefault? given name Json.flag? default = some flag :=
  found.withDefault? fun _ written => written ▸ rfl

theorem Found.texts? {texts default : List String}
    (found : (defaulted name (· = ofTexts texts) texts default).Found given) :
    Json.withDefault? given name (list? Json.text?) default = some texts :=
  found.withDefault? fun _ written => written ▸ Faithful.texts.decoded texts

end Field

/-- Whatever way a record is written in, its fields are found. -/
theorem RecordVariant.record? {declared : List String} {json : Json} (variant : RecordVariant fields json)
    (named : fields.map Field.name = declared) (distinct : declared.Nodup) :
    ∃ given, json.record? declared = some given ∧ ∀ field ∈ fields, field.Found given := by
  subst named
  cases variant with
  | @array items written =>
      refine ⟨(fields.map Field.name).zip items, ?_, Field.found_zip written distinct⟩
      rw [Json.record?, if_pos]
      rw [List.length_map, written.length_eq]
  | @object own other members chosen foreign mixed =>
      let isOwn (member : String × Json) : Bool := member.1 ∈ fields.map Field.name
      have ownKept : own.filter isOwn = own := by
        rw [List.filter_eq_self]
        intro member held
        simpa [isOwn] using chosen.names_sublist.subset (List.mem_map_of_mem held)
      have otherDropped : other.filter isOwn = [] := by
        rw [List.filter_eq_nil_iff]
        intro member held
        simpa [isOwn] using foreign member held
      have perm : (members.filter isOwn).Perm own := by
        have split := mixed.filter isOwn
        rwa [List.filter_append, ownKept, otherDropped, List.append_nil] at split
      have ownDistinct : (own.map Prod.fst).Nodup := distinct.sublist chosen.names_sublist
      have keptDistinct : ((members.filter isOwn).map Prod.fst).Nodup := (perm.map Prod.fst).nodup_iff.mpr ownDistinct
      refine ⟨members.filter isOwn, ?_, ?_⟩
      · simp only [Json.record?, ofMembers]
        rw [mapM_map_of_inverse (by simp)]
        exact if_pos keptDistinct
      · intro field member
        have same : (members.filter isOwn).lookup field.name = own.lookup field.name :=
          @OrderedMap.get?_eq_of_perm _ ⟨_, keptDistinct⟩ ⟨_, ownDistinct⟩ perm field.name
        rw [Field.Found, same]
        exact chosen.found distinct field member

end Reading

/-- What stands in a slot is one of the ways to write the field, and only a field that may be
left out has an empty slot. -/
def Field.Fits (field : Field) (slot : String × Option Json) : Prop :=
  slot.1 = field.name ∧ slot.2.elim field.omissible field.writes

namespace Field

theorem chosen_present {fields : List Field} {slots : List (String × Option Json)}
    (fitting : List.Forall₂ Fits fields slots) : Chosen fields (present slots) := by
  induction fitting with
  | nil => exact .nil
  | @cons field slot fields slots fits rest ih =>
      obtain ⟨name, value⟩ := slot
      obtain ⟨rfl, held⟩ := fits
      cases value with
      | none => exact .skip held ih
      | some json => exact .write held ih

theorem fits_required {name : String} {writes : Json → Prop} {json : Json} (written : writes json) :
    (required name writes).Fits (name, some json) :=
  ⟨rfl, written⟩

theorem fits_defaulted {name : String} {writes : Json → Prop} {value default : α} {json : Json} (written : writes json) :
    (defaulted name writes value default).Fits (name, some json) :=
  ⟨rfl, written⟩

theorem fits_optional (name : String) (encode : α → Json) (value : Option α) :
    (optional name encode value).Fits (name, value.map encode) := by
  cases value <;> exact ⟨rfl, rfl⟩

end Field

theorem recordVariant_present {fields : List Field} {slots : List (String × Option Json)}
    (fitting : List.Forall₂ Field.Fits fields slots) : RecordVariant fields (ofMembers (present slots)) :=
  @RecordVariant.object _ _ [] _ (Field.chosen_present fitting) (by simp) (by rw [List.append_nil])

/-- A value is decoded from every way to write it, and its encoding is one of these ways. -/
structure Stable (variant : α → Json → Prop) (encode : α → Json) (decode? : Json → Option α) : Prop where
  encoded : ∀ value, variant value (encode value)
  decoded : ∀ value json, variant value json → decode? json = some value

theorem mapM_of_forall₂ {β : Type} {inverse? : β → Option α} {values : List α} {items : List β}
    (each : List.Forall₂ (fun value item => inverse? item = some value) values items) :
    items.mapM inverse? = some values := by
  induction each with
  | nil => rfl
  | cons first rest ih => simp [first, ih]

namespace Stable

variable {variant : α → Json → Prop} {encode : α → Json} {decode? : Json → Option α}

theorem list (stable : Stable variant encode decode?) :
    Stable (ListVariant variant) (fun values => .array (values.map encode)) (list? decode?) where
  encoded values := by
    refine ⟨_, rfl, ?_⟩
    rw [List.forall₂_map_right_iff, List.forall₂_same]
    exact fun value _ => stable.encoded value
  decoded values json written := by
    obtain ⟨items, rfl, paired⟩ := written
    exact mapM_of_forall₂ (paired.imp stable.decoded)

theorem map (stable : Stable variant encode decode?) :
    Stable (MapVariant variant) (ofMap encode) (map? decode?) where
  encoded map := by
    refine ⟨_, rfl, ?_⟩
    rw [List.forall₂_map_right_iff, List.forall₂_same]
    exact fun entry _ => ⟨rfl, stable.encoded entry.2⟩
  decoded map json written := by
    obtain ⟨members, rfl, paired⟩ := written
    simp only [map?, ofMembers]
    rw [@mapM_of_forall₂ _ _ _ map.entries]
    · exact congrArg some map.ofList_entries
    · rw [List.forall₂_map_right_iff]
      refine paired.imp fun entry member same => ?_
      simp [same.1, stable.decoded _ _ same.2]

end Stable

end ApiReference.Json
