import ApiReference.Proofs.Json.Record
import ApiReference.Symbols.Decoding

namespace ApiReference

/-! Symbol tables come back from their JSON text as they were: the order of modules,
classes and attributes is kept, and an absent field stays apart from an empty one. -/

open Json

theorem SymbolKind.faithful : Faithful encode decode? where
  spelled kind := by cases kind <;> exact .text _
  decoded kind := by cases kind <;> rfl

theorem AttributeKind.faithful : Faithful encode decode? where
  spelled kind := by cases kind <;> exact .text _
  decoded kind := by cases kind <;> rfl

theorem Binding.faithful : Faithful encode decode? where
  spelled binding := by cases binding <;> exact .text _
  decoded binding := by cases binding <;> rfl

namespace AttributeRecord

def slots (record : AttributeRecord) : Slots fieldNames where
  values := [("kind", some record.kind.encode), ("owner", record.owner.map ofText),
    ("doc", record.doc.map ofText), ("signature", record.signature.map ofText),
    ("type", record.typeId.map ofText), ("value", record.value.map ofText)]

theorem encode_eq_ofMembers (record : AttributeRecord) :
    record.encode = .ofMembers (present record.slots.values) := by
  simp [encode, slots, present_cons, present_nil, optionalText_eq_toList]

theorem faithful : Faithful encode decode? where
  spelled record := by
    rw [encode_eq_ofMembers]
    apply Slots.spelled_present
    simp [slots, SymbolKind.faithful.spelled, Spelled.text]
  decoded record := by
    rw [encode_eq_ofMembers, decode?, Slots.record?_present]
    simp only [Option.bind_eq_bind, Option.bind_some, Slots.withDefault?_present]
    simp [slots, OrderedMap.lookup_cons_eq_ite, SymbolKind.faithful.decoded, elim_map_ofText,
      -Option.elim_map]

end AttributeRecord

namespace ModuleRecord

/-- A module that exports nothing is told apart from one that does not say. -/
theorem decodeExports?_ofTexts (names : List String) :
    decodeExports? (.ofTexts names) = some (some names) := by
  have decoded := Faithful.texts.decoded names
  simp only [decodeExports?, ofTexts] at *
  rw [decoded]
  rfl

def slots (record : ModuleRecord) : Slots fieldNames where
  values := [("name", some (.ofText record.name)), ("doc", record.doc.map ofText),
    ("exports", record.exports.map ofTexts),
    ("attributes", some (.ofMap AttributeRecord.encode record.attributes))]

theorem encodeExports_eq_toList (names : Option (List String)) :
    encodeExports names = ((names.map ofTexts).map ("exports", ·)).toList := by
  cases names <;> rfl

theorem encode_eq_ofMembers (record : ModuleRecord) :
    record.encode = .ofMembers (present record.slots.values) := by
  simp [encode, slots, present_cons, present_nil, optionalText_eq_toList, encodeExports_eq_toList]

theorem faithful : Faithful encode decode? where
  spelled record := by
    rw [encode_eq_ofMembers]
    apply Slots.spelled_present
    simp [slots, Spelled.text, Faithful.texts.spelled, AttributeRecord.faithful.map.spelled]
  decoded record := by
    rw [encode_eq_ofMembers, decode?, Slots.record?_present]
    simp only [Option.bind_eq_bind, Option.bind_some, Slots.required?_present,
      Slots.withDefault?_present]
    simp [slots, OrderedMap.lookup_cons_eq_ite, Faithful.text.decoded, elim_map_ofText,
      elim_map_of_decoded decodeExports?_ofTexts, AttributeRecord.faithful.map.decoded,
      -Option.elim_map]

end ModuleRecord

namespace ClassAttribute

def slots (declaration : ClassAttribute) : Slots fieldNames where
  values := [("kind", some declaration.kind.encode), ("doc", declaration.doc.map ofText),
    ("signature", declaration.signature.map ofText), ("value", declaration.value.map ofText),
    ("binding", some declaration.binding.encode), ("getter", some (.bool declaration.getter)),
    ("setter", some (.bool declaration.setter)), ("deleter", some (.bool declaration.deleter))]

theorem encode_eq_ofMembers (declaration : ClassAttribute) :
    declaration.encode = .ofMembers (present declaration.slots.values) := by
  simp [encode, slots, present_cons, present_nil, optionalText_eq_toList]

theorem faithful : Faithful encode decode? where
  spelled declaration := by
    rw [encode_eq_ofMembers]
    apply Slots.spelled_present
    simp [slots, AttributeKind.faithful.spelled, Binding.faithful.spelled, Spelled.text,
      Spelled.bool]
  decoded declaration := by
    rw [encode_eq_ofMembers, decode?, Slots.record?_present]
    simp only [Option.bind_eq_bind, Option.bind_some, Slots.withDefault?_present]
    simp [slots, OrderedMap.lookup_cons_eq_ite, AttributeKind.faithful.decoded,
      Binding.faithful.decoded, Faithful.flag.decoded, elim_map_ofText, -Option.elim_map]

end ClassAttribute

namespace EnumConstant

def slots (constant : EnumConstant) : Slots fieldNames where
  values := [("name", some (.ofText constant.name)), ("value", some (.ofText constant.value))]

theorem faithful : Faithful encode decode? where
  spelled constant := by
    apply constant.slots.spelled_present
    simp [slots, Spelled.text]
  decoded constant := by
    rw [show constant.encode = .ofMembers (present constant.slots.values) from rfl, decode?,
      Slots.record?_present]
    simp only [Option.bind_eq_bind, Option.bind_some, Slots.required?_present]
    simp [slots, OrderedMap.lookup_cons_eq_ite, Faithful.text.decoded]

end EnumConstant

namespace RecordField

def slots (field : RecordField) : Slots fieldNames where
  values := [("name", some (.ofText field.name)), ("doc", field.doc.map ofText)]

theorem encode_eq_ofMembers (field : RecordField) :
    field.encode = .ofMembers (present field.slots.values) := by
  simp [encode, slots, present_cons, present_nil, optionalText_eq_toList]

theorem faithful : Faithful encode decode? where
  spelled field := by
    rw [encode_eq_ofMembers]
    apply Slots.spelled_present
    simp [slots, Spelled.text]
  decoded field := by
    rw [encode_eq_ofMembers, decode?, Slots.record?_present]
    simp only [Option.bind_eq_bind, Option.bind_some, Slots.required?_present,
      Slots.withDefault?_present]
    simp [slots, OrderedMap.lookup_cons_eq_ite, Faithful.text.decoded, elim_map_ofText,
      -Option.elim_map]

end RecordField

theorem TypeForm.faithful : Faithful encode decode? where
  spelled form := by
    cases form with
    | plain => exact .text _
    | enumeration constants =>
        refine .ofMembers ?_
        simpa using EnumConstant.faithful.list.spelled constants
    | record fields =>
        refine .ofMembers ?_
        simpa using RecordField.faithful.list.spelled fields
  decoded form := by
    cases form with
    | plain => rfl
    | enumeration constants =>
        exact congrArg (Option.map enumeration) (EnumConstant.faithful.list.decoded constants)
    | record fields => exact congrArg (Option.map record) (RecordField.faithful.list.decoded fields)

namespace TypeRecord

def slots (type : TypeRecord) : Slots fieldNames where
  values := [("name", some (.ofText type.name)), ("module", some (.ofText type.moduleName)),
    ("doc", type.doc.map ofText), ("bases", some (.ofTexts type.bases)),
    ("mro", some (.ofTexts type.mro)),
    ("attributes", some (.ofMap ClassAttribute.encode type.attributes)),
    ("form", some type.form.encode)]

theorem encode_eq_ofMembers (type : TypeRecord) :
    type.encode = .ofMembers (present type.slots.values) := by
  simp [encode, slots, present_cons, present_nil, optionalText_eq_toList]

theorem faithful : Faithful encode decode? where
  spelled type := by
    rw [encode_eq_ofMembers]
    apply Slots.spelled_present
    simp [slots, Spelled.text, Faithful.texts.spelled, ClassAttribute.faithful.map.spelled,
      TypeForm.faithful.spelled]
  decoded type := by
    rw [encode_eq_ofMembers, decode?, Slots.record?_present]
    simp only [Option.bind_eq_bind, Option.bind_some, Slots.required?_present,
      Slots.withDefault?_present]
    simp [slots, OrderedMap.lookup_cons_eq_ite, Faithful.text.decoded, elim_map_ofText,
      Faithful.texts.decoded, ClassAttribute.faithful.map.decoded, TypeForm.faithful.decoded, -Option.elim_map]

end TypeRecord

namespace SymbolTable

def slots (table : SymbolTable) : Slots fieldNames where
  values := [("modules", some (.array (table.modules.map ModuleRecord.encode))),
    ("types", some (.ofMap TypeRecord.encode table.types))]

theorem faithful : Faithful encode decode? where
  spelled table := by
    apply table.slots.spelled_present
    simp [slots, ModuleRecord.faithful.list.spelled, TypeRecord.faithful.map.spelled]
  decoded table := by
    rw [show table.encode = .ofMembers (present table.slots.values) from rfl, decode?,
      Slots.record?_present]
    simp only [Option.bind_eq_bind, Option.bind_some, Slots.withDefault?_present]
    simp [slots, OrderedMap.lookup_cons_eq_ite, ModuleRecord.faithful.list.decoded,
      TypeRecord.faithful.map.decoded]

/-- Every table is read back from its text, and a text that is read at all settles after
one rendering: reading and rendering again change neither the table nor the text. -/
theorem parse?_render :
    (∀ table : SymbolTable, parse? table.render = some table) ∧
      ∀ text, (parse? text).bind (fun table => parse? table.render) = parse? text ∧
        ((parse? text).bind fun table => parse? table.render).map render =
          (parse? text).map render := by
  have back (table : SymbolTable) : parse? table.render = some table := by
    rw [parse?, render, (faithful.spelled table).parse?_pretty, Option.bind_some, faithful.decoded]
  have settled (text : String) :
      (parse? text).bind (fun table => parse? table.render) = parse? text := by
    simp only [back, Option.bind_fun_some]
  refine ⟨back, fun text => ⟨settled text, ?_⟩⟩
  rw [settled]

end SymbolTable

end ApiReference
