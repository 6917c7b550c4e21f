import ApiReference.Proofs.Json.Variant
import ApiReference.Proofs.Symbols.RoundTrip

namespace ApiReference

/-! The ways to write a symbol table as JSON. Each record of a table may be written in any of
its ways, whatever the others do, and the table is decoded from it; only the order of modules,
of classes and of attributes belongs to the table. -/

open Json

theorem stable_choice {α : Type} {encode : α → Json} {decode? : Json → Option α}
    (faithful : Faithful encode decode?) (named : ∀ value, ∃ name, encode value = ofText name)
    (chosen : ∀ first second : Json, first.choice? = second.choice? → decode? first = decode? second) :
    Stable (fun value => ChoiceVariant (encode value)) encode decode? where
  encoded value := by
    obtain ⟨name, written⟩ := named value
    rw [written]
    exact .text name
  decoded value json variant := by
    rw [chosen json _ variant.choice?_eq, faithful.decoded]

theorem SymbolKind.stable : Stable (fun kind => ChoiceVariant kind.encode) encode decode? := by
  refine stable_choice faithful (fun kind => ?_) fun first second same => ?_
  · cases kind <;> exact ⟨_, rfl⟩
  · rw [decode?, decode?, same]

theorem AttributeKind.stable : Stable (fun kind => ChoiceVariant kind.encode) encode decode? := by
  refine stable_choice faithful (fun kind => ?_) fun first second same => ?_
  · cases kind <;> exact ⟨_, rfl⟩
  · rw [decode?, decode?, same]

theorem Binding.stable : Stable (fun binding => ChoiceVariant binding.encode) encode decode? := by
  refine stable_choice faithful (fun binding => ?_) fun first second same => ?_
  · cases binding <;> exact ⟨_, rfl⟩
  · rw [decode?, decode?, same]

namespace AttributeRecord

def fields (record : AttributeRecord) : List Field :=
  [.defaulted "kind" (ChoiceVariant record.kind.encode) record.kind .data,
   .optional "owner" ofText record.owner, .optional "doc" ofText record.doc,
   .optional "signature" ofText record.signature, .optional "type" ofText record.typeId,
   .optional "value" ofText record.value]

def Variant (record : AttributeRecord) : Json → Prop := RecordVariant record.fields

theorem stable : Stable Variant encode decode? where
  encoded record := by
    rw [encode_eq_ofMembers]
    apply recordVariant_present
    simp [fields, slots, Field.fits_defaulted, Field.fits_optional, SymbolKind.stable.encoded]
  decoded record json variant := by
    obtain ⟨given, taken, found⟩ := RecordVariant.record? variant (show _ = fieldNames from rfl) (by decide)
    simp only [fields, List.forall_mem_cons] at found
    obtain ⟨kind, owner, doc, signature, typeId, value, _⟩ := found
    simp only [decode?, taken, kind.withDefault? (SymbolKind.stable.decoded _), owner.optionalText?,
      doc.optionalText?, signature.optionalText?, typeId.optionalText?, value.optionalText?, Option.bind_eq_bind,
      Option.bind_some]
    rfl

end AttributeRecord

namespace ModuleRecord

def fields (record : ModuleRecord) : List Field :=
  [.required "name" (· = ofText record.name), .optional "doc" ofText record.doc,
   .optional "exports" ofTexts record.exports,
   .defaulted "attributes" (MapVariant AttributeRecord.Variant record.attributes) record.attributes ∅]

def Variant (record : ModuleRecord) : Json → Prop := RecordVariant record.fields

theorem stable : Stable Variant encode decode? where
  encoded record := by
    rw [encode_eq_ofMembers]
    apply recordVariant_present
    simp [fields, slots, Field.fits_required, Field.fits_defaulted, Field.fits_optional,
      AttributeRecord.stable.map.encoded]
  decoded record json variant := by
    obtain ⟨given, taken, found⟩ := RecordVariant.record? variant (show _ = fieldNames from rfl) (by decide)
    simp only [fields, List.forall_mem_cons] at found
    obtain ⟨name, doc, exported, attributes, _⟩ := found
    simp only [decode?, taken, name.text?, doc.optionalText?, exported.optional? rfl decodeExports?_ofTexts,
      attributes.withDefault? (AttributeRecord.stable.map.decoded _), Option.bind_eq_bind, Option.bind_some]
    rfl

end ModuleRecord

namespace ClassAttribute

def fields (declaration : ClassAttribute) : List Field :=
  [.defaulted "kind" (ChoiceVariant declaration.kind.encode) declaration.kind .field,
   .optional "doc" ofText declaration.doc, .optional "signature" ofText declaration.signature,
   .optional "value" ofText declaration.value,
   .defaulted "binding" (ChoiceVariant declaration.binding.encode) declaration.binding .perInstance,
   .defaulted "getter" (· = .bool declaration.getter) declaration.getter false,
   .defaulted "setter" (· = .bool declaration.setter) declaration.setter false,
   .defaulted "deleter" (· = .bool declaration.deleter) declaration.deleter false]

def Variant (declaration : ClassAttribute) : Json → Prop := RecordVariant declaration.fields

theorem stable : Stable Variant encode decode? where
  encoded declaration := by
    rw [encode_eq_ofMembers]
    apply recordVariant_present
    simp [fields, slots, Field.fits_defaulted, Field.fits_optional, AttributeKind.stable.encoded,
      Binding.stable.encoded]
  decoded declaration json variant := by
    obtain ⟨given, taken, found⟩ := RecordVariant.record? variant (show _ = fieldNames from rfl) (by decide)
    simp only [fields, List.forall_mem_cons] at found
    obtain ⟨kind, doc, signature, value, binding, getter, setter, deleter, _⟩ := found
    simp only [decode?, taken, kind.withDefault? (AttributeKind.stable.decoded _), doc.optionalText?,
      signature.optionalText?, value.optionalText?, binding.withDefault? (Binding.stable.decoded _), getter.flag?,
      setter.flag?, deleter.flag?, Option.bind_eq_bind, Option.bind_some]
    rfl

end ClassAttribute

namespace EnumConstant

def fields (constant : EnumConstant) : List Field :=
  [.required "name" (· = ofText constant.name), .required "value" (· = ofText constant.value)]

def Variant (constant : EnumConstant) : Json → Prop := RecordVariant constant.fields

theorem stable : Stable Variant encode decode? where
  encoded constant := by
    apply @recordVariant_present _ constant.slots.values
    simp [fields, slots, Field.fits_required]
  decoded constant json variant := by
    obtain ⟨given, taken, found⟩ := RecordVariant.record? variant (show _ = fieldNames from rfl) (by decide)
    simp only [fields, List.forall_mem_cons] at found
    obtain ⟨name, value, _⟩ := found
    simp only [decode?, taken, name.text?, value.text?, Option.bind_eq_bind, Option.bind_some]
    rfl

end EnumConstant

namespace RecordField

def fields (field : RecordField) : List Field :=
  [.required "name" (· = ofText field.name), .optional "doc" ofText field.doc]

def Variant (field : RecordField) : Json → Prop := RecordVariant field.fields

theorem stable : Stable Variant encode decode? where
  encoded field := by
    rw [encode_eq_ofMembers]
    apply recordVariant_present
    simp [fields, slots, Field.fits_required, Field.fits_optional]
  decoded field json variant := by
    obtain ⟨given, taken, found⟩ := RecordVariant.record? variant (show _ = fieldNames from rfl) (by decide)
    simp only [fields, List.forall_mem_cons] at found
    obtain ⟨name, doc, _⟩ := found
    simp only [decode?, taken, name.text?, doc.optionalText?, Option.bind_eq_bind, Option.bind_some]
    rfl

end RecordField

namespace TypeForm

/-- A form with data has one member only; its constants or fields are records. -/
def Variant : TypeForm → Json → Prop
  | .plain, json => ChoiceVariant (encode .plain) json
  | .enumeration constants, json =>
      ∃ inner, json = ofMembers [("enumeration", inner)] ∧ ListVariant EnumConstant.Variant constants inner
  | .record fields, json =>
      ∃ inner, json = ofMembers [("record", inner)] ∧ ListVariant RecordField.Variant fields inner

theorem stable : Stable Variant encode decode? where
  encoded form := by
    cases form with
    | plain => exact ChoiceVariant.text _
    | enumeration constants => exact ⟨_, rfl, EnumConstant.stable.list.encoded constants⟩
    | record fields => exact ⟨_, rfl, RecordField.stable.list.encoded fields⟩
  decoded form json variant := by
    cases form with
    | plain => cases variant <;> rfl
    | enumeration constants =>
        obtain ⟨inner, rfl, written⟩ := variant
        exact congrArg (Option.map enumeration) (EnumConstant.stable.list.decoded _ _ written)
    | record fields =>
        obtain ⟨inner, rfl, written⟩ := variant
        exact congrArg (Option.map record) (RecordField.stable.list.decoded _ _ written)

end TypeForm

namespace TypeRecord

def fields (type : TypeRecord) : List Field :=
  [.required "name" (· = ofText type.name), .required "module" (· = ofText type.moduleName),
   .optional "doc" ofText type.doc, .defaulted "bases" (· = ofTexts type.bases) type.bases [],
   .defaulted "mro" (· = ofTexts type.mro) type.mro [],
   .defaulted "attributes" (MapVariant ClassAttribute.Variant type.attributes) type.attributes ∅,
   .defaulted "form" type.form.Variant type.form .plain]

def Variant (type : TypeRecord) : Json → Prop := RecordVariant type.fields

theorem stable : Stable Variant encode decode? where
  encoded type := by
    rw [encode_eq_ofMembers]
    apply recordVariant_present
    simp [fields, slots, Field.fits_required, Field.fits_defaulted, Field.fits_optional,
      ClassAttribute.stable.map.encoded, TypeForm.stable.encoded]
  decoded type json variant := by
    obtain ⟨given, taken, found⟩ := RecordVariant.record? variant (show _ = fieldNames from rfl) (by decide)
    simp only [fields, List.forall_mem_cons] at found
    obtain ⟨name, moduleName, doc, bases, mro, attributes, form, _⟩ := found
    simp only [decode?, taken, name.text?, moduleName.text?, doc.optionalText?, bases.texts?, mro.texts?,
      attributes.withDefault? (ClassAttribute.stable.map.decoded _), form.withDefault? (TypeForm.stable.decoded _),
      Option.bind_eq_bind, Option.bind_some]
    rfl

end TypeRecord

namespace SymbolTable

def fields (table : SymbolTable) : List Field :=
  [.defaulted "modules" (ListVariant ModuleRecord.Variant table.modules) table.modules [],
   .defaulted "types" (MapVariant TypeRecord.Variant table.types) table.types ∅]

/-- The ways to write a symbol table. -/
def Variant (table : SymbolTable) : Json → Prop := RecordVariant table.fields

theorem stable : Stable Variant encode decode? where
  encoded table := by
    apply @recordVariant_present _ table.slots.values
    simp [fields, slots, Field.fits_defaulted, ModuleRecord.stable.list.encoded, TypeRecord.stable.map.encoded]
  decoded table json variant := by
    obtain ⟨given, taken, found⟩ := RecordVariant.record? variant (show _ = fieldNames from rfl) (by decide)
    simp only [fields, List.forall_mem_cons] at found
    obtain ⟨modules, types, _⟩ := found
    simp only [decode?, taken, modules.withDefault? (ModuleRecord.stable.list.decoded _),
      types.withDefault? (TypeRecord.stable.map.decoded _), Option.bind_eq_bind, Option.bind_some]
    rfl

/-- A table is decoded from every way to write it, and its encoding is one of these ways. -/
theorem decode?_variant (table : SymbolTable) :
    table.Variant table.encode ∧ ∀ json, table.Variant json → decode? json = some table :=
  ⟨stable.encoded table, stable.decoded table⟩

def loadFunction : AttributeRecord := { kind := .function, doc := some "Loads." }

def dockModule : ModuleRecord := { name := "pkg.dock", attributes := ⟨[("load", loadFunction)], by decide⟩ }

def liftClass : TypeRecord := { name := "Lift", moduleName := "pkg.dock", form := .enumeration [⟨"UP", "1"⟩] }

def harbour : SymbolTable := { modules := [dockModule], types := ⟨[(liftClass.id, liftClass)], by decide⟩ }

/-- Two members in another order, and a kind that is an object. -/
def loadJson : Json := .ofMembers [("doc", .ofText "Loads."), ("kind", .ofMembers [("function", .null)])]

def dockJson : Json := .ofMembers [("attributes", .ofMembers [("load", loadJson)]), ("name", .ofText "pkg.dock")]

/-- A constant with a foreign member. -/
def upJson : Json := .ofMembers [("value", .ofText "1"), ("line", .number "1e9"), ("name", .ofText "UP")]

/-- A class that is written as an array. -/
def liftJson : Json :=
  .array [.ofText "Lift", .ofText "pkg.dock", .null, .array [], .array [], .ofMembers [],
    .ofMembers [("enumeration", .array [upJson])]]

def harbourJson : Json :=
  .ofMembers [("types", .ofMembers [(liftClass.id, liftJson)]), ("modules", .array [dockJson])]

theorem harbour_decoded : harbour.Variant harbourJson ∧ decode? harbourJson = some harbour := by
  have up : EnumConstant.Variant ⟨"UP", "1"⟩ upJson :=
    @RecordVariant.object _ [("name", _), ("value", _)] [("line", _)] _ (.write rfl (.write rfl .nil))
      (by simp [EnumConstant.fields, Field.required]) (@List.perm_append_comm _ [_, _] [_])
  have form : liftClass.form.Variant (.ofMembers [("enumeration", .array [upJson])]) :=
    ⟨_, rfl, [upJson], rfl, .cons up .nil⟩
  have lift : liftClass.Variant liftJson :=
    .array (.cons rfl (.cons rfl (.cons rfl (.cons rfl (.cons rfl (.cons ⟨[], rfl, .nil⟩ (.cons form .nil)))))))
  have load : loadFunction.Variant loadJson :=
    @RecordVariant.object _ [("kind", _), ("doc", _)] [] _
      (.write (.object _) (.skip rfl (.write rfl (.skip rfl (.skip rfl (.skip rfl .nil)))))) (by simp)
      (@List.perm_append_comm _ [_] [_])
  have attributes : MapVariant AttributeRecord.Variant dockModule.attributes (.ofMembers [("load", loadJson)]) :=
    ⟨[("load", loadJson)], rfl, .cons ⟨rfl, load⟩ .nil⟩
  have dock : dockModule.Variant dockJson :=
    @RecordVariant.object _ [("name", _), ("attributes", _)] [] _
      (.write rfl (.skip rfl (.skip rfl (.write attributes .nil)))) (by simp) (@List.perm_append_comm _ [_] [_])
  have types : MapVariant TypeRecord.Variant harbour.types (.ofMembers [(liftClass.id, liftJson)]) :=
    ⟨[(liftClass.id, liftJson)], rfl, .cons ⟨rfl, lift⟩ .nil⟩
  have variant : harbour.Variant harbourJson :=
    @RecordVariant.object _ [("modules", _), ("types", _)] [] _
      (.write ⟨[dockJson], rfl, .cons dock .nil⟩ (.write types .nil)) (by simp) (@List.perm_append_comm _ [_] [_])
  exact ⟨variant, (decode?_variant harbour).2 harbourJson variant⟩

end SymbolTable

end ApiReference
