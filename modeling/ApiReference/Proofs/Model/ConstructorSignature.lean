import ApiReference.Proofs.Model.Inspection
import ApiReference.Proofs.Model.MemberOrder

namespace ApiReference

/-! The signature of a class that has none recorded, beside the one of its constructor.

The class shows the signature of the constructor that it declares itself. Its members, though, hold
the constructor that lookup along its chain finds, which may be that of another class. -/

namespace ClassModel

/-- The signature of the constructor member, as callers see it. -/
def callSignature? (model : ClassModel) : Option String :=
  (model.constructor?.bind (·.signature?)).map Text.dropReceiver

end ClassModel

namespace SymbolTable

/-- The constructor among the members is what lookup finds. -/
theorem find?_isConstructor (table : SymbolTable) (type : TypeRecord) :
    (table.classMembers type).find? (·.isConstructor) =
      (Inherited.along (table.chain type) constructorName).map fun found =>
        ClassMember.ofInherited (constructorName, found) := by
  cases found : (table.classMembers type).find? (·.isConstructor) with
  | some member =>
      have isConstructor : member.isConstructor = true := List.find?_some found
      have named : member.name = constructorName := of_decide_eq_true isConstructor
      have known := mem_classMembers_iff.mp (List.mem_of_find?_eq_some found)
      rw [named] at known
      rw [known, Option.map_some, ClassMember.ofInherited, ← named]
  | none =>
      cases known : Inherited.along (table.chain type) constructorName with
      | none => rfl
      | some inherited =>
          have listed : ClassMember.ofInherited (constructorName, inherited) ∈ table.classMembers type :=
            mem_classMembers_iff.mpr known
          exact absurd (decide_eq_true rfl) (List.find?_eq_none.mp found _ listed)

end SymbolTable

namespace Inspection

variable {table : SymbolTable} {record : ModuleRecord} {name : String} {attr : AttributeRecord} {type : TypeRecord}

theorem classSignature?_of_unsigned (unsigned : attr.signature = none) (type : TypeRecord) :
    classSignature? attr (some type) =
      ((type.attributes.get? constructorName).bind (·.signature)).map Text.dropReceiver := by
  simp only [classSignature?, unsigned, Option.bind_eq_bind, Option.bind_some]
  cases type.attributes.get? constructorName with
  | none => rfl
  | some declared =>
      rw [Option.bind_some, Option.bind_some]
      cases declared.signature <;> rfl

theorem memberOf_of_known (isClass : attr.kind = .classType)
    (known : table.type? (classId record name attr) = some type) :
    memberOf table record (name, attr) =
      { name, attr, doc := attr.doc <|> type.doc, signature := classSignature? attr (some type),
        kind := .classType (classModelOf table type) } := by
  simp only [memberOf, isClass, classOf?, known]
  rfl

theorem constructor?_classModelOf (table : SymbolTable) (plain : type.form = .plain) :
    (classModelOf table type).constructor? =
      (Inherited.along (table.chain type) constructorName).map fun found =>
        ClassMember.ofInherited (constructorName, found) := by
  rw [← SymbolTable.find?_isConstructor, ClassModel.constructor?, classModelOf, plain]
  rfl

theorem callSignature?_of_nearest (plain : type.form = .plain)
    (nearest : (table.chain type).find? (·.declares constructorName) = some type) {own : ClassAttribute}
    (declared : type.attributes.get? constructorName = some own) :
    (classModelOf table type).callSignature? =
      (if own.kind = .method then own.signature else none).map Text.dropReceiver := by
  have found : Inherited.along (table.chain type) constructorName =
      some ⟨own, (table.chain type).filter (·.declares constructorName)⟩ :=
    Inherited.along_eq_some_iff.mpr ⟨by decide, ⟨type, nearest, declared⟩, rfl⟩
  rw [ClassModel.callSignature?, constructor?_classModelOf table plain, found]
  rfl

/-- The signature of a class without a recorded one is that of the constructor it declares itself.
This is the signature of its constructor member if the class is the nearest one with a constructor
and declares it as a method. A class that inherits its constructor shows no signature, so that the
two agree only if the inherited one has none. -/
theorem class_signature_own {log : FindingLog} (isClass : attr.kind = .classType)
    (unsigned : attr.signature = none) (known : table.type? (classId record name attr) = some type)
    (plain : type.form = .plain) :
    ∃ member model findings, (describeMember table record (name, attr)).run log = (member, log.addAll findings) ∧
      member.kind = .classType model ∧
      model.constructor? = (Inherited.along (table.chain type) "__init__").map (fun found =>
        ⟨"__init__", found.declaration, found.lineage⟩) ∧
      member.signature = ((type.attributes.get? "__init__").bind (·.signature)).map Text.dropReceiver ∧
      (∀ own, (table.chain type).find? (·.declares "__init__") = some type →
        type.attributes.get? "__init__" = some own →
          (member.signature = model.callSignature? ↔ own.kind = .method ∨ own.signature = none)) ∧
      (type.attributes.get? "__init__" = none →
        (member.signature = model.callSignature? ↔ model.callSignature? = none)) := by
  have signature := classSignature?_of_unsigned unsigned type
  have given := gives_describeMember table record (name, attr) log
  rw [memberOf_of_known isClass known] at given
  refine ⟨_, classModelOf table type, _, given, rfl, constructor?_classModelOf table plain, signature, ?_, ?_⟩
  · intro own nearest declared
    change classSignature? attr (some type) = _ ↔ _
    rw [signature, callSignature?_of_nearest plain nearest declared, constructorName, declared, Option.bind_some]
    by_cases method : own.kind = .method
    · simp [method]
    · cases own.signature <;> simp [method]
  · intro undeclared
    change classSignature? attr (some type) = _ ↔ _
    rw [signature, constructorName, undeclared]
    exact eq_comm

/-- A class that declares nothing itself. -/
def kiosk : TypeRecord where
  name := "Kiosk"
  moduleName := "market"
  bases := ["market.Stand"]
  mro := ["market.Kiosk", "market.Stand", rootTypeId]

def market : SymbolTable where
  types := ⟨[
    ("market.Stand", {
      TypeRecord.ofName "market" "Stand" with
      attributes := ⟨[("__init__", .ofMethod "(self, goods)" .perInstance)], by decide⟩ }),
    ("market.Kiosk", kiosk)], by decide⟩

/-- A kiosk inherits a constructor that takes goods, but shows no signature. -/
theorem kiosk_shows_no_signature :
    market.type? "market.Kiosk" = some kiosk ∧ kiosk.form = .plain ∧
      ∃ member model findings,
        (describeMember market { name := "market" } ("Kiosk", .ofClass "market" "market.Kiosk")).run {} =
          (member, FindingLog.addAll {} findings) ∧
        member.kind = .classType model ∧ model.callSignature? = some "(goods)" ∧ member.signature = none := by
  have known : market.type? "market.Kiosk" = some kiosk := by decide +kernel
  obtain ⟨member, model, findings, given, kind, constructor, own, _, _⟩ :=
    @class_signature_own market { name := "market" } "Kiosk" (.ofClass "market" "market.Kiosk") kiosk {}
      rfl rfl known rfl
  have inherited : model.callSignature? = some "(goods)" := by
    rw [ClassModel.callSignature?, constructor]
    decide +kernel
  exact ⟨known, rfl, member, model, findings, given, kind, inherited, own⟩

end Inspection

end ApiReference
