import TopicSchema.Proofs.Lookup
import TopicSchema.Proofs.Schema.BlockTree
import TopicSchema.Proofs.Schema.FirstReferences
import TopicSchema.Proofs.Schema.Rendering

namespace TopicSchema

def Definition.kind : Definition → TypeKind
  | message _ => .message
  | enumeration _ => .enumeration

lemma TypeIndex.kind_eq {index : TypeIndex} {kind : TypeKind} {typeName : String}
    {d : Definition} (h : index.definition? kind typeName = some d) : d.kind = kind := by
  cases kind with
  | message =>
    obtain ⟨m, _, rfl⟩ := Option.map_eq_some_iff.mp h
    rfl
  | enumeration =>
    obtain ⟨e, _, rfl⟩ := Option.map_eq_some_iff.mp h
    rfl

namespace Schema

def Reference.written : Reference → WrittenType
  | .scalar type => .scalar type
  | .own kind typeName => .named kind (TypeName.short typeName) typeName
  | .external kind typeName => .named kind (TypeName.flattened typeName) typeName

def writtenLine (encoding : Encoding) (scope : String) (field : Field) : FieldLine :=
  ⟨field.label, (reference encoding scope field.type).written, field.name, field.number⟩

def external? (encoding : Encoding) (scope : String) (field : Field) :
    Option (TypeKind × String) :=
  match reference encoding scope field.type with
  | .external kind typeName => some (kind, typeName)
  | _ => none

def External (encoding : Encoding) (scope : String) (field : Field) (kind : TypeKind)
    (typeName : String) : Prop :=
  field.type = .named kind typeName ∧ TypeName.parent typeName ≠ scope ∧
    ¬ (encoding = .json ∧ (WellKnown.scalar? typeName).isSome)

variable {index : TypeIndex} {encoding : Encoding} {scope : String}

lemma reference_named (kind : TypeKind) (typeName : String) :
    reference encoding scope (.named kind typeName) =
      if TypeName.parent typeName = scope then .own kind typeName
      else match encoding, WellKnown.scalar? typeName with
        | .json, some type => .scalar type
        | _, _ => .external kind typeName :=
  rfl

lemma reference_eq_external {type : FieldType} {kind : TypeKind} {typeName : String} :
    reference encoding scope type = .external kind typeName ↔
      type = .named kind typeName ∧ TypeName.parent typeName ≠ scope ∧
        ¬ (encoding = .json ∧ (WellKnown.scalar? typeName).isSome) := by
  cases type with
  | scalar type => simp [reference]
  | named k t =>
    rw [reference_named]
    split
    · next hp =>
      constructor
      · intro h
        cases h
      · rintro ⟨h, hn, _⟩
        cases h
        exact absurd hp hn
    · next hp =>
      split
      · next hs =>
        constructor
        · intro h
          cases h
        · rintro ⟨h, _, hn⟩
          cases h
          exact absurd ⟨rfl, by simp [hs]⟩ hn
      · next hs =>
        constructor
        · intro h
          cases h
          refine ⟨rfl, hp, ?_⟩
          rintro ⟨rfl, hw⟩
          obtain ⟨s, hw⟩ := Option.isSome_iff_exists.mp hw
          exact hs s rfl hw
        · rintro ⟨h, _, _⟩
          cases h
          rfl

lemma external?_eq_some {field : Field} {kind : TypeKind} {typeName : String} :
    external? encoding scope field = some (kind, typeName) ↔
      External encoding scope field kind typeName := by
  rw [External, ← reference_eq_external, external?]
  split <;> simp_all

lemma reference_eq_own {type : FieldType} {kind : TypeKind} {typeName : String}
    (h : reference encoding scope type = .own kind typeName) :
    type = .named kind typeName ∧ TypeName.parent typeName = scope := by
  cases type with
  | scalar type => cases h
  | named k t =>
    rw [reference_named] at h
    split at h
    · next hp =>
      cases h
      exact ⟨rfl, hp⟩
    · split at h <;> cases h

lemma external?_writtenLine (field : Field) :
    (writtenLine encoding scope field).external? scope = external? encoding scope field := by
  rw [FieldLine.external?, external?, writtenLine]
  cases h : reference encoding scope field.type with
  | scalar type => rfl
  | own kind typeName => simp [Reference.written, (reference_eq_own h).2]
  | external kind typeName =>
    simp [Reference.written, (reference_eq_external.mp h).2.1]

def Owed.key (o : Owed) : TypeKind × String :=
  (o.definition.kind, o.typeName)

def Owed.Indexed (index : TypeIndex) (o : Owed) : Prop :=
  index.definition? o.definition.kind o.typeName = some o.definition

lemma fieldLine_eq_ok {placed : List String} {field : Field} {line : FieldLine}
    {owed : Option Owed} (h : fieldLine index encoding scope placed field = .ok (line, owed)) :
    line = writtenLine encoding scope field ∧
      owed.toList.map Owed.key = fresh placed (external? encoding scope field).toList ∧
      ∀ o ∈ owed, o.Indexed index := by
  rw [fieldLine] at h
  rw [writtenLine, external?]
  cases hr : reference encoding scope field.type with
  | scalar type =>
    simp only [hr] at h
    cases h
    simp [Reference.written, fresh]
  | own kind typeName =>
    simp only [hr] at h
    obtain ⟨_, _, h⟩ := bind_eq_ok.mp h
    cases h
    simp [Reference.written, fresh]
  | external kind typeName =>
    simp only [hr] at h
    split at h
    · next hp =>
      cases h
      simp [Reference.written, fresh, hp]
    · next hp =>
      obtain ⟨d, hd, h⟩ := bind_eq_ok.mp h
      cases h
      have hd := TypeIndex.definition_eq_ok.mp hd
      have hk := TypeIndex.kind_eq hd
      simp [Reference.written, fresh, hp, Owed.key, Owed.Indexed, hk, hd]

theorem fieldLines_eq_ok {placed : List String} {fields : List Field} {lines : List FieldLine}
    {owed : List Owed} (h : fieldLines index encoding scope placed fields = .ok (lines, owed)) :
    lines = fields.map (writtenLine encoding scope) ∧
      owed.map Owed.key = fresh placed (fields.filterMap (external? encoding scope)) ∧
      ∀ o ∈ owed, o.Indexed index := by
  induction fields generalizing placed lines owed with
  | nil =>
    cases h
    simp [fresh]
  | cons field fields ih =>
    obtain ⟨⟨line, first⟩, hl, h⟩ := bind_eq_ok.mp h
    obtain ⟨⟨more, rest⟩, hm, h⟩ := bind_eq_ok.mp h
    cases h
    obtain ⟨rfl, hf, hi⟩ := fieldLine_eq_ok hl
    obtain ⟨rfl, hr, hj⟩ := ih hm
    refine ⟨rfl, ?_, ?_⟩
    · have hs : placed ++ first.toList.map (·.typeName) =
          after placed (external? encoding scope field).toList := by
        rw [after, ← hf, List.map_map]
        rfl
      have he : (field :: fields).filterMap (external? encoding scope) =
          (external? encoding scope field).toList ++
            fields.filterMap (external? encoding scope) := by
        cases hx : external? encoding scope field <;> simp [hx]
      rw [List.map_append, hf, hr, hs, he, fresh_append]
    · intro o ho
      rcases List.mem_append.mp ho with ho | ho
      · exact hi o (Option.mem_toList.mp ho)
      · exact hj o ho

lemma exists_external_of_owed {placed : List String} {fields : List Field} {lines : List FieldLine}
    {owed : List Owed} (h : fieldLines index encoding scope placed fields = .ok (lines, owed))
    {o : Owed} (ho : o ∈ owed) :
    ∃ f ∈ fields, External encoding scope f o.definition.kind o.typeName := by
  have hk : o.key ∈ fresh placed (fields.filterMap (external? encoding scope)) := by
    rw [← (fieldLines_eq_ok h).2.1]
    exact List.mem_map_of_mem ho
  obtain ⟨f, hf, hx⟩ := List.mem_filterMap.mp (List.mem_of_find?_eq_some (mem_fresh.mp hk).2)
  exact ⟨f, hf, external?_eq_some.mp hx⟩

end Schema

end TopicSchema
