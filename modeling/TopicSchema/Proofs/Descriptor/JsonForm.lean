import TopicSchema.DescriptorSet
import TopicSchema.Proofs.Json.Objects

namespace TopicSchema

open Json

def Code.word? {α : Type} (vocabulary : List (String × α)) : Code → Option String
  | number n => if n < 1 then none else (vocabulary[(n - 1).toNat]?).map (·.1)
  | word s => some s

def Recorded {α : Type} (slots : Nat → α → List Slot) : Nat → α → List Char → List Char → Prop
  | 0, _, _, _ => False
  | depth + 1, a, s, t => Object (slots depth a) s t

namespace ValueDescriptor

def slots (v : ValueDescriptor) : List Slot :=
  [textSlot "name" v.name, integerSlot "number" v.number]

def Writes : Nat → ValueDescriptor → List Char → List Char → Prop :=
  Recorded fun _ v => v.slots

end ValueDescriptor

namespace EnumDescriptor

def slots (depth : Nat) (e : EnumDescriptor) : List Slot :=
  [textSlot "name" e.name, listSlot "value" (Listed ValueDescriptor.Writes depth) e.values]

def Writes : Nat → EnumDescriptor → List Char → List Char → Prop :=
  Recorded slots

end EnumDescriptor

namespace FieldDescriptor

def slots (f : FieldDescriptor) : List Slot :=
  [textSlot "name" f.name, integerSlot "number" f.number,
    textSlot "label" (f.label.bind (·.word? labelVocabulary)),
    textSlot "type" (f.type.bind (·.word? typeVocabulary)), textSlot "typeName" f.typeName]

def Writes : Nat → FieldDescriptor → List Char → List Char → Prop :=
  Recorded fun _ f => f.slots

end FieldDescriptor

namespace MessageDescriptor

def slots (depth : Nat) (messages : List MessageDescriptor → List Char → List Char → Prop)
    (m : MessageDescriptor) : List Slot :=
  [textSlot "name" m.name, listSlot "field" (Listed FieldDescriptor.Writes depth) m.fields,
    listSlot "nestedType" messages m.messages,
    listSlot "enumType" (Listed EnumDescriptor.Writes depth) m.enumerations]

mutual

def Writes : Nat → MessageDescriptor → List Char → List Char → Prop
  | 0, _, _, _ => False
  | depth + 1, m, s, t => Object (m.slots depth (WritesAll depth)) s t

def WritesAll : Nat → List MessageDescriptor → List Char → List Char → Prop
  | 0, _, _, _ => False
  | depth + 1, ms, s, t => ∃ u, s = '[' :: u ∧ Items (Writes depth) true ms u t

end

lemma writesAll_eq (depth : Nat) : WritesAll depth = Listed Writes depth := by
  cases depth <;> rfl

end MessageDescriptor

namespace FileDescriptor

def slots (depth : Nat) (f : FileDescriptor) : List Slot :=
  [textSlot "name" f.name, textSlot "package" f.package,
    listSlot "messageType" (Listed MessageDescriptor.Writes depth) f.messages,
    listSlot "enumType" (Listed EnumDescriptor.Writes depth) f.enumerations]

def Writes : Nat → FileDescriptor → List Char → List Char → Prop :=
  Recorded slots

end FileDescriptor

namespace DescriptorSet

def slots (depth : Nat) (files : List FileDescriptor) : List Slot :=
  [listSlot "file" (Listed FileDescriptor.Writes depth) files]

def Writes (files : List FileDescriptor) (text : String) : Prop :=
  ∃ s t, Blanks text.toList s ∧ Recorded slots 127 files s t ∧ Blanks t []

end DescriptorSet

end TopicSchema
