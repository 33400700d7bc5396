import TopicSchema.Descriptor

/-! The definitions that descriptors stand for. A field without a type, or without the name of its
type, stands for nothing, and the first such field is reported. -/

namespace TopicSchema

inductive DescriptorError where
  | unknownLabel (field written : String)
  | unknownType (field written : String)
  | missingTypeName (field : String)
deriving DecidableEq, Repr

def DescriptorError.message : DescriptorError → String
  | unknownLabel field written => "field `" ++ field ++ "` has unknown label `" ++ written ++ "`"
  | unknownType field written => "field `" ++ field ++ "` has unknown type `" ++ written ++ "`"
  | missingTypeName field =>
    "field `" ++ field ++ "` references a message or enum but has no type name"

namespace FieldDescriptor

def readLabel (f : FieldDescriptor) (shown : String) : Except DescriptorError Label :=
  match f.label with
  | none => .ok .singular
  | some code =>
    match code.meaning? labelVocabulary with
    | some label => .ok label
    | none => .error (.unknownLabel shown code.text)

def readForm (f : FieldDescriptor) (shown : String) : Except DescriptorError FieldForm :=
  match f.type with
  | none => .error (.unknownType shown "")
  | some code =>
    match code.meaning? typeVocabulary with
    | some form => .ok form
    | none => .error (.unknownType shown code.text)

def readTypeName (f : FieldDescriptor) (shown : String) : Except DescriptorError String :=
  match f.typeName with
  | none => .error (.missingTypeName shown)
  | some typeName => if typeName = "" then .error (.missingTypeName shown) else .ok typeName

def readType (f : FieldDescriptor) (shown : String) : FieldForm → Except DescriptorError FieldType
  | .scalar type => .ok (.scalar type)
  | .group => (f.readTypeName shown).map (.named .message)
  | .message => (f.readTypeName shown).map (.named .message)
  | .enumeration => (f.readTypeName shown).map (.named .enumeration)

def definition (owner : String) (f : FieldDescriptor) : Except DescriptorError Field := do
  let name := f.name.getD ""
  let shown := owner ++ "." ++ name
  let label ← f.readLabel shown
  let form ← f.readForm shown
  let type ← f.readType shown form
  .ok ⟨name, f.number.getD 0, label, type⟩

def definitions (owner : String) : List FieldDescriptor → Except DescriptorError (List Field)
  | [] => .ok []
  | f :: fs => do
    let field ← f.definition owner
    let fields ← definitions owner fs
    .ok (field :: fields)

end FieldDescriptor

def EnumDescriptor.definition (e : EnumDescriptor) : Enumeration :=
  ⟨e.name.getD "", e.values.map fun v => ⟨v.name.getD "", v.number.getD 0⟩⟩

namespace MessageDescriptor

mutual

def definition : MessageDescriptor → Except DescriptorError Message
  | ⟨name, fields, messages, enumerations⟩ => do
    let name := name.getD ""
    let fields ← FieldDescriptor.definitions name fields
    let messages ← definitions messages
    .ok ⟨name, fields, messages, enumerations.map EnumDescriptor.definition⟩

def definitions : List MessageDescriptor → Except DescriptorError (List Message)
  | [] => .ok []
  | m :: ms => do
    let message ← m.definition
    let messages ← definitions ms
    .ok (message :: messages)

end

end MessageDescriptor

namespace FileDescriptor

def definition (f : FileDescriptor) : Except DescriptorError ProtoFile := do
  let messages ← MessageDescriptor.definitions f.messages
  .ok ⟨f.name.getD "", f.package.getD "", messages,
    f.enumerations.map EnumDescriptor.definition⟩

def definitions : List FileDescriptor → Except DescriptorError (List ProtoFile)
  | [] => .ok []
  | f :: fs => do
    let file ← f.definition
    let files ← definitions fs
    .ok (file :: files)

end FileDescriptor

end TopicSchema
