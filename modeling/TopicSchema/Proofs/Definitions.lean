import Mathlib.Tactic.Lemma
import TopicSchema.TypeIndex

namespace TopicSchema

mutual

def Message.messagesIn (scope : String) : Message → List (String × Message)
  | ⟨name, fields, messages, enumerations⟩ =>
    (TypeName.qualify scope name, ⟨name, fields, messages, enumerations⟩) ::
      Message.messagesOf (TypeName.qualify scope name) messages

def Message.messagesOf (scope : String) : List Message → List (String × Message)
  | [] => []
  | m :: ms => m.messagesIn scope ++ Message.messagesOf scope ms

end

def enumerationsAt (scope : String) (es : List Enumeration) : List (String × Enumeration) :=
  es.map fun e => (TypeName.qualify scope e.name, e)

mutual

def Message.enumerationsIn (scope : String) : Message → List (String × Enumeration)
  | ⟨name, _, messages, enumerations⟩ =>
    Message.enumerationsOf (TypeName.qualify scope name) messages ++
      enumerationsAt (TypeName.qualify scope name) enumerations

def Message.enumerationsOf (scope : String) : List Message → List (String × Enumeration)
  | [] => []
  | m :: ms => m.enumerationsIn scope ++ Message.enumerationsOf scope ms

end

def definedMessages (files : List ProtoFile) : List (String × Message) :=
  files.flatMap fun f => Message.messagesOf f.scope f.messages

def definedEnumerations (files : List ProtoFile) : List (String × Enumeration) :=
  files.flatMap fun f =>
    Message.enumerationsOf f.scope f.messages ++ enumerationsAt f.scope f.enumerations

def UniqueNames (files : List ProtoFile) : Prop :=
  ((definedMessages files).map Prod.fst ++ (definedEnumerations files).map Prod.fst).Nodup

instance (files : List ProtoFile) : Decidable (UniqueNames files) :=
  inferInstanceAs (Decidable (List.Nodup _))

def FieldType.isDefined (index : TypeIndex) : FieldType → Bool
  | .scalar _ => true
  | .named kind typeName => (index.definition? kind typeName).isSome

def AllDefined (files : List ProtoFile) : Prop :=
  ∀ d ∈ definedMessages files, ∀ f ∈ d.2.fields, f.type.isDefined (.ofFiles files) = true

instance (files : List ProtoFile) : Decidable (AllDefined files) :=
  inferInstanceAs (Decidable (∀ d ∈ definedMessages files, ∀ f ∈ d.2.fields, _))

end TopicSchema
