import TopicSchema.CompileError
import TopicSchema.Source
import TopicSchema.TypeName

/-! All messages and enumerations of a list of files by fully-qualified name. Of several definitions
of one name the first that is entered stays. -/

namespace TopicSchema

structure TypeIndex where
  messages : List (String × Message) := []
  enumerations : List (String × Enumeration) := []
deriving Repr, Inhabited

inductive Definition where
  | message (definition : Message)
  | enumeration (definition : Enumeration)
deriving Repr, Inhabited

namespace TypeIndex

def keepFirst {α : Type} (table : List (String × α)) (name : String) (value : α) :
    List (String × α) :=
  if (table.lookup name).isSome then table else table ++ [(name, value)]

def addEnumeration (scope : String) (index : TypeIndex) (e : Enumeration) : TypeIndex :=
  { index with enumerations := keepFirst index.enumerations (TypeName.qualify scope e.name) e }

mutual

def addMessage (scope : String) (index : TypeIndex) : Message → TypeIndex
  | ⟨name, fields, messages, enumerations⟩ =>
    let typeName := TypeName.qualify scope name
    let index := addMessages typeName index messages
    let index := enumerations.foldl (addEnumeration typeName) index
    { index with
      messages := keepFirst index.messages typeName ⟨name, fields, messages, enumerations⟩ }

def addMessages (scope : String) (index : TypeIndex) : List Message → TypeIndex
  | [] => index
  | m :: ms => addMessages scope (addMessage scope index m) ms

end

def addFile (index : TypeIndex) (file : ProtoFile) : TypeIndex :=
  file.enumerations.foldl (addEnumeration file.scope) (addMessages file.scope index file.messages)

def ofFiles (files : List ProtoFile) : TypeIndex :=
  files.foldl addFile {}

def message? (index : TypeIndex) (typeName : String) : Option Message :=
  index.messages.lookup typeName

def enumeration? (index : TypeIndex) (typeName : String) : Option Enumeration :=
  index.enumerations.lookup typeName

def definition? (index : TypeIndex) : TypeKind → String → Option Definition
  | .message, typeName => (index.message? typeName).map .message
  | .enumeration, typeName => (index.enumeration? typeName).map .enumeration

def definition (index : TypeIndex) (kind : TypeKind) (typeName : String) :
    Except CompileError Definition :=
  match index.definition? kind typeName with
  | some d => .ok d
  | none => .error (.unresolvedType typeName)

def size (index : TypeIndex) : Nat :=
  index.messages.length + index.enumerations.length

theorem lookup_keepFirst {α : Type} (table : List (String × α)) (name : String) (value : α)
    (other : String) :
    (keepFirst table name value).lookup other =
      (table.lookup other).or (if other = name then some value else none) := by
  unfold keepFirst
  split
  · next h =>
    split
    · next e => subst e; rw [Option.or_of_isSome h]
    · simp
  · rw [List.lookup_append]
    split
    · next e => rw [e, List.lookup_cons_self]
    · next e =>
      have : (other == name) = false := by simpa using e
      rw [List.lookup_cons, this, List.lookup_nil]

end TypeIndex

end TopicSchema
