import TopicSchema.Options
import TopicSchema.Schema.Block
import TopicSchema.TypeIndex
import TopicSchema.WellKnown

/-! A message with all that it refers to as one block. A type from elsewhere is defined once, in the
block of the field that is the first to name it. -/

namespace TopicSchema.Schema

inductive Reference where
  | scalar (type : ScalarType)
  | own (kind : TypeKind) (typeName : String)
  | external (kind : TypeKind) (typeName : String)
deriving DecidableEq, Repr

/-- A well-known type is a scalar in JSON, unless it is nested in the message that refers to it. -/
def reference (encoding : Encoding) (scope : String) : FieldType → Reference
  | .scalar type => .scalar type
  | .named kind typeName =>
    if TypeName.parent typeName = scope then .own kind typeName
    else match encoding, WellKnown.scalar? typeName with
      | .json, some type => .scalar type
      | _, _ => .external kind typeName

structure Owed where
  typeName : String
  definition : Definition
deriving Repr

/-- The line of one field, and the definition owed if no field before named its type. The types in
`placed` have been named before. -/
def fieldLine (index : TypeIndex) (encoding : Encoding) (scope : String) (placed : List String)
    (field : Field) : Except CompileError (FieldLine × Option Owed) :=
  match reference encoding scope field.type with
  | .scalar type => .ok (⟨field.label, .scalar type, field.name, field.number⟩, none)
  | .own kind typeName => do
    let _ ← index.definition kind typeName
    .ok (⟨field.label, .named kind (TypeName.short typeName) typeName, field.name, field.number⟩,
      none)
  | .external kind typeName => do
    let line : FieldLine :=
      ⟨field.label, .named kind (TypeName.flattened typeName) typeName, field.name, field.number⟩
    if typeName ∈ placed then .ok (line, none)
    else
      let definition ← index.definition kind typeName
      .ok (line, some ⟨typeName, definition⟩)

def fieldLines (index : TypeIndex) (encoding : Encoding) (scope : String) (placed : List String) :
    List Field → Except CompileError (List FieldLine × List Owed)
  | [] => .ok ([], [])
  | field :: fields => do
    let (line, owed) ← fieldLine index encoding scope placed field
    let placed := placed ++ owed.toList.map (·.typeName)
    let (lines, more) ← fieldLines index encoding scope placed fields
    .ok (line :: lines, owed.toList ++ more)

def enumerationBlock (name typeName : String) (e : Enumeration) : Block :=
  .enumeration name typeName e.values

abbrev Definer := List String → Owed → Except CompileError (Block × List String)

def defineAll (define : Definer) (placed : List String) :
    List Owed → Except CompileError (List Block × List String)
  | [] => .ok ([], placed)
  | owed :: rest => do
    let (block, placed) ← define placed owed
    let (blocks, placed) ← defineAll define placed rest
    .ok (block :: blocks, placed)

mutual

def messageBlock (index : TypeIndex) (encoding : Encoding) (define : Definer)
    (placed : List String) (name scope : String) :
    Message → Except CompileError (Block × List String)
  | ⟨_, fields, messages, enumerations⟩ => do
    let (lines, owed) ← fieldLines index encoding scope placed fields
    let placed := placed ++ owed.map (·.typeName)
    let (inner, placed) ← nestedBlocks index encoding define placed scope messages
    let enums := enumerations.map fun e =>
      enumerationBlock e.name (TypeName.qualify scope e.name) e
    let (flattened, placed) ← defineAll define placed owed
    .ok (.message name scope lines (inner ++ enums) flattened, placed)

def nestedBlocks (index : TypeIndex) (encoding : Encoding) (define : Definer)
    (placed : List String) (scope : String) :
    List Message → Except CompileError (List Block × List String)
  | [] => .ok ([], placed)
  | m :: ms => do
    let (block, placed) ←
      messageBlock index encoding define placed m.name (TypeName.qualify scope m.name) m
    let (blocks, placed) ← nestedBlocks index encoding define placed scope ms
    .ok (block :: blocks, placed)

end

def definer (index : TypeIndex) (encoding : Encoding) : Nat → Definer
  | 0, _, _ => .error .unfinished
  | budget + 1, placed, ⟨typeName, .message m⟩ =>
    messageBlock index encoding (definer index encoding budget) placed
      (TypeName.flattened typeName) typeName m
  | _ + 1, placed, ⟨typeName, .enumeration e⟩ =>
    .ok (enumerationBlock (TypeName.flattened typeName) typeName e, placed)

/-- The only block of a schema, and the types that are flattened in it in the order in which fields
name them. Definitions inside one another are of different types, so the size of the index bounds
how deep they go. -/
def rootBlock (index : TypeIndex) (encoding : Encoding) (scope : String) (m : Message) :
    Except CompileError (Block × List String) :=
  messageBlock index encoding (definer index encoding index.size) [] m.name
    (TypeName.qualify scope m.name) m

end TopicSchema.Schema
