import TopicSchema.Source

namespace TopicSchema.Schema

/-- What stands for the type in a field line. A named type is written `written` and is the one whose
fully-qualified name is `typeName`. -/
inductive WrittenType where
  | scalar (type : ScalarType)
  | named (kind : TypeKind) (written typeName : String)
deriving DecidableEq, Repr, Inhabited

def WrittenType.text : WrittenType → String
  | scalar type => type.keyword
  | named _ written _ => written

structure FieldLine where
  label : Label
  type : WrittenType
  name : String
  number : Int
deriving DecidableEq, Repr, Inhabited

/-- A definition called `name` of the type `typeName`. In a message the blocks of its own nested
types come first, those of types from elsewhere after them. -/
inductive Block where
  | message (name typeName : String) (fields : List FieldLine) (nested flattened : List Block)
  | enumeration (name typeName : String) (values : List EnumValue)
deriving Repr, Inhabited

namespace Block

def name : Block → String
  | message name .. => name
  | enumeration name .. => name

def typeName : Block → String
  | message _ typeName .. => typeName
  | enumeration _ typeName _ => typeName

def fields : Block → List FieldLine
  | message _ _ fields .. => fields
  | enumeration .. => []

def nested : Block → List Block
  | message _ _ _ nested _ => nested
  | enumeration .. => []

def flattened : Block → List Block
  | message _ _ _ _ flattened => flattened
  | enumeration .. => []

def children (b : Block) : List Block :=
  b.nested ++ b.flattened

end Block

end TopicSchema.Schema
