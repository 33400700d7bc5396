namespace TopicSchema

inductive ScalarType where
  | double | float
  | int64 | uint64 | int32 | fixed64 | fixed32
  | bool | string | bytes
  | uint32 | sfixed32 | sfixed64 | sint32 | sint64
deriving DecidableEq, Repr, Inhabited

namespace ScalarType

def all : List ScalarType :=
  [double, float, int64, uint64, int32, fixed64, fixed32, bool, string, bytes, uint32, sfixed32,
    sfixed64, sint32, sint64]

def keyword : ScalarType → String
  | double => "double"
  | float => "float"
  | int64 => "int64"
  | uint64 => "uint64"
  | int32 => "int32"
  | fixed64 => "fixed64"
  | fixed32 => "fixed32"
  | bool => "bool"
  | string => "string"
  | bytes => "bytes"
  | uint32 => "uint32"
  | sfixed32 => "sfixed32"
  | sfixed64 => "sfixed64"
  | sint32 => "sint32"
  | sint64 => "sint64"

def ofKeyword? (word : String) : Option ScalarType :=
  all.find? (·.keyword == word)

theorem mem_all (t : ScalarType) : t ∈ all := by
  cases t <;> decide

theorem ofKeyword?_keyword (t : ScalarType) : ofKeyword? t.keyword = some t := by
  cases t <;> decide

end ScalarType

inductive Label where
  | singular | optional | required | repeated
deriving DecidableEq, Repr, Inhabited

namespace Label

def all : List Label :=
  [singular, optional, required, repeated]

def keyword? : Label → Option String
  | singular => none
  | optional => some "optional"
  | required => some "required"
  | repeated => some "repeated"

end Label

inductive TypeKind where
  | message | enumeration
deriving DecidableEq, Repr, Inhabited

inductive FieldType where
  | scalar (type : ScalarType)
  | named (kind : TypeKind) (typeName : String)
deriving DecidableEq, Repr, Inhabited

structure Field where
  name : String
  number : Int
  label : Label
  type : FieldType
deriving DecidableEq, Repr, Inhabited

structure EnumValue where
  name : String
  number : Int
deriving DecidableEq, Repr, Inhabited

structure Enumeration where
  name : String
  values : List EnumValue
deriving DecidableEq, Repr, Inhabited

structure Message where
  name : String
  fields : List Field
  messages : List Message
  enumerations : List Enumeration
deriving Repr, Inhabited

structure ProtoFile where
  name : String
  package : String
  messages : List Message
  enumerations : List Enumeration
deriving Repr, Inhabited

def ProtoFile.scope (file : ProtoFile) : String :=
  if file.package = "" then "" else "." ++ file.package

end TopicSchema
