import TopicSchema.Source

/-! Descriptors: the definitions of `.proto` files as tools exchange them. Everything in them may be
absent, and labels and types may be outside their vocabulary. -/

namespace TopicSchema

inductive Code where
  | number (n : Int)
  | word (s : String)
deriving DecidableEq, Repr, Inhabited

namespace Code

def text : Code → String
  | number n => toString n
  | word s => s

/-- Entries are numbered from one in the order of the vocabulary. -/
def meaning? {α : Type} (vocabulary : List (String × α)) : Code → Option α
  | number n => if n < 1 then none else (vocabulary[(n - 1).toNat]?).map (·.2)
  | word s => vocabulary.lookup s

end Code

inductive FieldForm where
  | scalar (type : ScalarType)
  | group
  | message
  | enumeration
deriving DecidableEq, Repr, Inhabited

def labelVocabulary : List (String × Label) :=
  [("LABEL_OPTIONAL", .optional), ("LABEL_REQUIRED", .required), ("LABEL_REPEATED", .repeated)]

def typeVocabulary : List (String × FieldForm) :=
  [("TYPE_DOUBLE", .scalar .double), ("TYPE_FLOAT", .scalar .float), ("TYPE_INT64", .scalar .int64),
    ("TYPE_UINT64", .scalar .uint64), ("TYPE_INT32", .scalar .int32),
    ("TYPE_FIXED64", .scalar .fixed64), ("TYPE_FIXED32", .scalar .fixed32),
    ("TYPE_BOOL", .scalar .bool), ("TYPE_STRING", .scalar .string), ("TYPE_GROUP", .group),
    ("TYPE_MESSAGE", .message), ("TYPE_BYTES", .scalar .bytes), ("TYPE_UINT32", .scalar .uint32),
    ("TYPE_ENUM", .enumeration), ("TYPE_SFIXED32", .scalar .sfixed32),
    ("TYPE_SFIXED64", .scalar .sfixed64), ("TYPE_SINT32", .scalar .sint32),
    ("TYPE_SINT64", .scalar .sint64)]

structure FieldDescriptor where
  name : Option String := none
  number : Option Int := none
  label : Option Code := none
  type : Option Code := none
  typeName : Option String := none
deriving DecidableEq, Repr, Inhabited

structure ValueDescriptor where
  name : Option String := none
  number : Option Int := none
deriving DecidableEq, Repr, Inhabited

structure EnumDescriptor where
  name : Option String := none
  values : List ValueDescriptor := []
deriving DecidableEq, Repr, Inhabited

structure MessageDescriptor where
  name : Option String := none
  fields : List FieldDescriptor := []
  messages : List MessageDescriptor := []
  enumerations : List EnumDescriptor := []
deriving Repr, Inhabited

structure FileDescriptor where
  name : Option String := none
  package : Option String := none
  messages : List MessageDescriptor := []
  enumerations : List EnumDescriptor := []
deriving Repr, Inhabited

example : (Code.number 3).meaning? labelVocabulary = some .repeated := by decide
example : (Code.number 0).meaning? typeVocabulary = none := by decide
example : (Code.number 18).meaning? typeVocabulary = some (.scalar .sint64) := by decide
example : (Code.word "TYPE_ENUM").meaning? typeVocabulary = some .enumeration := by decide

end TopicSchema
