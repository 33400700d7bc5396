namespace TopicSchema.Wire

inductive WireType where
  | varint | sixtyFourBit | lengthDelimited | startGroup | endGroup | thirtyTwoBit
deriving DecidableEq, Repr

namespace WireType

def all : List WireType :=
  [varint, sixtyFourBit, lengthDelimited, startGroup, endGroup, thirtyTwoBit]

def ofNumber? (n : Nat) : Option WireType :=
  all[n]?

def number : WireType → Nat
  | varint => 0
  | sixtyFourBit => 1
  | lengthDelimited => 2
  | startGroup => 3
  | endGroup => 4
  | thirtyTwoBit => 5

def name : WireType → String
  | varint => "Varint"
  | sixtyFourBit => "SixtyFourBit"
  | lengthDelimited => "LengthDelimited"
  | startGroup => "StartGroup"
  | endGroup => "EndGroup"
  | thirtyTwoBit => "ThirtyTwoBit"

theorem ofNumber?_number (t : WireType) : ofNumber? t.number = some t := by
  cases t <;> rfl

end WireType

inductive Fault where
  | invalidVarint
  | invalidKey (key : Nat)
  | invalidWireType (number : Nat)
  | invalidTag
  | unexpectedWireType (actual expected : WireType)
  | underflow
  | lengthExceeded
  | invalidText
  | depthExceeded
  | unexpectedEndGroup
deriving DecidableEq, Repr

def Fault.message : Fault → String
  | invalidVarint => "invalid varint"
  | invalidKey key => "invalid key value: " ++ toString key
  | invalidWireType number => "invalid wire type value: " ++ toString number
  | invalidTag => "invalid tag value: 0"
  | unexpectedWireType actual expected =>
    "invalid wire type: " ++ actual.name ++ " (expected " ++ expected.name ++ ")"
  | underflow => "buffer underflow"
  | lengthExceeded => "delimited length exceeded"
  | invalidText => "invalid string value: data is not UTF-8 encoded"
  | depthExceeded => "recursion limit reached"
  | unexpectedEndGroup => "unexpected end group tag"

/-- A fault and the fields around it, the innermost first, each with the type that it belongs to. -/
structure DecodeError where
  path : List (String × String) := []
  fault : Fault
deriving DecidableEq, Repr

namespace DecodeError

def here (fault : Fault) : DecodeError :=
  ⟨[], fault⟩

def inside (type field : String) (e : DecodeError) : DecodeError :=
  { e with path := e.path ++ [(type, field)] }

def message (e : DecodeError) : String :=
  "failed to decode Protobuf message: "
    ++ String.join (e.path.map fun (type, field) => type ++ "." ++ field ++ ": ")
    ++ e.fault.message

end DecodeError

end TopicSchema.Wire
