import TopicSchema.Entry
import TopicSchema.Wire.Fault
import TopicSchema.Wire.RecordType
import TopicSchema.Wire.Varint

/-! Reading records. A length is only checked against the whole of the remaining input; that the
parts of a value end where the value ends is checked after they are read. -/

namespace TopicSchema.Wire

abbrev Reader (α : Type) := Input → Except DecodeError (α × Input)

def readVarint : Reader Nat := fun input =>
  match Varint.read? input with
  | some r => .ok r
  | none => .error (.here .invalidVarint)

def wordRange : Nat :=
  0x100000000

def longRange : Nat :=
  0x10000000000000000

def readKey : Reader (Nat × WireType) := fun input => do
  let (key, rest) ← readVarint input
  if wordRange ≤ key then .error (.here (.invalidKey key))
  else match WireType.ofNumber? (key % 8) with
    | none => .error (.here (.invalidWireType (key % 8)))
    | some wireType =>
      if key / 8 = 0 then .error (.here .invalidTag) else .ok ((key / 8, wireType), rest)

def readBytes (count : Nat) : Reader Bytes := fun input =>
  match input.take? count with
  | some r => .ok r
  | none => .error (.here .underflow)

def readSized : Reader Bytes := fun input => do
  let (count, rest) ← readVarint input
  readBytes count rest

def skipping {α : Type} (read : Reader α) : Reader Unit := fun input => do
  let (_, rest) ← read input
  .ok ((), rest)

/-- Passes over the fields of a group and its end. A group ends before the input does, so `bound` is
enough if it is more than the size of the input. -/
def skipGroup (skip : WireType → Nat → Reader Unit) (group : Nat) : Nat → Reader Unit
  | 0, _ => .error (.here .invalidVarint)
  | bound + 1, input => do
    let ((number, wireType), rest) ← readKey input
    if wireType = .endGroup then
      if number = group then .ok ((), rest) else .error (.here .unexpectedEndGroup)
    else
      let (_, rest) ← skip wireType number rest
      skipGroup skip group bound rest

def skipValue : Nat → WireType → Nat → Reader Unit
  | 0, _, _ => fun _ => .error (.here .depthExceeded)
  | _ + 1, .varint, _ => skipping readVarint
  | _ + 1, .sixtyFourBit, _ => skipping (readBytes 8)
  | _ + 1, .thirtyTwoBit, _ => skipping (readBytes 4)
  | _ + 1, .lengthDelimited, _ => skipping readSized
  | depth + 1, .startGroup, group => fun input =>
    skipGroup (skipValue depth) group (input.size + 1) input
  | _ + 1, .endGroup, _ => fun _ => .error (.here .unexpectedEndGroup)

/-- Reads items while more than `stop` bytes remain. Every item takes a byte or more, so `bound` is
enough if it is no less than the size of the input. -/
def readItems {α : Type} (item : Reader (List α)) (stop : Nat) : Nat → Reader (List α)
  | 0, input => .ok ([], input)
  | bound + 1, input =>
    if input.size ≤ stop then .ok ([], input)
    else do
      let (first, rest) ← item input
      let (others, rest) ← readItems item stop bound rest
      .ok (first ++ others, rest)

def readDelimited {α : Type} (item : Reader (List α)) : Reader (List α) := fun input => do
  let (count, rest) ← readVarint input
  if rest.size < count then .error (.here .underflow)
  else
    let stop := rest.size - count
    let (items, rest) ← readItems item stop rest.size rest
    if rest.size = stop then .ok (items, rest) else .error (.here .lengthExceeded)

def expect (expected actual : WireType) : Except DecodeError Unit :=
  if actual = expected then .ok () else .error (.here (.unexpectedWireType actual expected))

def signed (range n : Nat) : Int :=
  Int.bmod n range

def readInt32 (number : Nat) : Reader (List Entry) := fun input => do
  let (n, rest) ← readVarint input
  .ok ([.integer number (signed wordRange n)], rest)

def readValue (readRecord : RecordType → Reader (List Entry)) (rule : FieldRule)
    (wireType : WireType) : Reader (List Entry) := fun input =>
  match rule.content with
  | .int32 => do
    expect .varint wireType
    readInt32 rule.number input
  | .int32s =>
    if wireType = .lengthDelimited then readDelimited (readInt32 rule.number) input
    else do
      expect .varint wireType
      readInt32 rule.number input
  | .uint64 => do
    expect .varint wireType
    let (n, rest) ← readVarint input
    .ok ([.integer rule.number n], rest)
  | .int64 => do
    expect .varint wireType
    let (n, rest) ← readVarint input
    .ok ([.integer rule.number (signed longRange n)], rest)
  | .bool => do
    expect .varint wireType
    let (n, rest) ← readVarint input
    .ok ([.boolean rule.number (n != 0)], rest)
  | .double => do
    expect .sixtyFourBit wireType
    let (value, rest) ← readBytes 8 input
    .ok ([.double rule.number value], rest)
  | .text => do
    expect .lengthDelimited wireType
    let (value, rest) ← readSized input
    match String.fromUTF8? value.toByteArray with
    | some s => .ok ([.text rule.number s], rest)
    | none => .error (.here .invalidText)
  | .bytes => do
    expect .lengthDelimited wireType
    let (value, rest) ← readSized input
    .ok ([.bytes rule.number value], rest)
  | .record type => do
    expect .lengthDelimited wireType
    let (entries, rest) ← readRecord type input
    .ok ([.record rule.number entries], rest)

def readField (readRecord : RecordType → Reader (List Entry))
    (skip : WireType → Nat → Reader Unit) (type : RecordType) :
    Reader (List Entry) := fun input => do
  let ((number, wireType), rest) ← readKey input
  match type.field? number with
  | some rule => (readValue readRecord rule wireType rest).mapError (·.inside type.name rule.name)
  | none =>
    let (_, rest) ← skip wireType number rest
    .ok ([], rest)

def readRecord : Nat → RecordType → Reader (List Entry)
  | 0, _ => fun _ => .error (.here .depthExceeded)
  | depth + 1, type => readDelimited (readField (readRecord depth) (skipValue depth) type)

def depthLimit : Nat :=
  100

def decode (type : RecordType) (bytes : Bytes) : Except DecodeError (List Entry) := do
  let field := readField (readRecord depthLimit) (skipValue depthLimit) type
  let (entries, _) ← readItems field 0 bytes.length (.ofBytes bytes)
  .ok entries

end TopicSchema.Wire
