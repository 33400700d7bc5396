import TopicSchema.Entry
import TopicSchema.Wire.Fault
import TopicSchema.Wire.Varint

namespace TopicSchema.Wire

def writeKey (number : Nat) (wireType : WireType) : Bytes :=
  Varint.write (8 * number + wireType.number)

def writeSized (number : Nat) (value : Bytes) : Bytes :=
  writeKey number .lengthDelimited ++ Varint.write value.length ++ value

def unsigned (n : Int) : Nat :=
  (n % 0x10000000000000000).toNat

mutual

def writeEntry : Entry → Bytes
  | .integer number value => writeKey number .varint ++ Varint.write (unsigned value)
  | .boolean number value => writeKey number .varint ++ Varint.write value.toNat
  | .double number value => writeKey number .sixtyFourBit ++ value
  | .text number value => writeSized number value.toUTF8.data.toList
  | .bytes number value => writeSized number value
  | .record number entries => writeSized number (encode entries)

def encode : List Entry → Bytes
  | [] => []
  | e :: es => writeEntry e ++ encode es

end

end TopicSchema.Wire
