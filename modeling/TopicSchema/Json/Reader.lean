import TopicSchema.Entry
import TopicSchema.Json.Skip

/-! Reading descriptor sets. A record is written as an object with any further keys, or as the list
of its fields in their order. The first problem in the order of the text is reported. -/

namespace TopicSchema.Json

inductive RecordType where
  | set | file | message | field | enumeration | value
deriving DecidableEq, Repr

inductive Content where
  | text
  | integer
  | records (type : RecordType)
deriving DecidableEq, Repr

structure Member where
  key : String
  number : Nat
  content : Content
deriving DecidableEq, Repr

def RecordType.members : RecordType → List Member
  | .set => [⟨"file", 1, .records .file⟩]
  | .file =>
    [⟨"name", 1, .text⟩, ⟨"package", 2, .text⟩, ⟨"messageType", 4, .records .message⟩,
      ⟨"enumType", 5, .records .enumeration⟩]
  | .message =>
    [⟨"name", 1, .text⟩, ⟨"field", 2, .records .field⟩, ⟨"nestedType", 3, .records .message⟩,
      ⟨"enumType", 4, .records .enumeration⟩]
  | .field =>
    [⟨"name", 1, .text⟩, ⟨"number", 3, .integer⟩, ⟨"label", 4, .text⟩, ⟨"type", 5, .text⟩,
      ⟨"typeName", 6, .text⟩]
  | .enumeration => [⟨"name", 1, .text⟩, ⟨"value", 2, .records .value⟩]
  | .value => [⟨"name", 1, .text⟩, ⟨"number", 2, .integer⟩]

def RecordType.member? (type : RecordType) (key : String) : Option Member :=
  type.members.find? (·.key == key)

/-- The problem with a value that has the wrong kind. Lists and records are told by their brackets;
any other value has to be whole. -/
def misfit : List Char → Problem
  | [] => .truncated
  | c :: rest =>
    let whole {α : Type} (r : Except Problem α) : Problem :=
      match r with
      | .ok _ => .mismatched
      | .error p => p
    match word? c with
    | some word => whole (readWord word rest)
    | none =>
      if c = '"' then whole (readString true rest)
      else if startsNumber c then whole (readDouble (c :: rest))
      else if c = '[' ∨ c = '\x7b' then .mismatched
      else .malformed

def readText (number : Nat) : Reader (List Entry) := fun input =>
  match skipBlank input with
  | 'n' :: rest => do
    let (_, rest) ← readWord ['u', 'l', 'l'] rest
    .ok ([], rest)
  | '"' :: rest => do
    let (s, rest) ← readString true rest
    .ok ([.text number s], rest)
  | input => .error (misfit input)

def readInteger (number : Nat) : Reader (List Entry) := fun input =>
  match skipBlank input with
  | 'n' :: rest => do
    let (_, rest) ← readWord ['u', 'l', 'l'] rest
    .ok ([], rest)
  | c :: rest =>
    if startsNumber c then do
      let (x, rest) ← readDouble (c :: rest)
      match x.int32? with
      | some n => .ok ([.integer number n], rest)
      | none => .error .mismatched
    else .error (misfit (c :: rest))
  | [] => .error .truncated

def readNext (first : Bool) : Reader Bool := fun input =>
  match skipBlank input with
  | [] => .error .truncated
  | ']' :: rest => .ok (false, ']' :: rest)
  | c :: rest =>
    if first then .ok (true, c :: rest)
    else if c = ',' then
      match skipBlank rest with
      | [] => .error .truncated
      | ']' :: _ => .error .malformed
      | rest => .ok (true, rest)
    else .error .malformed

def readEnd : Reader Unit := fun input =>
  match skipBlank input with
  | [] => .error .truncated
  | ']' :: rest => .ok ((), rest)
  | _ => .error .malformed

/-- The items of a list. Every item takes a character or more; `bound` is a list as long as the
text. -/
def readItems {α : Type} (item : Reader α) : List Char → Bool → Reader (List α)
  | [], _, _ => .error .truncated
  | _ :: bound, first, input => do
    match ← readNext first input with
    | (false, rest) =>
      let (_, rest) ← readEnd rest
      .ok ([], rest)
    | (true, rest) =>
      let (x, rest) ← item rest
      let (xs, rest) ← readItems item bound false rest
      .ok (x :: xs, rest)

def readList {α : Type} (item : Option (Reader α)) : Reader (List α) := fun input =>
  match skipBlank input with
  | '[' :: rest =>
    match item with
    | none => .error .malformed
    | some item => readItems item rest true rest
  | input => .error (misfit input)

def readMember (records : RecordType → Reader (List (List Entry))) (m : Member) :
    Reader (List Entry) :=
  match m.content with
  | .text => readText m.number
  | .integer => readInteger m.number
  | .records type => fun input => do
    let (items, rest) ← records type input
    .ok (items.map (.record m.number), rest)

def readKey (first : Bool) : Reader (Option String) := fun input =>
  let key : Reader (Option String) := fun input =>
    match input with
    | [] => .error .truncated
    | '"' :: rest => do
      let (key, rest) ← readString true rest
      .ok (some key, rest)
    | _ => .error .malformed
  match skipBlank input with
  | [] => .error .truncated
  | '\x7d' :: rest => .ok (none, rest)
  | c :: rest =>
    if first then key (c :: rest)
    else if c = ',' then key (skipBlank rest)
    else .error .malformed

def readObject (member : Member → Reader (List Entry)) (type : RecordType) :
    List Char → Bool → List String → Reader (List Entry)
  | [], _, _, _ => .error .truncated
  | _ :: bound, first, seen, input => do
    match ← readKey first input with
    | (none, rest) => .ok ([], rest)
    | (some key, rest) =>
      match type.member? key with
      | some m =>
        if key ∈ seen then .error .mismatched
        else
          let (_, rest) ← readColon rest
          let (entries, rest) ← member m rest
          let (others, rest) ← readObject member type bound false (key :: seen) rest
          .ok (entries ++ others, rest)
      | none =>
        let (_, rest) ← readColon rest
        let (_, rest) ← skipValue rest
        readObject member type bound false seen rest

def readPositions (member : Member → Reader (List Entry)) :
    Bool → List Member → Reader (List Entry)
  | _, [], input => do
    let (_, rest) ← readEnd input
    .ok ([], rest)
  | first, m :: ms, input => do
    match ← readNext first input with
    | (true, rest) =>
      let (entries, rest) ← member m rest
      let (others, rest) ← readPositions member false ms rest
      .ok (entries ++ others, rest)
    | (false, rest) =>
      match m.content with
      | .records _ => readPositions member first ms rest
      | _ => .error .mismatched

def readFields (member : Option (Member → Reader (List Entry))) (type : RecordType) :
    Reader (List Entry) := fun input =>
  match skipBlank input with
  | '\x7b' :: rest =>
    match member with
    | none => .error .malformed
    | some member => readObject member type rest true [] rest
  | '[' :: rest =>
    match member with
    | none => .error .malformed
    | some member => readPositions member true type.members rest
  | input => .error (misfit input)

mutual

def readRecord : Nat → RecordType → Reader (List Entry)
  | 0, type => readFields none type
  | depth + 1, type => readFields (some (readMember (readRecords depth))) type

def readRecords : Nat → RecordType → Reader (List (List Entry))
  | 0, _ => readList none
  | depth + 1, type => readList (some (readRecord depth type))

end

def depthLimit : Nat :=
  127

def decode (text : String) : Except Problem (List Entry) := do
  let (entries, rest) ← readRecord depthLimit .set text.toList
  if (skipBlank rest).isEmpty then .ok entries else .error .malformed

end TopicSchema.Json
