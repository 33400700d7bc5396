namespace TopicSchema.Json

inductive Problem where
  | malformed
  | truncated
  | mismatched
deriving DecidableEq, Repr

abbrev Reader (α : Type) := List Char → Except Problem (α × List Char)

def isBlank (c : Char) : Bool :=
  c == ' ' || c == '\n' || c == '\t' || c == '\r'

def skipBlank (input : List Char) : List Char :=
  input.dropWhile isBlank

def readWord : List Char → Reader Unit
  | [], input => .ok ((), input)
  | _ :: _, [] => .error .truncated
  | c :: word, d :: input => if c = d then readWord word input else .error .malformed

def hexDigit? (c : Char) : Option Nat :=
  if '0' ≤ c ∧ c ≤ '9' then some (c.toNat - '0'.toNat)
  else if 'a' ≤ c ∧ c ≤ 'f' then some (c.toNat - 'a'.toNat + 10)
  else if 'A' ≤ c ∧ c ≤ 'F' then some (c.toNat - 'A'.toNat + 10)
  else none

def hexNumber? (digits : List Char) : Option Nat :=
  digits.foldlM (fun n c => (hexDigit? c).map (16 * n + ·)) 0

def readHex : Reader Nat := fun input =>
  if (String.ofList (input.take 4)).utf8ByteSize < 4 then .error .truncated
  else match hexNumber? (input.take 4) with
    | some n => if (input.take 4).length = 4 then .ok (n, input.drop 4) else .error .malformed
    | none => .error .malformed

def isLowSurrogate (n : Nat) : Bool :=
  0xdc00 ≤ n && n ≤ 0xdfff

def isHighSurrogate (n : Nat) : Bool :=
  0xd800 ≤ n && n ≤ 0xdbff

def readLowSurrogate (high : Nat) : Reader Char
  | [] => .error .truncated
  | ['\\'] => .error .truncated
  | '\\' :: 'u' :: rest => do
    let (low, rest) ← readHex rest
    if isLowSurrogate low then
      .ok (Char.ofNat (0x10000 + 0x400 * (high - 0xd800) + (low - 0xdc00)), rest)
    else .error .malformed
  | _ => .error .malformed

def readNumbered (strict : Bool) : Reader Char := fun input => do
  let (n, rest) ← readHex input
  if strict && isLowSurrogate n then .error .malformed
  else if strict && isHighSurrogate n then readLowSurrogate n rest
  else .ok (Char.ofNat n, rest)

def readEscape (strict : Bool) : Reader Char
  | [] => .error .truncated
  | '"' :: rest => .ok ('"', rest)
  | '\\' :: rest => .ok ('\\', rest)
  | '/' :: rest => .ok ('/', rest)
  | 'b' :: rest => .ok ('\x08', rest)
  | 'f' :: rest => .ok ('\x0c', rest)
  | 'n' :: rest => .ok ('\n', rest)
  | 'r' :: rest => .ok ('\r', rest)
  | 't' :: rest => .ok ('\t', rest)
  | 'u' :: rest => readNumbered strict rest
  | _ => .error .malformed

def readCharacters (strict : Bool) : List Char → Reader (List Char)
  | [], _ => .error .truncated
  | _ :: _, [] => .error .truncated
  | _ :: _, '"' :: rest => .ok ([], rest)
  | _ :: bound, '\\' :: rest => do
    let (c, rest) ← readEscape strict rest
    let (cs, rest) ← readCharacters strict bound rest
    .ok (c :: cs, rest)
  | _ :: bound, c :: rest =>
    if c < ' ' then .error .malformed
    else do
      let (cs, rest) ← readCharacters strict bound rest
      .ok (c :: cs, rest)

def readString (strict : Bool) : Reader String := fun input => do
  let (cs, rest) ← readCharacters strict input input
  .ok (String.ofList cs, rest)

example : readString true "a\\u00e9\\n\"x".toList = .ok ("aé\n", ['x']) := rfl
example : readString true "\\ud83d\\ude00\"".toList = .ok ("😀", []) := rfl
example : readString true "\\ud83d\"".toList = .error .malformed := rfl

end TopicSchema.Json
