import TopicSchema.Json.Number

/-! Passing over a value of any kind and depth. Of a number only the grammar counts, and in strings
halves of characters may stand alone. -/

namespace TopicSchema.Json

inductive Bracket where
  | list | record
deriving DecidableEq, Repr

def Bracket.closing : Bracket → Char
  | list => ']'
  | record => '\x7d'

def word? : Char → Option (List Char)
  | 'n' => some ['u', 'l', 'l']
  | 't' => some ['r', 'u', 'e']
  | 'f' => some ['a', 'l', 's', 'e']
  | _ => none

def skipPlain (c : Char) (rest : List Char) : Except Problem (List Char) :=
  match word? c with
  | some word => (readWord word rest).map (·.2)
  | none =>
    if c = '"' then (readString false rest).map (·.2)
    else if startsNumber c then
      match readNumber (c :: rest) with
      | .ok (_, rest) => .ok rest
      | .error _ => .error .malformed
    else .error .malformed

/-- Goes on after a value: passes over the brackets that end there, up to the comma before the next
value. The brackets still open are returned. -/
def afterValue : List Bracket → Reader (List Bracket)
  | [], input => .ok ([], input)
  | b :: outer, input =>
    match skipBlank input with
    | [] => .error .truncated
    | c :: rest =>
      if c = ',' then .ok (b :: outer, rest)
      else if c = b.closing then afterValue outer rest
      else .error .malformed

def afterOpening (b : Bracket) (outer : List Bracket) : Reader (List Bracket) := fun input =>
  match skipBlank input with
  | [] => .error .truncated
  | c :: rest => if c = b.closing then afterValue outer rest else .ok (b :: outer, input)

def readColon : Reader Unit := fun input =>
  match skipBlank input with
  | [] => .error .truncated
  | ':' :: rest => .ok ((), rest)
  | _ => .error .malformed

def skipKey : Bracket → Reader Unit
  | .list, input => .ok ((), input)
  | .record, input =>
    match skipBlank input with
    | [] => .error .truncated
    | '"' :: rest => do
      let (_, rest) ← readString false rest
      readColon rest
    | _ => .error .malformed

def skipOne (outer : List Bracket) : Reader (List Bracket) := fun input =>
  match skipBlank input with
  | [] => .error .truncated
  | '[' :: rest => afterOpening .list outer rest
  | '\x7b' :: rest => afterOpening .record outer rest
  | c :: rest => do
    let rest ← skipPlain c rest
    afterValue outer rest

def skipWithin : List Char → List Bracket → Reader Unit
  | [], _, _ => .error .truncated
  | _ :: bound, outer, input => do
    match ← skipOne outer input with
    | ([], rest) => .ok ((), rest)
    | (b :: outer, rest) =>
      let (_, rest) ← skipKey b rest
      skipWithin bound (b :: outer) rest

def skipValue : Reader Unit := fun input =>
  skipWithin input [] input

example : skipValue " [\x7b\"a\": [1e999, null] \x7d, \"\\ud800\"] x".toList =
    .ok ((), " x".toList) := rfl
example : skipValue "[1,]".toList = .error .malformed := rfl
example : skipValue "-".toList = .error .malformed ∧ skipValue "[".toList = .error .truncated :=
  ⟨rfl, rfl⟩

end TopicSchema.Json
