import TopicSchema.Json.Text

namespace TopicSchema.Json

structure Number where
  negative : Bool
  whole : List Nat
  fraction : Option (List Nat)
  exponent : Option Int
deriving DecidableEq, Repr

def digit? (c : Char) : Option Nat :=
  if '0' ≤ c ∧ c ≤ '9' then some (c.toNat - '0'.toNat) else none

def readDigits : List Char → List Nat × List Char
  | [] => ([], [])
  | c :: rest =>
    match digit? c with
    | some d => let (ds, rest) := readDigits rest; (d :: ds, rest)
    | none => ([], c :: rest)

def readSomeDigits : Reader (List Nat) := fun input =>
  match readDigits input with
  | ([], []) => .error .truncated
  | ([], _ :: _) => .error .malformed
  | (d :: ds, rest) => .ok (d :: ds, rest)

def ofDigits (ds : List Nat) : Nat :=
  ds.foldl (fun n d => 10 * n + d) 0

def readWhole : Reader (List Nat) := fun input => do
  match ← readSomeDigits input with
  | (0 :: _ :: _, _) => .error .malformed
  | r => .ok r

def readFraction : Reader (Option (List Nat))
  | '.' :: rest => do
    let (ds, rest) ← readSomeDigits rest
    .ok (some ds, rest)
  | input => .ok (none, input)

def readSign : List Char → Bool × List Char
  | '+' :: rest => (false, rest)
  | '-' :: rest => (true, rest)
  | input => (false, input)

def readExponent : Reader (Option Int)
  | 'e' :: rest => magnitude rest
  | 'E' :: rest => magnitude rest
  | input => .ok (none, input)
where
  magnitude (input : List Char) : Except Problem (Option Int × List Char) := do
    let (negative, rest) := readSign input
    let (ds, rest) ← readSomeDigits rest
    .ok (some (if negative then -(ofDigits ds : Int) else ofDigits ds), rest)

def readNumber : Reader Number := fun input => do
  let (negative, rest) := match input with
    | '-' :: rest => (true, rest)
    | _ => (false, input)
  let (whole, rest) ← readWhole rest
  let (fraction, rest) ← readFraction rest
  let (exponent, rest) ← readExponent rest
  .ok (⟨negative, whole, fraction, exponent⟩, rest)

def startsNumber (c : Char) : Bool :=
  c == '-' || (digit? c).isSome

/-- The nearest number of 53 binary digits and zeros; of two, the one with the even digits. -/
def roundTo53 (n : Nat) : Nat :=
  if n.log2 < 53 then n
  else
    let step := 1 <<< (n.log2 - 52)
    let low := n / step
    let excess := 2 * (n % step)
    if excess < step ∨ (excess = step ∧ low % 2 = 0) then low * step else (low + 1) * step

def productExceeds (n e : Nat) : Bool :=
  1024 ≤ (roundTo53 (roundTo53 n * roundTo53 (Nat.pow 10 e))).log2

def leading : Nat → List Nat → Nat × Nat
  | n, [] => (n, 0)
  | n, d :: ds =>
    if 10 * n + d < 0x10000000000000000 then
      let (n, count) := leading (10 * n + d) ds
      (n, count + 1)
    else (n, 0)

def Number.exceedsDouble (x : Number) : Bool :=
  let (n, kept) := leading 0 x.whole
  let (n, added) := leading n (x.fraction.getD [])
  let e : Int := (x.whole.length - kept : Nat) - added + x.exponent.getD 0
  n != 0 && 0 ≤ e && (308 < e || productExceeds n e.toNat)

def Number.int32? (x : Number) : Option Int :=
  let n : Int := ofDigits x.whole
  if x.fraction.isSome || x.exponent.isSome then none
  else if x.negative && n == 0 then none
  else
    let value := if x.negative then -n else n
    if -0x80000000 ≤ value ∧ value < 0x80000000 then some value else none

def readDouble : Reader Number := fun input => do
  let (x, rest) ← readNumber input
  if x.exceedsDouble then .error .malformed else .ok (x, rest)

example : (readDouble "-12,".toList).toOption.map (fun r => (r.1.int32?, r.2)) =
    some (some (-12), [',']) := by decide
example : readDouble "1e309".toList = .error .malformed := rfl
example : readDouble "01".toList = .error .malformed ∧ readDouble "1.".toList = .error .truncated :=
  ⟨rfl, rfl⟩

end TopicSchema.Json
