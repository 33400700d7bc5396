import TopicSchema.Json.Skip

/-! JSON texts. Each relation is between a text `s` and the rest `t` of it that follows what the
relation is about. -/

namespace TopicSchema.Json

inductive Blanks : List Char → List Char → Prop
  | none {s : List Char} : Blanks s s
  | cons {c : Char} {s t : List Char} :
      c ∈ [' ', '\t', '\n', '\r'] → Blanks s t → Blanks (c :: s) t

inductive Separates : Bool → List Char → List Char → Prop
  | first {s t : List Char} : Blanks s t → Separates true s t
  | comma {s t u : List Char} : Blanks s (',' :: t) → Blanks t u → Separates false s u

def shortEscapes : List (Char × Char) :=
  [('"', '"'), ('\\', '\\'), ('/', '/'), ('b', '\x08'), ('f', '\x0c'), ('n', '\n'), ('r', '\r'),
    ('t', '\t')]

def HexDigit (c : Char) (n : Nat) : Prop :=
  n < 16 ∧ (c = n.digitChar ∨ c = n.digitChar.toUpper)

instance (c : Char) (n : Nat) : Decidable (HexDigit c n) :=
  inferInstanceAs (Decidable (_ ∧ _))

inductive HexNumber : Nat → List Char → List Char → Prop
  | mk {a b c d : Char} {i j k l : Nat} {t : List Char} :
      HexDigit a i → HexDigit b j → HexDigit c k → HexDigit d l →
      HexNumber (0x1000 * i + 0x100 * j + 0x10 * k + l) (a :: b :: c :: d :: t) t

/-- The characters of a string up to its closing quote. A strict string has no halves of characters
above the first plane but in pairs. -/
inductive Spells : Bool → List Char → List Char → List Char → Prop
  | close {strict : Bool} {t : List Char} : Spells strict [] ('"' :: t) t
  | plain {strict : Bool} {c : Char} {cs s t : List Char} :
      ' ' ≤ c → c ≠ '"' → c ≠ '\\' → Spells strict cs s t → Spells strict (c :: cs) (c :: s) t
  | short {strict : Bool} {e c : Char} {cs s t : List Char} :
      (e, c) ∈ shortEscapes → Spells strict cs s t → Spells strict (c :: cs) ('\\' :: e :: s) t
  | numbered {strict : Bool} {n : Nat} {cs s t u : List Char} :
      HexNumber n s t → (strict = true → n < 0xd800 ∨ 0xdfff < n) → Spells strict cs t u →
      Spells strict (Char.ofNat n :: cs) ('\\' :: 'u' :: s) u
  | paired {high low : Nat} {cs s t u v : List Char} :
      HexNumber high s ('\\' :: 'u' :: t) → 0xd800 ≤ high → high ≤ 0xdbff →
      HexNumber low t u → 0xdc00 ≤ low → low ≤ 0xdfff → Spells true cs u v →
      Spells true (Char.ofNat (0x10000 + 0x400 * (high - 0xd800) + (low - 0xdc00)) :: cs)
        ('\\' :: 'u' :: s) v

def Digits (s : List Char) : Prop :=
  s ≠ [] ∧ ∀ c ∈ s, '0' ≤ c ∧ c ≤ '9'

inductive IsFraction : List Char → Prop
  | absent : IsFraction []
  | present {s : List Char} : Digits s → IsFraction ('.' :: s)

inductive IsExponent : List Char → Prop
  | absent : IsExponent []
  | present {e : Char} {sign s : List Char} :
      e ∈ ['e', 'E'] → sign ∈ [[], ['+'], ['-']] → Digits s → IsExponent (e :: (sign ++ s))

inductive IsNumber : List Char → Prop
  | mk {sign whole fraction exponent : List Char} :
      sign ∈ [[], ['-']] → Digits whole → (∀ s, whole = '0' :: s → s = []) →
      IsFraction fraction → IsExponent exponent →
      IsNumber (sign ++ whole ++ fraction ++ exponent)

def Stops (t : List Char) : Prop :=
  ∀ c ∈ t.head?, ¬ ('0' ≤ c ∧ c ≤ '9') ∧ c ∉ ['.', 'e', 'E']

inductive Key : Bracket → List Char → List Char → Prop
  | list {s : List Char} : Key .list s s
  | record {cs s t u : List Char} :
      Spells false cs s t → Blanks t (':' :: u) → Key .record ('"' :: s) u

mutual

inductive Value : List Char → List Char → Prop
  | word {w : String} {t : List Char} :
      w ∈ ["null", "true", "false"] → Value (w.toList ++ t) t
  | number {n t : List Char} : IsNumber n → Stops t → Value (n ++ t) t
  | string {cs s t : List Char} : Spells false cs s t → Value ('"' :: s) t
  | list {s t : List Char} : Inside .list true s t → Value ('[' :: s) t
  | record {s t : List Char} : Inside .record true s t → Value ('\x7b' :: s) t

inductive Inside : Bracket → Bool → List Char → List Char → Prop
  | close {b : Bracket} {first : Bool} {s t : List Char} :
      Blanks s (b.closing :: t) → Inside b first s t
  | item {b : Bracket} {first : Bool} {s t u v w x : List Char} :
      Separates first s t → Key b t u → Blanks u v → Value v w → Inside b false w x →
      Inside b first s x

end

end TopicSchema.Json
