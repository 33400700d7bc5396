import Mathlib.Tactic.Lemma
import TopicSchema.Proofs.Json.Grammar

namespace TopicSchema.Json

lemma Blanks.skipBlank_eq {s t : List Char} (h : Blanks s t) : skipBlank s = skipBlank t := by
  induction h with
  | none => rfl
  | @cons c s t hc _ ih =>
    have hb : ∀ c ∈ [' ', '\t', '\n', '\r'], isBlank c = true := by simp [isBlank]
    rw [skipBlank, List.dropWhile_cons_of_pos (hb c hc)]
    exact ih

lemma Blanks.length_le {s t : List Char} (h : Blanks s t) : t.length ≤ s.length := by
  induction h with
  | none => exact Nat.le_refl _
  | cons _ _ ih => exact Nat.le_succ_of_le ih

lemma skipBlank_cons {c : Char} (h : isBlank c = false) (s : List Char) :
    skipBlank (c :: s) = c :: s :=
  List.dropWhile_cons_of_neg (by simp [h])

lemma Separates.length_le {first : Bool} {s t : List Char} (h : Separates first s t) :
    t.length ≤ s.length := by
  cases h with
  | first hb => exact hb.length_le
  | comma hb hc =>
    have := hb.length_le
    have := hc.length_le
    simp only [List.length_cons] at *
    omega

lemma readWord_append (w t : List Char) : readWord w (w ++ t) = .ok ((), t) := by
  induction w with
  | nil => cases t <;> rfl
  | cons c w ih => rw [List.cons_append, readWord, if_pos rfl, ih]

lemma HexDigit.hexDigit?_eq {c : Char} {n : Nat} (h : HexDigit c n) : hexDigit? c = some n := by
  have hall : ∀ n < 16, hexDigit? n.digitChar = some n ∧
      hexDigit? n.digitChar.toUpper = some n := by decide
  obtain ⟨hn, rfl | rfl⟩ := h
  · exact (hall n hn).1
  · exact (hall n hn).2

lemma HexNumber.readHex_eq {n : Nat} {s t : List Char} (h : HexNumber n s t) :
    readHex s = .ok (n, t) := by
  cases h with
  | @mk a b c d i j k l _ ha hb hc hd =>
    have hn : hexNumber? [a, b, c, d] = some (0x1000 * i + 0x100 * j + 0x10 * k + l) := by
      simp [hexNumber?, ha.hexDigit?_eq, hb.hexDigit?_eq, hc.hexDigit?_eq, hd.hexDigit?_eq]
      omega
    have hsize : ¬ (String.ofList [a, b, c, d]).utf8ByteSize < 4 := by
      have := a.utf8Size_pos
      have := b.utf8Size_pos
      have := c.utf8Size_pos
      have := d.utf8Size_pos
      simp
      omega
    simp only [readHex, List.take_succ_cons, List.take_zero, if_neg hsize, hn]
    rfl

lemma HexNumber.length_lt {n : Nat} {s t : List Char} (h : HexNumber n s t) :
    t.length < s.length := by
  cases h with
  | mk => simp; omega

lemma readEscape_short {e c : Char} (h : (e, c) ∈ shortEscapes) (strict : Bool) (t : List Char) :
    readEscape strict (e :: t) = .ok (c, t) := by
  simp only [shortEscapes, List.mem_cons, Prod.mk.injEq, List.not_mem_nil, or_false] at h
  rcases h with h | h | h | h | h | h | h | h <;> (obtain ⟨rfl, rfl⟩ := h; rfl)

lemma readEscape_numbered {strict : Bool} {n : Nat} {s t : List Char} (h : HexNumber n s t)
    (hn : strict = true → n < 0xd800 ∨ 0xdfff < n) :
    readEscape strict ('u' :: s) = .ok (Char.ofNat n, t) := by
  have hlow : (strict && isLowSurrogate n) = false := by
    cases strict with
    | false => rfl
    | true => have := hn rfl; simp [isLowSurrogate]; omega
  have hhigh : (strict && isHighSurrogate n) = false := by
    cases strict with
    | false => rfl
    | true => have := hn rfl; simp [isHighSurrogate]; omega
  have hr : readEscape strict ('u' :: s) = readNumbered strict s := rfl
  rw [hr, readNumbered, h.readHex_eq]
  simp [bind, Except.bind, hlow, hhigh]

lemma readEscape_paired {high low : Nat} {s t u : List Char}
    (hh : HexNumber high s ('\\' :: 'u' :: t)) (h₁ : 0xd800 ≤ high) (h₂ : high ≤ 0xdbff)
    (hl : HexNumber low t u) (h₃ : 0xdc00 ≤ low) (h₄ : low ≤ 0xdfff) :
    readEscape true ('u' :: s) =
      .ok (Char.ofNat (0x10000 + 0x400 * (high - 0xd800) + (low - 0xdc00)), u) := by
  have hlow : isLowSurrogate high = false := by simp [isLowSurrogate]; omega
  have hhigh : isHighSurrogate high = true := by simp [isHighSurrogate]; omega
  have hsecond : isLowSurrogate low = true := by simp [isLowSurrogate]; omega
  have hr : readEscape true ('u' :: s) = readNumbered true s := rfl
  have hp : readLowSurrogate high ('\\' :: 'u' :: t) =
      .ok (Char.ofNat (0x10000 + 0x400 * (high - 0xd800) + (low - 0xdc00)), u) := by
    simp [readLowSurrogate, hl.readHex_eq, bind, Except.bind, hsecond]
  rw [hr, readNumbered, hh.readHex_eq]
  simpa [bind, Except.bind, hlow, hhigh] using hp

lemma Spells.length_lt {strict : Bool} {cs s t : List Char} (h : Spells strict cs s t) :
    t.length < s.length := by
  induction h with
  | close => simp
  | plain _ _ _ _ ih => simp; omega
  | short _ _ ih => simp; omega
  | numbered hn _ _ ih => have := hn.length_lt; simp; omega
  | paired hh _ _ hl _ _ _ ih =>
    have := hh.length_lt
    have := hl.length_lt
    simp only [List.length_cons] at *
    omega

lemma readCharacters_escape {strict : Bool} {c : Char} {cs s t u : List Char}
    (he : readEscape strict s = .ok (c, t)) {x : Char} {bound : List Char}
    (hr : readCharacters strict bound t = .ok (cs, u)) :
    readCharacters strict (x :: bound) ('\\' :: s) = .ok (c :: cs, u) := by
  rw [readCharacters, he]
  simp [bind, Except.bind, hr]

lemma readCharacters_plain {strict : Bool} {c : Char} {cs s t : List Char} (hc : ' ' ≤ c)
    (hq : c ≠ '"') (hs : c ≠ '\\') {x : Char} {bound : List Char}
    (hr : readCharacters strict bound s = .ok (cs, t)) :
    readCharacters strict (x :: bound) (c :: s) = .ok (c :: cs, t) := by
  rw [readCharacters]
  · rw [if_neg (Char.not_lt.mpr hc), hr]
    rfl
  · exact hq
  · exact hs

lemma exists_cons_of_length_le {s t bound : List Char} (h : t.length < s.length)
    (hb : s.length ≤ bound.length) :
    ∃ x rest, bound = x :: rest ∧ t.length ≤ rest.length := by
  obtain ⟨x, rest, rfl⟩ :=
    List.exists_cons_of_length_pos (Nat.lt_of_lt_of_le (Nat.zero_lt_of_lt h) hb)
  refine ⟨x, rest, rfl, ?_⟩
  rw [List.length_cons] at hb
  omega

lemma Spells.readCharacters_eq {strict : Bool} {cs s t : List Char} (h : Spells strict cs s t)
    {bound : List Char} (hb : s.length ≤ bound.length) :
    readCharacters strict bound s = .ok (cs, t) := by
  induction h generalizing bound with
  | @close _ t =>
    obtain ⟨x, bound, rfl, _⟩ := exists_cons_of_length_le (t := t) (by simp) hb
    rfl
  | @plain _ _ _ s _ hc hq hs _ ih =>
    obtain ⟨x, bound, rfl, hr⟩ := exists_cons_of_length_le (t := s) (by simp) hb
    exact readCharacters_plain hc hq hs (ih hr)
  | @short _ _ _ _ s _ he _ ih =>
    obtain ⟨x, bound, rfl, hr⟩ := exists_cons_of_length_le (t := s)
      (by simp only [List.length_cons]; omega) hb
    exact readCharacters_escape (readEscape_short he _ _) (ih hr)
  | numbered hn hv _ ih =>
    have hlt := hn.length_lt
    obtain ⟨x, bound, rfl, hr⟩ := exists_cons_of_length_le
      (Nat.lt_trans hlt (by simp only [List.length_cons]; omega)) hb
    exact readCharacters_escape (readEscape_numbered hn hv) (ih hr)
  | @paired _ _ _ _ _ u _ hh h₁ h₂ hl h₃ h₄ _ ih =>
    have hlt := Nat.lt_trans hl.length_lt
      (Nat.lt_trans (by simp only [List.length_cons]; omega) hh.length_lt)
    obtain ⟨x, bound, rfl, hr⟩ := exists_cons_of_length_le
      (Nat.lt_trans hlt (by simp only [List.length_cons]; omega)) hb
    exact readCharacters_escape (readEscape_paired hh h₁ h₂ hl h₃ h₄) (ih hr)

lemma Spells.readString_eq {strict : Bool} {cs s t : List Char} (h : Spells strict cs s t) :
    readString strict s = .ok (String.ofList cs, t) := by
  rw [readString, h.readCharacters_eq (Nat.le_refl _)]
  rfl

end TopicSchema.Json
