import TopicSchema.Proofs.Json.Numbers

namespace TopicSchema.Json

lemma Key.length_le {b : Bracket} {s t : List Char} (h : Key b s t) : t.length ≤ s.length := by
  cases h with
  | list => exact Nat.le_refl _
  | record hs ht =>
    have := hs.length_lt
    have := ht.length_le
    simp only [List.length_cons] at *
    omega

lemma IsNumber.length_pos {n : List Char} (h : IsNumber n) : 0 < n.length := by
  cases h with
  | mk _ hw _ _ _ =>
    have := List.length_pos_iff.mpr hw.1
    simp only [List.length_append]
    omega

mutual

theorem Value.length_lt : ∀ {s t : List Char}, Value s t → t.length < s.length
  | _, t, .word (w := w) hw => by
    have hp : ∀ w ∈ ["null", "true", "false"], 0 < w.toList.length := by decide
    have := hp w hw
    rw [List.length_append]
    omega
  | _, t, .number hn _ => by
    have := hn.length_pos
    rw [List.length_append]
    omega
  | _, _, .string h => Nat.lt_succ_of_lt h.length_lt
  | _, _, .list h => Nat.lt_succ_of_lt h.length_lt
  | _, _, .record h => Nat.lt_succ_of_lt h.length_lt

theorem Inside.length_lt :
    ∀ {b : Bracket} {first : Bool} {s t : List Char}, Inside b first s t → t.length < s.length
  | _, _, _, _, .close h => h.length_le
  | _, _, _, _, .item hs hk hb hv hi => by
    have := hs.length_le
    have := hk.length_le
    have := hb.length_le
    have := hv.length_lt
    have := hi.length_lt
    omega

end

def goOn (bound : List Char) (r : Except Problem (List Bracket × List Char)) :
    Except Problem (Unit × List Char) := do
  match ← r with
  | ([], rest) => .ok ((), rest)
  | (b :: outer, rest) =>
    let (_, rest) ← skipKey b rest
    skipWithin bound (b :: outer) rest

lemma skipWithin_cons (x : Char) (bound : List Char) (outer : List Bracket) (s : List Char) :
    skipWithin (x :: bound) outer s = goOn bound (skipOne outer s) :=
  rfl

lemma Blanks.trans {s t u : List Char} (h : Blanks s t) (h' : Blanks t u) : Blanks s u := by
  induction h with
  | none => exact h'
  | cons hc _ ih => exact .cons hc (ih h')

lemma Blanks.skipBlank_cons {s t : List Char} {c : Char} (h : Blanks s (c :: t))
    (hc : isBlank c = false) : skipBlank s = c :: t := by
  rw [h.skipBlank_eq, Json.skipBlank_cons hc]

lemma IsNumber.exists_cons {n : List Char} (h : IsNumber n) :
    ∃ c r, n = c :: r ∧ word? c = none ∧ startsNumber c = true ∧
      c ∉ ['"', '[', '\x7b', ']', '\x7d', ' ', '\n', '\t', '\r'] := by
  have hdigit : ∀ k < 58, 48 ≤ k → word? (Char.ofNat k) = none ∧
      startsNumber (Char.ofNat k) = true ∧
      Char.ofNat k ∉ ['"', '[', '\x7b', ']', '\x7d', ' ', '\n', '\t', '\r'] := by decide
  cases h with
  | mk hsign hw _ _ _ =>
    simp only [List.mem_cons, List.not_mem_nil, or_false] at hsign
    rcases hsign with rfl | rfl
    · obtain ⟨c, s, rfl⟩ := List.exists_cons_of_ne_nil hw.1
      obtain ⟨hlow, hhigh⟩ := hw.2 c List.mem_cons_self
      have hc := hdigit c.toNat (Nat.lt_succ_of_le hhigh) hlow
      rw [Char.ofNat_toNat] at hc
      exact ⟨c, _, rfl, hc⟩
    · exact ⟨'-', _, rfl, by decide⟩

lemma exists_word {w : String} (hw : w ∈ ["null", "true", "false"]) :
    ∃ c word, w.toList = c :: word ∧ word? c = some word ∧ isBlank c = false ∧
      c ∉ ['[', '\x7b', ']', '\x7d'] := by
  simp only [List.mem_cons, List.not_mem_nil, or_false] at hw
  rcases hw with rfl | rfl | rfl <;> exact ⟨_, _, rfl, rfl, rfl, by decide⟩

lemma Value.exists_cons {s t : List Char} (h : Value s t) :
    ∃ c r, s = c :: r ∧ isBlank c = false ∧ ∀ b : Bracket, c ≠ b.closing := by
  have hclosing : ∀ b : Bracket, b.closing ∈ [']', '\x7d'] := by intro b; cases b <;> decide
  have hall {c : Char} (hc : c ∉ [']', '\x7d']) (b : Bracket) : c ≠ b.closing := by
    rintro rfl
    exact hc (hclosing b)
  cases h with
  | @word w t hw =>
    obtain ⟨c, r, hr, _, hb, hc⟩ := exists_word hw
    simp only [List.mem_cons, not_or] at hc
    exact ⟨c, r ++ t, by rw [hr]; rfl, hb, hall (by simp [hc])⟩
  | number hn _ =>
    obtain ⟨c, r, rfl, _, _, hc⟩ := hn.exists_cons
    simp only [List.mem_cons, not_or] at hc
    exact ⟨c, _, rfl, by simp [isBlank, hc], hall (by simp [hc])⟩
  | string _ => exact ⟨_, _, rfl, rfl, hall (by decide)⟩
  | list _ => exact ⟨_, _, rfl, rfl, hall (by decide)⟩
  | record _ => exact ⟨_, _, rfl, rfl, hall (by decide)⟩

lemma skipOne_plain {c : Char} {s t : List Char} (hb : isBlank c = false) (hl : c ≠ '[')
    (hr : c ≠ '\x7b') (h : skipPlain c s = .ok t) (outer : List Bracket) :
    skipOne outer (c :: s) = afterValue outer t := by
  rw [skipOne, skipBlank_cons hb]
  split
  · next hc => cases hc
  · next hc => exact absurd (List.cons.inj hc).1 hl
  · next hc => exact absurd (List.cons.inj hc).1 hr
  · next hc =>
    cases hc
    rw [h]
    rfl

lemma skipOne_of_blanks {s t : List Char} (h : Blanks s t) (outer : List Bracket) :
    skipOne outer s = skipOne outer t := by
  rw [skipOne, skipOne, h.skipBlank_eq]

lemma skipKey_eq {b : Bracket} {s t u : List Char} (h : Blanks s t) (hk : Key b t u) :
    ∃ u', skipKey b s = .ok ((), u') ∧ Blanks u' u ∧ u'.length ≤ s.length := by
  cases hk with
  | list => exact ⟨s, rfl, h, Nat.le_refl _⟩
  | @record _ t v u hs hc =>
    refine ⟨u, ?_, .none, ?_⟩
    · have hcolon : readColon v = .ok ((), u) := by
        rw [readColon, hc.skipBlank_cons rfl]
        rfl
      rw [skipKey, h.skipBlank_cons rfl]
      simp [bind, Except.bind, hs.readString_eq, hcolon]
    · have := h.length_le
      have := hs.length_lt
      have := hc.length_le
      simp only [List.length_cons] at *
      omega

def takeUp (b : Bracket) (outer : List Bracket) :
    Bool → List Char → Except Problem (List Bracket × List Char)
  | true, s => afterOpening b outer s
  | false, s => afterValue (b :: outer) s

lemma Bracket.isBlank_closing (b : Bracket) : isBlank b.closing = false := by
  cases b <;> rfl

lemma Bracket.closing_ne_comma (b : Bracket) : b.closing ≠ ',' := by
  cases b <;> decide

lemma takeUp_closing {b : Bracket} {s t : List Char} (h : Blanks s (b.closing :: t))
    (outer : List Bracket) (first : Bool) : takeUp b outer first s = afterValue outer t := by
  have hs := h.skipBlank_cons b.isBlank_closing
  cases first with
  | false => rw [takeUp, afterValue, hs]; simp [b.closing_ne_comma]
  | true => rw [takeUp, afterOpening, hs]; simp

lemma takeUp_item {b : Bracket} {first : Bool} {s t u v w : List Char} (hs : Separates first s t)
    (hk : Key b t u) (hb : Blanks u v) (hv : Value v w) (outer : List Bracket) :
    ∃ s', takeUp b outer first s = .ok (b :: outer, s') ∧ Blanks s' t ∧
      s'.length ≤ s.length := by
  cases hs with
  | first hs =>
    -- what comes first is a key or a value, so the bracket does not close at once
    have hhead : ∃ c r, skipBlank s = c :: r ∧ c ≠ b.closing := by
      cases hk with
      | list =>
        obtain ⟨c, r, rfl, hc, hclosing⟩ := hv.exists_cons
        exact ⟨c, r, (hs.trans hb).skipBlank_cons hc, hclosing _⟩
      | record _ _ => exact ⟨_, _, hs.skipBlank_cons rfl, by decide⟩
    obtain ⟨c, r, hc, hne⟩ := hhead
    refine ⟨s, ?_, hs, Nat.le_refl _⟩
    rw [takeUp, afterOpening, hc]
    simp [hne]
  | @comma _ s' _ hs ht =>
    refine ⟨s', ?_, ht, ?_⟩
    · rw [takeUp, afterValue, hs.skipBlank_cons rfl]
      simp
    · have := hs.length_le
      rw [List.length_cons] at this
      omega

lemma skipWithin_plain {c : Char} {s s' t bound : List Char} (hs : Blanks s' (c :: s))
    (hl : s'.length ≤ bound.length) (hlt : t.length ≤ s.length) (hb : isBlank c = false)
    (hc : c ∉ ['[', '\x7b']) (h : skipPlain c s = .ok t) (outer : List Bracket) :
    ∃ bound', t.length ≤ bound'.length ∧
      skipWithin bound outer s' = goOn bound' (afterValue outer t) := by
  have hlen := hs.length_le
  rw [List.length_cons] at hlen
  obtain ⟨x, bound, rfl, hr⟩ := exists_cons_of_length_le (t := t) (by omega) hl
  simp only [List.mem_cons, List.not_mem_nil, or_false, not_or] at hc
  exact ⟨bound, hr, by rw [skipWithin_cons, skipOne_of_blanks hs, skipOne_plain hb hc.1 hc.2 h]⟩

lemma skipWithin_opening {b : Bracket} {c : Char} {s s' bound : List Char}
    (hs : Blanks s' (c :: s)) (hl : s'.length ≤ bound.length) {outer : List Bracket}
    (h : skipOne outer (c :: s) = takeUp b outer true s) :
    ∃ bound', s.length ≤ bound'.length ∧
      skipWithin bound outer s' = goOn bound' (takeUp b outer true s) := by
  have hlen := hs.length_le
  rw [List.length_cons] at hlen
  obtain ⟨x, bound, rfl, hr⟩ := exists_cons_of_length_le (t := s) (by omega) hl
  exact ⟨bound, hr, by rw [skipWithin_cons, skipOne_of_blanks hs, h]⟩

mutual

theorem Value.skipWithin_eq : ∀ {s t : List Char}, Value s t → ∀ {s' bound : List Char},
    Blanks s' s → s'.length ≤ bound.length → ∀ outer : List Bracket, ∃ bound',
      t.length ≤ bound'.length ∧ skipWithin bound outer s' = goOn bound' (afterValue outer t)
  | _, _, .word (t := t) hw, s', bound, hb, hl, outer => by
    obtain ⟨c, word, hs, hw, hblank, hc⟩ := exists_word hw
    rw [hs] at hb
    simp only [List.mem_cons, not_or] at hc
    refine skipWithin_plain hb hl (by simp) hblank (by simp [hc]) ?_ outer
    rw [skipPlain, hw]
    simp [readWord_append, Except.map]
  | _, _, .number (t := t) hn ht, s', bound, hb, hl, outer => by
    obtain ⟨c, r, rfl, hw, hstart, hc⟩ := hn.exists_cons
    obtain ⟨x, hx⟩ := hn.readNumber_eq ht
    simp only [List.mem_cons, not_or] at hc
    refine skipWithin_plain hb hl (by simp) (by simp [isBlank, hc]) (by simp [hc]) ?_ outer
    rw [List.cons_append] at hx
    simp [skipPlain, hw, hc, hstart, hx]
  | _, _, .string h, s', bound, hb, hl, outer => by
    refine skipWithin_plain hb hl (Nat.le_of_lt h.length_lt) rfl (by decide) ?_ outer
    have hw : word? '"' = none := rfl
    rw [skipPlain, hw, h.readString_eq]
    rfl
  | _, _, .list h, s', bound, hb, hl, outer => by
    obtain ⟨bound, hl, hs⟩ := skipWithin_opening (b := .list) hb hl rfl
    rw [hs]
    exact h.goOn_eq hl outer
  | _, _, .record h, s', bound, hb, hl, outer => by
    obtain ⟨bound, hl, hs⟩ := skipWithin_opening (b := .record) hb hl rfl
    rw [hs]
    exact h.goOn_eq hl outer

theorem Inside.goOn_eq : ∀ {b : Bracket} {first : Bool} {s t : List Char}, Inside b first s t →
    ∀ {bound : List Char}, s.length ≤ bound.length → ∀ outer : List Bracket, ∃ bound',
      t.length ≤ bound'.length ∧
        goOn bound (takeUp b outer first s) = goOn bound' (afterValue outer t)
  | _, _, _, _, .close h, bound, hl, outer => by
    refine ⟨bound, ?_, by rw [takeUp_closing h]⟩
    have := h.length_le
    rw [List.length_cons] at this
    omega
  | b, _, _, _, .item hs hk hb hv hi, bound, hl, outer => by
    obtain ⟨s', htake, hs', hl'⟩ := takeUp_item hs hk hb hv outer
    obtain ⟨u', hkey, hu', hlu⟩ := skipKey_eq hs' hk
    obtain ⟨bound₁, hl₁, hvalue⟩ :=
      hv.skipWithin_eq (hu'.trans hb) (Nat.le_trans hlu (Nat.le_trans hl' hl)) (b :: outer)
    obtain ⟨bound₂, hl₂, hrest⟩ := hi.goOn_eq hl₁ outer
    refine ⟨bound₂, hl₂, ?_⟩
    have hfalse := hvalue.trans hrest
    rw [← hfalse, htake]
    simp [goOn, bind, Except.bind, hkey]

end

theorem Value.skipValue_eq {s t s' : List Char} (h : Value s t) (hb : Blanks s' s) :
    skipValue s' = .ok ((), t) := by
  obtain ⟨bound, _, hs⟩ := h.skipWithin_eq hb (Nat.le_refl _) []
  exact hs

end TopicSchema.Json
