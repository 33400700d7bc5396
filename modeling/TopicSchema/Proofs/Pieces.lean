import Mathlib.Tactic.Lemma
import TopicSchema.Text.Pieces

namespace TopicSchema.Text

variable {separator : Char} {s : List Char} {items : List (List Char)}

structure Splits (separator : Char) (s : List Char) (items : List (List Char)) : Prop where
  nonempty : items ≠ []
  free : ∀ i ∈ items, separator ∉ i
  joined : [separator].intercalate items = s

lemma pieces_cons_self (separator : Char) (s : List Char) :
    pieces separator (separator :: s) = [] :: pieces separator s := by
  rw [pieces, if_pos rfl]

lemma pieces_cons_of_ne {c : Char} (hc : c ≠ separator) (s : List Char) :
    ∃ p ps, pieces separator s = p :: ps ∧ pieces separator (c :: s) = (c :: p) :: ps := by
  obtain ⟨p, ps, hs⟩ := List.exists_cons_of_ne_nil (pieces_ne_nil separator s)
  exact ⟨p, ps, hs, by rw [pieces, if_neg hc, hs]⟩

lemma pieces_append (a b : List Char) :
    pieces separator (a ++ separator :: b) = pieces separator a ++ pieces separator b := by
  induction a with
  | nil => exact pieces_cons_self separator b
  | cons c a ih =>
    by_cases hc : c = separator
    · subst hc
      rw [List.cons_append, pieces_cons_self, pieces_cons_self, ih, List.cons_append]
    · obtain ⟨p, ps, ha, hca⟩ := pieces_cons_of_ne hc a
      obtain ⟨q, qs, hb, hcb⟩ := pieces_cons_of_ne hc (a ++ separator :: b)
      rw [hb, ha, List.cons_append, List.cons.injEq] at ih
      rw [List.cons_append, hca, hcb, ih.1, ih.2, List.cons_append]

lemma pieces_of_not_mem (h : separator ∉ s) : pieces separator s = [s] := by
  induction s with
  | nil => rfl
  | cons c s ih =>
    rw [List.mem_cons, not_or] at h
    rw [pieces, if_neg (Ne.symm h.1), ih h.2]

lemma pieces_append_of_not_mem {t : List Char} (ht : separator ∉ t) (s : List Char) :
    ∃ before last, pieces separator s = before ++ [last] ∧
      pieces separator (s ++ t) = before ++ [last ++ t] := by
  induction s with
  | nil => exact ⟨[], [], rfl, pieces_of_not_mem ht⟩
  | cons c s ih =>
    obtain ⟨before, last, hs, hst⟩ := ih
    by_cases hc : c = separator
    · subst hc
      exact ⟨[] :: before, last, by rw [pieces_cons_self, hs, List.cons_append],
        by rw [List.cons_append, pieces_cons_self, hst, List.cons_append]⟩
    · cases before with
      | nil => exact ⟨[], c :: last, by simp [pieces, hc, hs], by simp [pieces, hc, hst]⟩
      | cons p before =>
        exact ⟨(c :: p) :: before, last, by simp [pieces, hc, hs], by simp [pieces, hc, hst]⟩

lemma not_mem_of_mem_pieces {p : List Char} (h : p ∈ pieces separator s) : separator ∉ p := by
  induction s generalizing p with
  | nil =>
    obtain rfl := List.mem_singleton.mp h
    simp
  | cons c s ih =>
    by_cases hc : c = separator
    · subst hc
      rw [pieces_cons_self] at h
      rcases List.mem_cons.mp h with rfl | h
      · exact List.not_mem_nil
      · exact ih h
    · obtain ⟨q, qs, hs, hcs⟩ := pieces_cons_of_ne hc s
      rw [hs] at ih
      rw [hcs] at h
      rcases List.mem_cons.mp h with rfl | h
      · rw [List.mem_cons, not_or]
        exact ⟨Ne.symm hc, ih List.mem_cons_self⟩
      · exact ih (List.mem_cons_of_mem q h)

lemma exists_piece {c : Char} (hc : c ≠ separator) (h : c ∈ s) :
    ∃ p ∈ pieces separator s, c ∈ p := by
  induction s with
  | nil => cases h
  | cons d s ih =>
    by_cases hd : d = separator
    · subst hd
      obtain ⟨p, hp, hcp⟩ := ih (List.mem_of_ne_of_mem hc h)
      rw [pieces_cons_self]
      exact ⟨p, List.mem_cons_of_mem _ hp, hcp⟩
    · obtain ⟨p, ps, hs, hds⟩ := pieces_cons_of_ne hd s
      rw [hs] at ih
      rw [hds]
      rcases List.mem_cons.mp h with rfl | h
      · exact ⟨c :: p, List.mem_cons_self, List.mem_cons_self⟩
      · obtain ⟨q, hq, hcq⟩ := ih h
        rcases List.mem_cons.mp hq with rfl | hq
        · exact ⟨d :: q, List.mem_cons_self, List.mem_cons_of_mem _ hcq⟩
        · exact ⟨q, List.mem_cons_of_mem _ hq, hcq⟩

lemma intercalate_pieces (s : List Char) : [separator].intercalate (pieces separator s) = s := by
  induction s with
  | nil => rfl
  | cons c s ih =>
    by_cases hc : c = separator
    · subst hc
      rw [pieces_cons_self, List.intercalate_cons_of_ne_nil (pieces_ne_nil c s), ih]
      rfl
    · obtain ⟨p, ps, hs, hcs⟩ := pieces_cons_of_ne hc s
      rw [hs] at ih
      rw [hcs]
      cases ps with
      | nil => simpa using ih
      | cons q ps =>
        rw [List.intercalate_cons_cons] at ih
        rw [List.intercalate_cons_cons, List.cons_append, List.cons_append, ih]

lemma pieces_intercalate (hi : items ≠ []) (hf : ∀ i ∈ items, separator ∉ i) :
    pieces separator ([separator].intercalate items) = items := by
  induction items with
  | nil => exact absurd rfl hi
  | cons p items ih =>
    have hp : pieces separator p = [p] := pieces_of_not_mem (hf p List.mem_cons_self)
    by_cases hn : items = []
    · subst hn
      simpa using hp
    · have hr := ih hn fun i hi => hf i (List.mem_cons_of_mem p hi)
      rw [List.intercalate_cons_of_ne_nil hn, List.append_assoc, List.singleton_append,
        pieces_append, hp, hr, List.singleton_append]

lemma splits_pieces (separator : Char) (s : List Char) :
    Splits separator s (pieces separator s) :=
  ⟨pieces_ne_nil separator s, fun _ => not_mem_of_mem_pieces, intercalate_pieces s⟩

lemma splits_iff : Splits separator s items ↔ items = pieces separator s := by
  constructor
  · rintro ⟨hi, hf, rfl⟩
    exact (pieces_intercalate hi hf).symm
  · rintro rfl
    exact splits_pieces separator s

lemma cutFirst_of_not_mem (h : separator ∉ s) : cutFirst separator s = none := by
  induction s with
  | nil => rfl
  | cons c s ih =>
    rw [List.mem_cons, not_or] at h
    rw [cutFirst, if_neg (Ne.symm h.1), ih h.2]
    rfl

lemma cutFirst_append (h : separator ∉ s) (t : List Char) :
    cutFirst separator (s ++ separator :: t) = some (s, t) := by
  induction s with
  | nil => simp [cutFirst]
  | cons c s ih =>
    rw [List.mem_cons, not_or] at h
    rw [List.cons_append, cutFirst, if_neg (Ne.symm h.1), ih h.2]
    rfl

end TopicSchema.Text
