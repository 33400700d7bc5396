import TopicSchema.Proofs.Pieces
import TopicSchema.TypeName

namespace TopicSchema

namespace Text

lemma eq_toNat_of_ofNat {n : Nat} {d : Char} (hd : 0 < d.toNat) (h : Char.ofNat n = d) :
    n = d.toNat := by
  by_cases hv : n.isValidChar
  · rw [Char.ofNat, dif_pos hv] at h
    exact congrArg Char.toNat h
  · rw [Char.ofNat, dif_neg hv] at h
    rw [← h] at hd
    exact absurd hd (by decide)

lemma not_mem_upperCase {c d : Char} (hd : 0 < d.toNat) (hd' : d.toNat < 65) (hc : c ≠ d) :
    d ∉ upperCase c := by
  have hsmall : ∀ n < 128, (Char.ofNat n).toUpper = Char.ofNat n ∨
      65 ≤ (Char.ofNat n).toUpper.toNat := by decide
  have hgrow : ∀ e ∈ caseExpansions, ∀ n ∈ e.2, 65 ≤ n := by decide +kernel
  have hruns : ∀ r ∈ caseRuns, 65 ≤ r.upper := by decide +kernel
  intro h
  rw [upperCase] at h
  split at h
  · next hn =>
    have hu := List.mem_singleton.mp h
    rcases hsmall _ hn with hs | hs
    · rw [Char.ofNat_toNat] at hs
      exact hc (hu.trans hs).symm
    · rw [Char.ofNat_toNat, ← hu] at hs
      omega
  · split at h
    · next image hi =>
      obtain ⟨before, rest, he, _⟩ := List.lookup_eq_some_iff.mp hi
      obtain ⟨n, hn, hc⟩ := List.mem_map.mp h
      have := hgrow _ (he ▸ List.mem_append_right _ List.mem_cons_self) n hn
      rw [eq_toNat_of_ofNat hd hc] at this
      omega
    · split at h
      · next r hr =>
        have hi := eq_toNat_of_ofNat hd (List.mem_singleton.mp h).symm
        have hu := hruns r (List.mem_of_find?_eq_some hr)
        rw [CaseRun.image] at hi
        omega
      · exact hc (List.mem_singleton.mp h).symm

lemma upperCase_ne_nil (c : Char) : upperCase c ≠ [] := by
  have hgrow : ∀ e ∈ caseExpansions, e.2 ≠ [] := by decide +kernel
  rw [upperCase]
  split
  · simp
  · split
    · next image hi =>
      obtain ⟨before, rest, he, _⟩ := List.lookup_eq_some_iff.mp hi
      have := hgrow _ (he ▸ List.mem_append_right _ List.mem_cons_self)
      simpa using this
    · split <;> simp

lemma cutLast_of_not_mem {separator : Char} {s : List Char} (h : separator ∉ s) :
    cutLast separator s = none := by
  induction s with
  | nil => rfl
  | cons c s ih =>
    rw [List.mem_cons, not_or] at h
    rw [cutLast, ih h.2]
    exact if_neg (Ne.symm h.1)

lemma cutLast_append {separator : Char} {b : List Char} (h : separator ∉ b) (a : List Char) :
    cutLast separator (a ++ separator :: b) = some (a, b) := by
  induction a with
  | nil => rw [List.nil_append, cutLast, cutLast_of_not_mem h, if_pos rfl]
  | cons c a ih => rw [List.cons_append, cutLast, ih]

lemma exists_last_separator {separator : Char} {s : List Char} (h : separator ∈ s) :
    ∃ a b, s = a ++ separator :: b ∧ separator ∉ b := by
  obtain ⟨b, a, hs, hb⟩ := List.eq_append_cons_of_mem (List.mem_reverse.mpr h)
  refine ⟨a.reverse, b.reverse, ?_, by simpa using hb⟩
  rw [← List.reverse_reverse s, hs]
  simp

lemma mem_of_cutLast {separator : Char} {s a b : List Char}
    (h : cutLast separator s = some (a, b)) {c : Char} (hc : c ∈ b) : c ∈ s := by
  induction s generalizing a with
  | nil => cases h
  | cons d s ih =>
    rw [cutLast] at h
    split at h
    · next hl =>
      cases h
      exact List.mem_cons_of_mem _ (ih hl)
    · split at h
      · cases h
        exact List.mem_cons_of_mem _ hc
      · cases h

end Text

namespace TypeName

open Text

def capitalize : List Char → List Char
  | [] => []
  | c :: s => upperCase c ++ s

def joinSegments : List (List Char) → List Char
  | [] => []
  | p :: ps => p ++ ps.flatMap capitalize

def segments (name : String) : List (List Char) :=
  pieces '.' name.toList

lemma camelCase_eq (s : List Char) :
    camelCase false s = joinSegments (pieces '.' s) ∧
      camelCase true s = (pieces '.' s).flatMap capitalize := by
  induction s with
  | nil => exact ⟨rfl, rfl⟩
  | cons c s ih =>
    by_cases hc : c = '.'
    · subst hc
      simp [pieces_cons_self, camelCase, joinSegments, capitalize, ih.2]
    · obtain ⟨p, ps, hs, hp⟩ := pieces_cons_of_ne hc s
      have hf : camelCase false s = p ++ ps.flatMap capitalize := by
        rw [ih.1, hs, joinSegments]
      simp [hp, camelCase, hc, joinSegments, capitalize, hf]

theorem flattened_eq (name : String) :
    flattened name = String.ofList (joinSegments (segments name)) := by
  rw [flattened, (camelCase_eq _).1, segments]

lemma flattened_eq_iff {s t : String} :
    flattened s = flattened t ↔ joinSegments (segments s) = joinSegments (segments t) := by
  rw [flattened_eq, flattened_eq, String.ofList_inj]

lemma not_mem_camelCase {d : Char} (hd : 0 < d.toNat) (hd' : d.toNat < 65) {s : List Char}
    (hs : d ∉ s) (capital : Bool) : d ∉ camelCase capital s := by
  induction s generalizing capital with
  | nil => exact hs
  | cons c s ih =>
    rw [List.mem_cons, not_or] at hs
    rw [camelCase]
    split
    · exact ih hs.2 true
    · split
      · rw [List.mem_append, not_or]
        exact ⟨not_mem_upperCase hd hd' (Ne.symm hs.1), ih hs.2 false⟩
      · rw [List.mem_cons, not_or]
        exact ⟨hs.1, ih hs.2 false⟩

lemma camelCase_ne_nil {s : List Char} (h : ∃ c ∈ s, c ≠ '.') (capital : Bool) :
    camelCase capital s ≠ [] := by
  induction s generalizing capital with
  | nil => simp at h
  | cons c s ih =>
    rw [camelCase]
    split
    · next hc =>
      refine ih ?_ true
      simpa [hc] using h
    · split
      · simp [upperCase_ne_nil]
      · simp

lemma toList_qualify (scope name : String) :
    (qualify scope name).toList = scope.toList ++ '.' :: name.toList := by
  simp [qualify]

lemma segments_ne_nil (name : String) : segments name ≠ [] :=
  pieces_ne_nil '.' name.toList

lemma segments_qualify {name : String} (h : '.' ∉ name.toList) (scope : String) :
    segments (qualify scope name) = segments scope ++ [name.toList] := by
  rw [segments, toList_qualify, pieces_append, pieces_of_not_mem h, segments]

lemma joinSegments_append {ps : List (List Char)} (hp : ps ≠ []) (qs : List (List Char)) :
    joinSegments (ps ++ qs) = joinSegments ps ++ qs.flatMap capitalize := by
  obtain ⟨p, ps, rfl⟩ := List.exists_cons_of_ne_nil hp
  rw [List.cons_append, joinSegments, joinSegments, List.flatMap_append, List.append_assoc]

lemma not_mem_capitalize {s : List Char} (h : '.' ∉ s) : '.' ∉ capitalize s := by
  cases s with
  | nil => exact h
  | cons c s =>
    rw [List.mem_cons, not_or] at h
    rw [capitalize, List.mem_append, not_or]
    exact ⟨not_mem_upperCase (by decide) (by decide) (Ne.symm h.1), h.2⟩

lemma not_mem_joinSegments {ps : List (List Char)} (h : ∀ p ∈ ps, '.' ∉ p) :
    '.' ∉ joinSegments ps := by
  cases ps with
  | nil => simp [joinSegments]
  | cons p ps =>
    rw [joinSegments, List.mem_append, not_or]
    refine ⟨h p List.mem_cons_self, fun hm => ?_⟩
    obtain ⟨q, hq, hc⟩ := List.mem_flatMap.mp hm
    exact not_mem_capitalize (h q (List.mem_cons_of_mem p hq)) hc

theorem flattened_capitalizes (s : String) :
    (∃ first rest, Splits '.' s.toList (first :: rest)) ∧
    (∀ first rest, Splits '.' s.toList (first :: rest) →
      flattened s = String.ofList (first ++ rest.flatMap capitalize)) ∧
    '.' ∉ (flattened s).toList ∧
    ∀ name, '.' ∉ name.toList →
      flattened (qualify s name) = flattened s ++ String.ofList (capitalize name.toList) := by
  refine ⟨?_, fun first rest h => ?_, ?_, fun name h => ?_⟩
  · obtain ⟨first, rest, hp⟩ := List.exists_cons_of_ne_nil (pieces_ne_nil '.' s.toList)
    exact ⟨first, rest, splits_iff.mpr hp.symm⟩
  · rw [flattened_eq, segments, ← splits_iff.mp h, joinSegments]
  · rw [flattened_eq, String.toList_ofList]
    exact not_mem_joinSegments fun p hp => not_mem_of_mem_pieces hp
  · rw [flattened_eq, flattened_eq, segments_qualify h,
      joinSegments_append (segments_ne_nil s), String.ofList_append]
    simp

theorem flattened_capitalizes_sharp :
    flattened ".shop..straße" = "ShopStraße" ∧
      flattened (qualify ".shop." "ßet") = flattened ".shop." ++ "SSet" := by
  have hs : Splits '.' ".shop..straße".toList ["".toList, "shop".toList, [], "straße".toList] :=
    splits_iff.mpr (by decide)
  exact ⟨(flattened_capitalizes _).2.1 _ _ hs, (flattened_capitalizes _).2.2.2 "ßet" (by decide)⟩

lemma short_qualify {name : String} (h : '.' ∉ name.toList) (scope : String) :
    short (qualify scope name) = name := by
  rw [short, toList_qualify, cutLast_append h]
  exact String.ofList_toList

lemma parent_qualify {name : String} (h : '.' ∉ name.toList) (scope : String) :
    parent (qualify scope name) = scope := by
  rw [parent, toList_qualify, cutLast_append h]
  exact String.ofList_toList

lemma qualify_inj {name name' : String} (h : '.' ∉ name.toList) (h' : '.' ∉ name'.toList)
    {scope scope' : String} :
    qualify scope name = qualify scope' name' ↔ scope = scope' ∧ name = name' := by
  constructor
  · intro he
    have hp := congrArg parent he
    have hs := congrArg short he
    rw [parent_qualify h, parent_qualify h'] at hp
    rw [short_qualify h, short_qualify h'] at hs
    exact ⟨hp, hs⟩
  · rintro ⟨rfl, rfl⟩
    rfl

lemma qualify_ne_empty (scope name : String) : qualify scope name ≠ "" := by
  intro h
  have hl := congrArg String.toList h
  rw [toList_qualify] at hl
  simp at hl

lemma exists_qualify {t : String} (h : '.' ∈ t.toList) :
    ∃ scope name, '.' ∉ name.toList ∧ t = qualify scope name := by
  obtain ⟨a, b, ht, hb⟩ := exists_last_separator h
  refine ⟨String.ofList a, String.ofList b, by simpa using hb, ?_⟩
  apply String.toList_inj.mp
  rw [toList_qualify, ht, String.toList_ofList, String.toList_ofList]

lemma qualify_parent_short {t : String} (h : '.' ∈ t.toList) :
    qualify (parent t) (short t) = t ∧ '.' ∉ (short t).toList := by
  obtain ⟨scope, name, hn, rfl⟩ := exists_qualify h
  rw [parent_qualify hn, short_qualify hn]
  exact ⟨rfl, hn⟩

theorem parent_eq_iff {t scope : String} :
    parent t = scope ↔
      (∃ name, '.' ∉ name.toList ∧ t = qualify scope name) ∨ scope = "" ∧ '.' ∉ t.toList := by
  constructor
  · rintro rfl
    by_cases h : '.' ∈ t.toList
    · obtain ⟨ht, hs⟩ := qualify_parent_short h
      exact Or.inl ⟨short t, hs, ht.symm⟩
    · refine Or.inr ⟨?_, h⟩
      rw [parent, cutLast_of_not_mem h]
  · rintro (⟨name, hn, rfl⟩ | ⟨rfl, h⟩)
    · exact parent_qualify hn scope
    · rw [parent, cutLast_of_not_mem h]

end TypeName

end TopicSchema
