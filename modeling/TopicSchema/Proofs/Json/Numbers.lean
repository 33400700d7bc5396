import TopicSchema.Proofs.Json.Tokens

namespace TopicSchema.Json

def digitValue (c : Char) : Nat :=
  c.toNat - '0'.toNat

lemma readDigits_append {s t : List Char} (hs : ∀ c ∈ s, '0' ≤ c ∧ c ≤ '9')
    (ht : ∀ c ∈ t.head?, ¬ ('0' ≤ c ∧ c ≤ '9')) :
    readDigits (s ++ t) = (s.map digitValue, t) := by
  induction s with
  | nil =>
    cases t with
    | nil => rfl
    | cons c t => simp [readDigits, digit?, ht c rfl]
  | cons c s ih =>
    have hc := hs c List.mem_cons_self
    have hr := ih fun d hd => hs d (List.mem_cons_of_mem _ hd)
    simp [readDigits, digit?, hc, hr, digitValue]

lemma Digits.readSomeDigits_eq {s t : List Char} (h : Digits s)
    (ht : ∀ c ∈ t.head?, ¬ ('0' ≤ c ∧ c ≤ '9')) :
    readSomeDigits (s ++ t) = .ok (s.map digitValue, t) := by
  rw [readSomeDigits, readDigits_append h.2 ht]
  cases s with
  | nil => exact absurd rfl h.1
  | cons c s => rfl

lemma readWhole_append {s t : List Char} (h : Digits s) (hz : ∀ r, s = '0' :: r → r = [])
    (ht : ∀ c ∈ t.head?, ¬ ('0' ≤ c ∧ c ≤ '9')) :
    readWhole (s ++ t) = .ok (s.map digitValue, t) := by
  have hzero : ∀ c : Char, '0' ≤ c → digitValue c = 0 → c = '0' := by
    intro c hc hv
    have hle : '0'.toNat ≤ c.toNat := hc
    have he : c.toNat = '0'.toNat := Nat.le_antisymm (Nat.le_of_sub_eq_zero hv) hle
    rw [← Char.ofNat_toNat c, he]
    rfl
  rw [readWhole, h.readSomeDigits_eq ht]
  obtain ⟨c, s, rfl⟩ := List.exists_cons_of_ne_nil h.1
  have hc := (h.2 c List.mem_cons_self).1
  cases s with
  | nil => 
    cases hv : digitValue c <;> simp [bind, Except.bind, hv]
  | cons d s =>
    have hv : digitValue c ≠ 0 := by
      intro hv
      have hs := hz (d :: s) (by rw [hzero c hc hv])
      cases hs
    obtain ⟨v, hv⟩ := Nat.exists_eq_succ_of_ne_zero hv
    simp [bind, Except.bind, hv]

lemma IsFraction.readFraction_eq {s t : List Char} (h : IsFraction s)
    (ht : ∀ c ∈ t.head?, ¬ ('0' ≤ c ∧ c ≤ '9') ∧ c ≠ '.') :
    ∃ f, readFraction (s ++ t) = .ok (f, t) ∧ (s = [] → f = none) := by
  cases h with
  | absent =>
    refine ⟨none, ?_, fun _ => rfl⟩
    cases t with
    | nil => rfl
    | cons c t => simp [readFraction, (ht c rfl).2]
  | @present s h =>
    refine ⟨some (s.map digitValue), ?_, nofun⟩
    rw [List.cons_append, readFraction, h.readSomeDigits_eq fun c hc => (ht c hc).1]
    rfl

lemma readSign_append {sign s : List Char} (h : sign ∈ [[], ['+'], ['-']]) (hs : Digits s)
    (t : List Char) : ∃ negative, readSign (sign ++ s ++ t) = (negative, s ++ t) := by
  simp only [List.mem_cons, List.not_mem_nil, or_false] at h
  rcases h with rfl | rfl | rfl
  · obtain ⟨c, s, rfl⟩ := List.exists_cons_of_ne_nil hs.1
    have hc := hs.2 c List.mem_cons_self
    have hp : c ≠ '+' := by rintro rfl; exact absurd hc (by decide)
    have hm : c ≠ '-' := by rintro rfl; exact absurd hc (by decide)
    exact ⟨false, by simp [readSign, hp, hm]⟩
  · exact ⟨false, rfl⟩
  · exact ⟨true, rfl⟩

lemma IsExponent.readExponent_eq {s t : List Char} (h : IsExponent s) (ht : Stops t) :
    ∃ e, readExponent (s ++ t) = .ok (e, t) ∧ (s = [] → e = none) := by
  cases h with
  | absent =>
    refine ⟨none, ?_, fun _ => rfl⟩
    cases t with
    | nil => rfl
    | cons c t =>
      have hc := (ht c rfl).2
      simp only [List.mem_cons, not_or] at hc
      simp [readExponent, hc]
  | @present e sign s he hsign hs =>
    obtain ⟨negative, hn⟩ := readSign_append hsign hs t
    have hm : ∃ x, readExponent.magnitude (sign ++ s ++ t) = .ok (x, t) := by
      have hd := hs.readSomeDigits_eq fun c hc => (ht c hc).1
      rw [readExponent.magnitude, hn]
      simp [bind, Except.bind, hd]
    obtain ⟨x, hx⟩ := hm
    refine ⟨x, ?_, nofun⟩
    simp only [List.mem_cons, List.not_mem_nil, or_false] at he
    rcases he with rfl | rfl
    · exact hx
    · exact hx

lemma IsExponent.head_eq {s t : List Char} (h : IsExponent s) (ht : Stops t) :
    ∀ c ∈ (s ++ t).head?, ¬ ('0' ≤ c ∧ c ≤ '9') ∧ c ≠ '.' := by
  cases h with
  | absent =>
    intro c hc
    obtain ⟨hd, hn⟩ := ht c hc
    refine ⟨hd, ?_⟩
    rintro rfl
    exact hn List.mem_cons_self
  | present he _ _ =>
    intro c hc
    cases hc
    simp only [List.mem_cons, List.not_mem_nil, or_false] at he
    rcases he with rfl | rfl <;> decide

lemma IsFraction.head_eq {s t : List Char} (h : IsFraction s)
    (ht : ∀ c ∈ t.head?, ¬ ('0' ≤ c ∧ c ≤ '9') ∧ c ≠ '.') :
    ∀ c ∈ (s ++ t).head?, ¬ ('0' ≤ c ∧ c ≤ '9') := by
  cases h with
  | absent => exact fun c hc => (ht c hc).1
  | present _ =>
    intro c hc
    cases hc
    decide

theorem readNumber_append {sign whole fraction exponent t : List Char}
    (hsign : sign ∈ [[], ['-']]) (hw : Digits whole) (hz : ∀ s, whole = '0' :: s → s = [])
    (hf : IsFraction fraction) (he : IsExponent exponent) (ht : Stops t) :
    ∃ f e, readNumber (sign ++ whole ++ fraction ++ exponent ++ t) =
        .ok (⟨sign = ['-'], whole.map digitValue, f, e⟩, t) ∧
      (fraction = [] → f = none) ∧ (exponent = [] → e = none) := by
  obtain ⟨f, hfr, hfn⟩ := hf.readFraction_eq (he.head_eq ht)
  obtain ⟨e, her, hen⟩ := he.readExponent_eq ht
  have hwr := readWhole_append hw hz (hf.head_eq (he.head_eq ht))
  refine ⟨f, e, ?_, hfn, hen⟩
  simp only [List.mem_cons, List.not_mem_nil, or_false] at hsign
  rcases hsign with rfl | rfl
  · obtain ⟨c, s, rfl⟩ := List.exists_cons_of_ne_nil hw.1
    have hc := hw.2 c List.mem_cons_self
    have hm : c ≠ '-' := by rintro rfl; exact absurd hc (by decide)
    simp only [List.nil_append, List.append_assoc, List.cons_append] at hwr ⊢
    rw [readNumber]
    · simp [bind, Except.bind, hwr, hfr, her]
    · intro rest hr
      exact hm (List.cons.inj hr).1
  · simp [readNumber, bind, Except.bind, hwr, hfr, her]

lemma IsNumber.readNumber_eq {n t : List Char} (h : IsNumber n) (ht : Stops t) :
    ∃ x, readNumber (n ++ t) = .ok (x, t) := by
  cases h with
  | mk hsign hw hz hf he =>
    obtain ⟨f, e, hr, _⟩ := readNumber_append hsign hw hz hf he ht
    exact ⟨_, hr⟩

lemma digits_toDigits (n : Nat) : Digits (Nat.toDigits 10 n) := by
  refine ⟨Nat.toDigits_ne_nil, fun c hc => ?_⟩
  have hd := Nat.isDigit_of_mem_toDigits (by decide) (by decide) hc
  simp only [Char.isDigit, Bool.and_eq_true, decide_eq_true_eq] at hd
  exact hd

lemma toDigits_zero_cons {n : Nat} {s : List Char} (h : Nat.toDigits 10 n = '0' :: s) :
    s = [] := by
  induction n using Nat.strongRecOn generalizing s with
  | ind n ih =>
    by_cases hn : n < 10
    · rw [Nat.toDigits_of_lt_base hn] at h
      exact (List.cons.inj h).2.symm
    · rw [Nat.toDigits_of_base_le (by decide) (Nat.le_of_not_lt hn)] at h
      obtain ⟨c, r, hr⟩ := List.exists_cons_of_ne_nil (Nat.toDigits_ne_nil (n := n / 10) (b := 10))
      rw [hr] at h
      obtain ⟨rfl, _⟩ := List.cons.inj h
      obtain rfl := ih (n / 10) (by omega) hr
      -- only zero is written as a single zero
      have hz := Nat.ofDigitChars_toDigits (b := 10) (n := n / 10) (by decide) (by decide)
      rw [hr] at hz
      have : n / 10 = 0 := hz.symm
      omega

lemma ofDigits_toDigits (n : Nat) : ofDigits ((Nat.toDigits 10 n).map digitValue) = n := by
  have h := Nat.ofDigitChars_toDigits (b := 10) (n := n) (by decide) (by decide)
  rw [ofDigits, List.foldl_map]
  exact h

lemma le_foldl_digits (ds : List Nat) (n : Nat) : n ≤ ds.foldl (fun n d => 10 * n + d) n := by
  induction ds generalizing n with
  | nil => exact Nat.le_refl n
  | cons d ds ih => exact Nat.le_trans (by omega) (ih (10 * n + d))

lemma leading_eq {ds : List Nat} {n : Nat}
    (h : ds.foldl (fun n d => 10 * n + d) n < 0x10000000000000000) :
    leading n ds = (ds.foldl (fun n d => 10 * n + d) n, ds.length) := by
  induction ds generalizing n with
  | nil => rfl
  | cons d ds ih =>
    have hn := Nat.lt_of_le_of_lt (le_foldl_digits ds (10 * n + d)) h
    rw [leading, if_pos hn, ih h]
    rfl

lemma log2_lt_53 {n : Nat} (h : n < 0x20000000000000) : n.log2 < 53 := by
  by_cases hn : n = 0
  · subst hn
    decide
  · exact (Nat.log2_lt hn).mpr h

lemma roundTo53_eq {n : Nat} (h : n < 0x20000000000000) : roundTo53 n = n := by
  rw [roundTo53, if_pos (log2_lt_53 h)]

lemma productExceeds_zero {n : Nat} (h : n < 0x20000000000000) : productExceeds n 0 = false := by
  have hp : roundTo53 (Nat.pow 10 0) = 1 := rfl
  have hl := log2_lt_53 h
  rw [productExceeds, hp, roundTo53_eq h, Nat.mul_one, roundTo53_eq h]
  simp
  omega

lemma exceedsDouble_eq_false {whole : List Nat} (h : ofDigits whole < 0x20000000000000)
    (negative : Bool) : (⟨negative, whole, none, none⟩ : Number).exceedsDouble = false := by
  have hl : leading 0 whole = (ofDigits whole, whole.length) :=
    leading_eq (Nat.lt_trans h (by decide))
  have hn : leading (ofDigits whole) [] = (ofDigits whole, 0) := rfl
  simp [Number.exceedsDouble, hl, hn, productExceeds_zero h]

lemma toString_toList (n : Int) : (toString n).toList =
    (if n < 0 then ['-'] else []) ++ Nat.toDigits 10 n.natAbs := by
  cases n with
  | ofNat k =>
    have hs : toString (Int.ofNat k) = Nat.repr k := rfl
    rw [hs, Nat.repr_eq_ofList_toDigits, String.toList_ofList, if_neg (by simp)]
    rfl
  | negSucc k =>
    have hs : toString (Int.negSucc k) = "-" ++ Nat.repr (k + 1) := rfl
    rw [hs, String.toList_append, Nat.repr_eq_ofList_toDigits, if_pos (Int.negSucc_lt_zero k)]
    simp only [String.toList_ofList]
    rfl

def Number.ofInt (n : Int) : Number :=
  ⟨n < 0, (Nat.toDigits 10 n.natAbs).map digitValue, none, none⟩

lemma Number.int32?_ofInt {n : Int} (hlow : -0x80000000 ≤ n) (hhigh : n < 0x80000000) :
    (ofInt n).int32? = some n := by
  by_cases hn : n < 0
  · have hv : -(n.natAbs : Int) = n := by omega
    have hz : ((n.natAbs : Int) == 0) = false := beq_eq_false_iff_ne.mpr (by omega)
    simp only [int32?, ofInt, ofDigits_toDigits, Option.isSome_none, Bool.or_self,
      decide_eq_true hn, hz, hv, Bool.and_false, Bool.false_eq_true, if_false, if_true,
      if_pos (And.intro hlow hhigh)]
  · have hv : (n.natAbs : Int) = n := by omega
    simp only [int32?, ofInt, ofDigits_toDigits, Option.isSome_none, Bool.or_self,
      decide_eq_false hn, hv, Bool.false_and, Bool.false_eq_true, if_false,
      if_pos (And.intro hlow hhigh)]

theorem readDouble_toString {n : Int} (hlow : -0x80000000 ≤ n) (hhigh : n < 0x80000000)
    {t : List Char} (ht : Stops t) :
    readDouble ((toString n).toList ++ t) = .ok (.ofInt n, t) := by
  have hsign : (if n < 0 then ['-'] else []) ∈ [[], ['-']] := by split <;> simp
  have hneg : decide ((if n < 0 then ['-'] else []) = ['-']) = decide (n < 0) := by
    by_cases h : n < 0 <;> simp [h]
  obtain ⟨f, e, hr, hf, he⟩ := readNumber_append hsign (digits_toDigits n.natAbs)
    (fun s => toDigits_zero_cons) .absent .absent ht
  rw [hf rfl, he rfl, hneg] at hr
  simp only [List.append_nil] at hr
  have hx : (Number.ofInt n).exceedsDouble = false :=
    exceedsDouble_eq_false (by rw [ofDigits_toDigits]; omega) _
  rw [Number.ofInt] at hx
  rw [readDouble, toString_toList, hr]
  simp [bind, Except.bind, hx, Number.ofInt]

end TopicSchema.Json
