import Mathlib.Data.List.TakeWhile
import TopicSchema.Options.Parameter
import TopicSchema.Proofs.Pieces

namespace TopicSchema

namespace Text

def Blank (s : List Char) : Prop :=
  ∀ c ∈ s, isBlank c = true

structure Trimmed (s : List Char) : Prop where
  first : ∀ c, s.head? = some c → isBlank c = false
  last : ∀ c, s.getLast? = some c → isBlank c = false

variable {a b s t : List Char}

lemma Blank.not_mem {c : Char} (h : Blank s) (hc : isBlank c = false) : c ∉ s := by
  intro hm
  rw [h c hm] at hc
  cases hc

lemma Blank.reverse (h : Blank s) : Blank s.reverse :=
  fun c hc => h c (List.mem_reverse.mp hc)

lemma blank_takeWhile (s : List Char) : Blank (s.takeWhile isBlank) :=
  fun _ hc => List.all_eq_true.mp List.all_takeWhile _ hc

lemma dropWhile_blank (h : Blank s) : s.dropWhile isBlank = [] :=
  List.dropWhile_eq_nil_iff.mpr h

lemma dropWhile_of_head (h : ∀ c, s.head? = some c → isBlank c = false) :
    s.dropWhile isBlank = s := by
  cases s with
  | nil => rfl
  | cons c s => exact List.dropWhile_cons_of_neg (by simp [h c rfl])

lemma head_dropWhile {c : Char} (h : (s.dropWhile isBlank).head? = some c) :
    isBlank c = false := by
  have hd := List.head?_dropWhile_not isBlank s
  rw [h] at hd
  exact hd

lemma dropWhile_append_cons {c : Char} (hc : isBlank c = false) (s t : List Char) :
    (s ++ c :: t).dropWhile isBlank = s.dropWhile isBlank ++ c :: t := by
  rw [List.dropWhile_append]
  split
  · next h =>
    rw [List.isEmpty_iff.mp h, List.dropWhile_cons_of_neg (by simp [hc]), List.nil_append]
  · rfl

lemma trim_front (ha : Blank a) (s : List Char) : trim (a ++ s) = trim s := by
  rw [trim, List.dropWhile_append_of_pos ha, ← trim]

lemma trim_back (hb : Blank b) (s : List Char) : trim (s ++ b) = trim s := by
  rw [trim, trim, List.dropWhile_append]
  split
  · next h => rw [List.isEmpty_iff.mp h, dropWhile_blank hb]
  · rw [List.reverse_append, List.dropWhile_append_of_pos hb.reverse]

lemma trim_around (ha : Blank a) (hb : Blank b) (s : List Char) : trim (a ++ s ++ b) = trim s := by
  rw [trim_back hb, trim_front ha]

lemma Trimmed.trim_eq (h : Trimmed s) : trim s = s := by
  have hr : ∀ c, s.reverse.head? = some c → isBlank c = false := by
    simpa using h.last
  rw [trim, dropWhile_of_head h.first, dropWhile_of_head hr, List.reverse_reverse]

lemma exists_blanks (s : List Char) :
    ∃ a b, Blank a ∧ Blank b ∧ Trimmed (trim s) ∧ s = a ++ trim s ++ b := by
  let front := s.dropWhile isBlank
  have hs : s = s.takeWhile isBlank ++ front := List.takeWhile_append_dropWhile.symm
  have hf : front = trim s ++ (front.reverse.takeWhile isBlank).reverse := by
    have h := congrArg List.reverse
      (List.takeWhile_append_dropWhile (p := isBlank) (l := front.reverse))
    rw [List.reverse_append, List.reverse_reverse] at h
    exact h.symm
  refine ⟨s.takeWhile isBlank, (front.reverse.takeWhile isBlank).reverse, blank_takeWhile s,
    (blank_takeWhile front.reverse).reverse, ⟨fun c hc => ?_, fun c hc => ?_⟩, ?_⟩
  · have hh : front.head? = some c := by
      rw [hf, List.head?_append, hc]
      rfl
    exact head_dropWhile hh
  · rw [trim, List.getLast?_reverse] at hc
    exact head_dropWhile hc
  · rw [List.append_assoc, ← hf, ← hs]

lemma trim_append_cons {c : Char} (hc : isBlank c = false) (s t : List Char) :
    trim (s ++ c :: t) = s.dropWhile isBlank ++ c :: (t.reverse.dropWhile isBlank).reverse := by
  have hr : (s.dropWhile isBlank ++ c :: t).reverse =
      t.reverse ++ c :: (s.dropWhile isBlank).reverse := by simp
  rw [trim, dropWhile_append_cons hc, hr, dropWhile_append_cons hc]
  simp

lemma trim_dropWhile (s : List Char) : trim (s.dropWhile isBlank) = trim s := by
  have h := trim_front (blank_takeWhile s) (s.dropWhile isBlank)
  rw [List.takeWhile_append_dropWhile] at h
  exact h.symm

lemma trim_reverse_dropWhile (s : List Char) :
    trim (s.reverse.dropWhile isBlank).reverse = trim s := by
  have h := trim_back (blank_takeWhile s.reverse).reverse (s.reverse.dropWhile isBlank).reverse
  rw [← List.reverse_append, List.takeWhile_append_dropWhile, List.reverse_reverse] at h
  exact h.symm

lemma mem_of_mem_trim {c : Char} (h : c ∈ trim s) : c ∈ s := by
  rw [trim, List.mem_reverse] at h
  have h := (List.dropWhile_sublist _).subset h
  exact (List.dropWhile_sublist _).subset (List.mem_reverse.mp h)

end Text

namespace Options

open Text

inductive Assigns : List Char → String × String → Prop
  | mk {a b c d key value : List Char} : Blank a → Blank b → Blank c → Blank d → '=' ∉ key →
      Trimmed key → Trimmed value →
      Assigns (a ++ key ++ b ++ '=' :: (c ++ value ++ d)) (String.ofList key, String.ofList value)

inductive Reads : List (List Char) → List (String × String) → Prop
  | nil : Reads [] []
  | bare {item : List Char} {items : List (List Char)} {as : List (String × String)} :
      '=' ∉ item → Reads items as → Reads (item :: items) as
  | assign {item : List Char} {x : String × String} {items : List (List Char)}
      {as : List (String × String)} :
      Assigns item x → Reads items as → Reads (item :: items) (x :: as)

def Says (parameter : String) (as : List (String × String)) : Prop :=
  ∃ items, Splits ',' parameter.toList items ∧ Reads items as

def assignment? (item : List Char) : Option (String × String) :=
  (cutFirst '=' (trim item)).map fun (key, value) =>
    (String.ofList (trim key), String.ofList (trim value))

variable {item key value : List Char} {items : List (List Char)} {x : String × String}
variable {as : List (String × String)} {p : String}

lemma assignments_eq (p : String) :
    assignments p = (pieces ',' p.toList).filterMap assignment? :=
  rfl

lemma assignment?_bare (h : '=' ∉ item) : assignment? item = none := by
  rw [assignment?, cutFirst_of_not_mem fun hm => h (mem_of_mem_trim hm)]
  rfl

lemma assignment?_equals (h : '=' ∉ key) (value : List Char) :
    assignment? (key ++ '=' :: value) =
      some (String.ofList (trim key), String.ofList (trim value)) := by
  have hk : '=' ∉ key.dropWhile isBlank := fun hm => h ((List.dropWhile_sublist _).subset hm)
  rw [assignment?, trim_append_cons (by decide), cutFirst_append hk, Option.map_some]
  dsimp only
  rw [trim_dropWhile, trim_reverse_dropWhile]

lemma equals_not_mem {a b : List Char} (ha : Blank a) (hb : Blank b) (h : '=' ∉ key) :
    '=' ∉ a ++ key ++ b := by
  have he : isBlank '=' = false := by decide
  simp only [List.mem_append, not_or]
  exact ⟨⟨ha.not_mem he, h⟩, hb.not_mem he⟩

lemma exists_equals (h : '=' ∈ item) : ∃ key value, item = key ++ '=' :: value ∧ '=' ∉ key :=
  List.eq_append_cons_of_mem h

lemma assigns_iff : Assigns item x ↔ assignment? item = some x := by
  constructor
  · intro h
    obtain @⟨a, b, c, d, key, value, ha, hb, hc, hd, hk, htk, htv⟩ := h
    rw [assignment?_equals (equals_not_mem ha hb hk), trim_around ha hb, trim_around hc hd,
      htk.trim_eq, htv.trim_eq]
  · intro h
    by_cases hm : '=' ∈ item
    · obtain ⟨key, value, rfl, hk⟩ := exists_equals hm
      rw [assignment?_equals hk] at h
      cases h
      obtain ⟨a, b, ha, hb, ht, hs⟩ := exists_blanks key
      obtain ⟨c, d, hc, hd, ht', hs'⟩ := exists_blanks value
      have hi := Assigns.mk ha hb hc hd (fun hm => hk (mem_of_mem_trim hm)) ht ht'
      rwa [← hs, ← hs'] at hi
    · rw [assignment?_bare hm] at h
      cases h

lemma reads_iff : Reads items as ↔ items.filterMap assignment? = as := by
  constructor
  · intro h
    induction h with
    | nil => rfl
    | bare hb _ ih => rw [List.filterMap_cons_none (assignment?_bare hb), ih]
    | assign ha _ ih => rw [List.filterMap_cons_some (assigns_iff.mp ha), ih]
  · rintro rfl
    induction items with
    | nil => exact .nil
    | cons item items ih =>
      by_cases hm : '=' ∈ item
      · obtain ⟨key, value, rfl, hk⟩ := exists_equals hm
        have ha := assignment?_equals hk value
        rw [List.filterMap_cons_some ha]
        exact .assign (assigns_iff.mpr ha) ih
      · rw [List.filterMap_cons_none (assignment?_bare hm)]
        exact .bare hm ih

lemma says_iff : Says p as ↔ as = assignments p := by
  constructor
  · rintro ⟨items, hs, hr⟩
    rw [assignments_eq, ← splits_iff.mp hs, reads_iff.mp hr]
  · rintro rfl
    exact ⟨_, splits_pieces ',' p.toList, reads_iff.mpr rfl⟩

end Options

end TopicSchema
