import Mathlib.Data.List.Nodup
import Mathlib.Logic.Function.Conjugate
import TopicSchema.Json.Reader
import TopicSchema.Proofs.Json.Skipping

namespace TopicSchema.Json

structure Slot where
  key : String
  omissible : Prop
  writes : List Char → List Char → Prop

def null (s t : List Char) : Prop :=
  s = "null".toList ++ t

def textSlot (key : String) (value : Option String) : Slot :=
  ⟨key, value = none, fun s t =>
    (value = none ∧ null s t) ∨ ∃ x ∈ value, ∃ u, s = '"' :: u ∧ Spells true x.toList u t⟩

def integerSlot (key : String) (value : Option Int) : Slot :=
  ⟨key, value = none, fun s t =>
    (value = none ∧ null s t) ∨ ∃ n ∈ value, s = (toString n).toList ++ t ∧ Stops t⟩

def listSlot {α : Type} (key : String) (writes : List α → List Char → List Char → Prop)
    (items : List α) : Slot :=
  ⟨key, items = [], writes items⟩

inductive Members (keys : List String) : Bool → List Slot → List Char → List Char → Prop
  | close {first : Bool} {slots : List Slot} {s t : List Char} :
      (∀ x ∈ slots, x.omissible) → Blanks s ('\x7d' :: t) → Members keys first slots s t
  | known {first : Bool} {before after : List Slot} {x : Slot} {s t u v w y z : List Char} :
      Separates first s ('"' :: t) → Spells true x.key.toList t u → Blanks u (':' :: v) →
      Blanks v w → x.writes w y → Members keys false (before ++ after) y z →
      Members keys first (before ++ x :: after) s z
  | unknown {first : Bool} {slots : List Slot} {key s t u v w y z : List Char} :
      Separates first s ('"' :: t) → Spells true key t u → String.ofList key ∉ keys →
      Blanks u (':' :: v) → Blanks v w → Value w y → Members keys false slots y z →
      Members keys first slots s z

def Object (slots : List Slot) (s t : List Char) : Prop :=
  ∃ u, s = '\x7b' :: u ∧ Members (slots.map (·.key)) true slots u t

section

variable {α : Type}

inductive Items (item : α → List Char → List Char → Prop) :
    Bool → List α → List Char → List Char → Prop
  | close {first : Bool} {s t : List Char} : Blanks s (']' :: t) → Items item first [] s t
  | item {first : Bool} {a : α} {as : List α} {s t u v : List Char} :
      Separates first s t → item a t u → Items item false as u v →
      Items item first (a :: as) s v

def Listed (item : Nat → α → List Char → List Char → Prop) :
    Nat → List α → List Char → List Char → Prop
  | 0, _, _, _ => False
  | depth + 1, as, s, t => ∃ u, s = '[' :: u ∧ Items (item depth) true as u t

end

def Takes {β : Type} (reader : Reader β) (writes : List Char → List Char → Prop)
    (good : β → Prop) : Prop :=
  ∀ s t, writes s t → t.length < s.length ∧
    ∀ s', Blanks s' s → ∃ b, reader s' = .ok (b, t) ∧ good b

lemma readKey_closing {s t : List Char} (h : Blanks s ('\x7d' :: t)) (first : Bool) :
    readKey first s = .ok (none, t) := by
  rw [readKey, h.skipBlank_cons rfl]
  rfl

lemma readKey_key {first : Bool} {key s t u : List Char} (h : Separates first s ('"' :: t))
    (hk : Spells true key t u) : readKey first s = .ok (some (String.ofList key), u) := by
  cases h with
  | first hb =>
    rw [readKey, hb.skipBlank_cons rfl]
    simp [bind, Except.bind, hk.readString_eq]
  | comma hb hc =>
    rw [readKey, hb.skipBlank_cons rfl]
    simp [bind, Except.bind, hc.skipBlank_cons, isBlank, hk.readString_eq]

lemma readColon_eq {s t : List Char} (h : Blanks s (':' :: t)) : readColon s = .ok ((), t) := by
  rw [readColon, h.skipBlank_cons rfl]
  rfl

lemma readNext_closing {s t : List Char} (h : Blanks s (']' :: t)) (first : Bool) :
    readNext first s = .ok (false, ']' :: t) := by
  rw [readNext, h.skipBlank_cons rfl]
  rfl

lemma readNext_item {first : Bool} {s t : List Char} (h : Separates first s ('\x7b' :: t)) :
    readNext first s = .ok (true, '\x7b' :: t) := by
  cases h with
  | first hb =>
    rw [readNext, hb.skipBlank_cons rfl]
    rfl
  | comma hb hc =>
    rw [readNext, hb.skipBlank_cons rfl]
    simp [hc.skipBlank_cons, isBlank]

lemma null_eq {s t : List Char} (h : null s t) : s = 'n' :: (['u', 'l', 'l'] ++ t) :=
  h

lemma readText_takes (key : String) (number : Nat) (value : Option String) :
    Takes (readText number) (textSlot key value).writes (· = value.toList.map (.text number)) := by
  rintro s t (⟨rfl, hn⟩ | ⟨x, hx, u, rfl, hu⟩)
  · obtain rfl := null_eq hn
    refine ⟨by simp; omega, fun s' hb => ⟨[], ?_, rfl⟩⟩
    rw [readText, hb.skipBlank_cons rfl]
    simp only [readWord_append]
    rfl
  · obtain rfl := Option.mem_def.mp hx
    refine ⟨Nat.lt_succ_of_lt hu.length_lt, fun s' hb => ⟨[.text number x], ?_, rfl⟩⟩
    rw [readText, hb.skipBlank_cons rfl]
    simp only [hu.readString_eq, String.ofList_toList]
    rfl

lemma exists_toString_cons (n : Int) :
    ∃ c r, (toString n).toList = c :: r ∧ startsNumber c = true ∧ isBlank c = false ∧ c ≠ 'n' := by
  have hn : IsNumber (toString n).toList := by
    have hsign : (if n < 0 then ['-'] else []) ∈ [[], ['-']] := by split <;> simp
    have h := IsNumber.mk hsign (digits_toDigits n.natAbs) (fun s => toDigits_zero_cons)
      .absent .absent
    simpa only [toString_toList, List.append_nil] using h
  obtain ⟨c, r, hr, hw, hs, hc⟩ := hn.exists_cons
  simp only [List.mem_cons, not_or] at hc
  refine ⟨c, r, hr, hs, by simp [isBlank, hc], ?_⟩
  rintro rfl
  cases hw

lemma readInteger_takes (key : String) (number : Nat) {value : Option Int}
    (hv : ∀ n ∈ value, -0x80000000 ≤ n ∧ n < 0x80000000) :
    Takes (readInteger number) (integerSlot key value).writes
      (· = value.toList.map (.integer number)) := by
  rintro s t (⟨rfl, hn⟩ | ⟨n, hn, rfl, ht⟩)
  · obtain rfl := null_eq hn
    refine ⟨by simp; omega, fun s' hb => ⟨[], ?_, rfl⟩⟩
    rw [readInteger, hb.skipBlank_cons rfl]
    simp only [readWord_append]
    rfl
  · obtain rfl := Option.mem_def.mp hn
    obtain ⟨hlow, hhigh⟩ := hv n rfl
    obtain ⟨c, r, hr, hstart, hblank, hne⟩ := exists_toString_cons n
    have hd := readDouble_toString hlow hhigh ht
    rw [hr, List.cons_append] at hd
    rw [hr, List.cons_append]
    refine ⟨by simp only [List.length_cons, List.length_append]; omega,
      fun s' hb => ⟨[.integer number n], ?_, rfl⟩⟩
    rw [readInteger, hb.skipBlank_cons hblank]
    split
    · next he => exact absurd (List.cons.inj he).1 hne
    · next he =>
      cases he
      rw [if_pos hstart, hd]
      simp [bind, Except.bind, Number.int32?_ofInt hlow hhigh]
    · next he => cases he

section

variable {α β γ : Type} {item : α → List Char → List Char → Prop} {reader : Reader β}
variable {of : β → γ} {goal : α → γ}

lemma Items.readItems_eq {as : List α} {first : Bool} {s t bound : List Char}
    (h : Items item first as s t)
    (hopen : ∀ a s t, item a s t → ∃ r, s = '\x7b' :: r)
    (hread : ∀ a ∈ as, Takes reader (item a) (of · = goal a)) (hl : s.length ≤ bound.length) :
    t.length < s.length ∧
      ∃ bs, readItems reader bound first s = .ok (bs, t) ∧ bs.map of = as.map goal := by
  induction h generalizing bound with
  | @close first s t h =>
    have hlt : t.length < s.length := h.length_le
    obtain ⟨x, bound, rfl, _⟩ := exists_cons_of_length_le hlt hl
    refine ⟨hlt, [], ?_, rfl⟩
    rw [readItems, readNext_closing h]
    rfl
  | @item first a as s t u v hs ha _ ih =>
    obtain ⟨r, rfl⟩ := hopen a t u ha
    obtain ⟨hlt, htake⟩ := hread a List.mem_cons_self _ u ha
    obtain ⟨b, hb, hgood⟩ := htake _ .none
    have hu := Nat.lt_of_lt_of_le hlt hs.length_le
    obtain ⟨x, bound, rfl, hr⟩ := exists_cons_of_length_le hu hl
    obtain ⟨hv, bs, hbs, hmap⟩ := ih (fun a ha => hread a (List.mem_cons_of_mem _ ha)) hr
    refine ⟨Nat.lt_trans hv hu, b :: bs, ?_, by simp [hgood, hmap]⟩
    rw [readItems, readNext_item hs]
    simp [bind, Except.bind, hb, hbs]

end

lemma readRecords_takes {α γ : Type} {item : Nat → α → List Char → List Char → Prop}
    {type : RecordType} {of : List Entry → γ} {goal : α → γ} {depth : Nat} {as : List α}
    (hopen : ∀ depth a s t, item depth a s t → ∃ r, s = '\x7b' :: r)
    (hread : ∀ d < depth, ∀ a ∈ as, Takes (readRecord d type) (item d a) (of · = goal a)) :
    Takes (readRecords depth type) (Listed item depth as) (·.map of = as.map goal) := by
  cases depth with
  | zero => exact fun s t h => h.elim
  | succ depth =>
    rintro s t ⟨u, rfl, hu⟩
    obtain ⟨hlt, bs, hbs, hmap⟩ :=
      hu.readItems_eq (hopen depth) (hread depth (Nat.lt_succ_self depth)) (Nat.le_refl _)
    refine ⟨Nat.lt_succ_of_lt hlt, fun s' hb => ⟨bs, ?_, hmap⟩⟩
    rw [readRecords, readList, hb.skipBlank_cons rfl]
    exact hbs

section

variable {α : Type} {add : α → Entry → α} {type : RecordType}
variable {member : Member → Reader (List Entry)}

structure Serves (add : α → Entry → α) (type : RecordType) (member : Member → Reader (List Entry))
    (slot : Slot) (update : α → α) : Prop where
  read : ∃ m, type.member? slot.key = some m ∧
    Takes (member m) slot.writes fun es => ∀ a, es.foldl add a = update a
  omitted : slot.omissible → ∀ a, update a = a

lemma commute_iff {f g : α → α} : Function.Commute f g ↔ ∀ a, f (g a) = g (f a) :=
  Iff.rfl

def updateAll (updates : List (α → α)) (a : α) : α :=
  updates.foldl (fun a f => f a) a

lemma updateAll_of_commute {f : α → α} {before after : List (α → α)}
    (h : ∀ g ∈ before, Function.Commute g f) (a : α) :
    updateAll (before ++ f :: after) a = updateAll (before ++ after) (f a) := by
  induction before generalizing a with
  | nil => rfl
  | cons g before ih =>
    have hg : g (f a) = f (g a) := h g List.mem_cons_self a
    have hr := ih (fun k hk => h k (List.mem_cons_of_mem _ hk)) (g a)
    rw [← hg] at hr
    exact hr

lemma updateAll_of_omitted {rows : List (Slot × (α → α))}
    (h : ∀ r ∈ rows, Serves add type member r.1 r.2) (ho : ∀ x ∈ rows.map Prod.fst, x.omissible)
    (a : α) : updateAll (rows.map Prod.snd) a = a := by
  induction rows with
  | nil => rfl
  | cons r rows ih =>
    rw [List.map_cons, List.forall_mem_cons] at ho
    have hr := (h r List.mem_cons_self).omitted ho.1 a
    have hrest := ih (fun q hq => h q (List.mem_cons_of_mem _ hq)) ho.2
    rw [List.map_cons, updateAll, List.foldl_cons, hr]
    exact hrest

lemma Members.readObject_eq {keys : List String} {slots : List Slot} {first : Bool}
    {s t bound : List Char} (h : Members keys first slots s t) {rows : List (Slot × (α → α))}
    (hrows : rows.map Prod.fst = slots)
    (hserves : ∀ r ∈ rows, Serves add type member r.1 r.2)
    (hcommute : rows.Pairwise fun r q => Function.Commute r.2 q.2)
    (hkeys : ∀ k ∉ keys, type.member? k = none)
    (seen : List String) (hseen : ∀ r ∈ rows, r.1.key ∉ seen)
    (hnodup : (rows.map (·.1.key)).Nodup) (hl : s.length ≤ bound.length) :
    t.length < s.length ∧ ∃ es, readObject member type bound first seen s = .ok (es, t) ∧
      ∀ a, es.foldl add a = updateAll (rows.map Prod.snd) a := by
  induction h generalizing rows seen bound with
  | close ho hb =>
    obtain ⟨x, bound, rfl, _⟩ := exists_cons_of_length_le hb.length_le hl
    subst hrows
    refine ⟨hb.length_le, [], ?_, fun a => (updateAll_of_omitted hserves ho a).symm⟩
    rw [readObject, readKey_closing hb]
    rfl
  | @known first before after x s t u v w y z hs hk hc hb hx _ ih =>
    obtain ⟨front, back, rfl, hfront, hback⟩ := List.map_eq_append_iff.mp hrows
    obtain ⟨r, rest, rfl, rfl, hrest⟩ := List.map_eq_cons_iff.mp hback
    have hsub : (front ++ rest).Sublist (front ++ r :: rest) :=
      (List.sublist_cons_self r rest).append_left front
    have hmem : r ∈ front ++ r :: rest := by simp
    obtain ⟨⟨m, hm, htakes⟩, _⟩ := hserves r hmem
    obtain ⟨hlt, htake⟩ := htakes w y hx
    obtain ⟨es, hes, hupdate⟩ := htake v hb
    have hy : y.length < s.length := by
      have := hs.length_le
      have := hk.length_lt
      have := hc.length_le
      have := hb.length_le
      simp only [List.length_cons] at *
      omega
    obtain ⟨x, bound, rfl, hr⟩ := exists_cons_of_length_le hy hl
    rw [List.map_append, List.map_cons, List.nodup_middle, List.nodup_cons,
      ← List.map_append] at hnodup
    have hseen' : ∀ q ∈ front ++ rest, q.1.key ∉ r.1.key :: seen := by
      intro q hq hmem
      rcases List.mem_cons.mp hmem with he | hmem
      · exact hnodup.1 (List.mem_map.mpr ⟨q, hq, he⟩)
      · exact hseen q (hsub.subset hq) hmem
    obtain ⟨hz, others, hothers, hmore⟩ := ih (by simp [hfront, hrest])
      (fun q hq => hserves q (hsub.subset hq)) (hcommute.sublist hsub) _ hseen' hnodup.2 hr
    refine ⟨Nat.lt_trans hz hy, es ++ others, ?_, fun a => ?_⟩
    · rw [readObject, readKey_key hs hk]
      simp [bind, Except.bind, hm, hseen r hmem, readColon_eq hc, hes, hothers]
    · have hfirst : ∀ g ∈ front.map Prod.snd, Function.Commute g r.2 := by
        intro g hg
        obtain ⟨q, hq, rfl⟩ := List.mem_map.mp hg
        exact (List.pairwise_append.mp hcommute).2.2 q hq r List.mem_cons_self
      rw [List.foldl_append, hupdate, hmore, List.map_append, List.map_append, List.map_cons,
        updateAll_of_commute hfirst]
  | @unknown first slots key s t u v w y z hs hk hkey hc hb hv _ ih =>
    have hy : y.length < s.length := by
      have := hs.length_le
      have := hk.length_lt
      have := hc.length_le
      have := hb.length_le
      have := hv.length_lt
      simp only [List.length_cons] at *
      omega
    obtain ⟨x, bound, rfl, hr⟩ := exists_cons_of_length_le hy hl
    obtain ⟨hz, es, hes, hupdate⟩ := ih hrows hserves hcommute seen hseen hnodup hr
    refine ⟨Nat.lt_trans hz hy, es, ?_, hupdate⟩
    rw [readObject, readKey_key hs hk]
    simp [bind, Except.bind, hkeys _ hkey, readColon_eq hc, hv.skipValue_eq hb, hes]

lemma RecordType.nodup_keys (type : RecordType) : (type.members.map (·.key)).Nodup := by
  cases type <;> decide

lemma RecordType.member?_eq_none {type : RecordType} {key : String}
    (h : key ∉ type.members.map (·.key)) : type.member? key = none := by
  refine List.find?_eq_none.mpr fun m hm => ?_
  simpa using fun he => h (List.mem_map.mpr ⟨m, hm, he⟩)

theorem readRecord_takes {depth : Nat} {rows : List (Slot × (α → α))}
    (hserves : ∀ r ∈ rows, Serves add type (readMember (readRecords depth)) r.1 r.2)
    (hcommute : rows.Pairwise fun r q => Function.Commute r.2 q.2)
    (hkeys : rows.map (·.1.key) = type.members.map (·.key)) :
    Takes (readRecord (depth + 1) type) (Object (rows.map Prod.fst))
      fun es => ∀ a, es.foldl add a = updateAll (rows.map Prod.snd) a := by
  rintro s t ⟨u, rfl, hu⟩
  have hunknown : ∀ k ∉ (rows.map Prod.fst).map (·.key), type.member? k = none := by
    intro k hk
    rw [List.map_map] at hk
    refine RecordType.member?_eq_none ?_
    rwa [← hkeys]
  obtain ⟨hlt, es, hes, hupdate⟩ := hu.readObject_eq rfl hserves hcommute hunknown []
    (fun _ _ => List.not_mem_nil) (hkeys ▸ type.nodup_keys) (Nat.le_refl _)
  refine ⟨Nat.lt_succ_of_lt hlt, fun s' hb => ⟨es, ?_, hupdate⟩⟩
  rw [readRecord, readFields, hb.skipBlank_cons rfl]
  exact hes

lemma Takes.mono {β : Type} {reader : Reader β} {writes : List Char → List Char → Prop}
    {good good' : β → Prop} (h : Takes reader writes good) (hg : ∀ b, good b → good' b) :
    Takes reader writes good' := by
  intro s t hs
  obtain ⟨hlt, hread⟩ := h s t hs
  refine ⟨hlt, fun s' hb => ?_⟩
  obtain ⟨b, hr, hgood⟩ := hread s' hb
  exact ⟨b, hr, hg b hgood⟩

variable {key : String} {number : Nat} {update : α → α}
variable {records : RecordType → Reader (List (List Entry))}

lemma serves_text {value : Option String}
    (hm : type.member? key = some ⟨key, number, .text⟩)
    (hu : ∀ a, (value.toList.map (.text number)).foldl add a = update a) :
    Serves add type (readMember records) (textSlot key value) update where
  read := ⟨_, hm, (readText_takes key number value).mono fun es he a => he ▸ hu a⟩
  omitted h a := by
    obtain rfl : value = none := h
    exact (hu a).symm

lemma serves_integer {value : Option Int}
    (hv : ∀ n ∈ value, -0x80000000 ≤ n ∧ n < 0x80000000)
    (hm : type.member? key = some ⟨key, number, .integer⟩)
    (hu : ∀ a, (value.toList.map (.integer number)).foldl add a = update a) :
    Serves add type (readMember records) (integerSlot key value) update where
  read := ⟨_, hm, (readInteger_takes key number hv).mono fun es he a => he ▸ hu a⟩
  omitted h a := by
    obtain rfl : value = none := h
    exact (hu a).symm

lemma serves_list {β γ : Type} {inner : RecordType} {items : List β}
    {writes : List β → List Char → List Char → Prop} {of : List Entry → γ} {goal : β → γ}
    {push : α → List γ → α} (hm : type.member? key = some ⟨key, number, .records inner⟩)
    (htakes : Takes (records inner) (writes items) (·.map of = items.map goal))
    (hadd : ∀ ess : List (List Entry), ∀ a,
      (ess.map (.record number)).foldl add a = push a (ess.map of)) :
    Serves add type (readMember records) (listSlot key writes items)
      (push · (items.map goal)) where
  read := by
    refine ⟨_, hm, fun s t hs => ?_⟩
    obtain ⟨hlt, hread⟩ := htakes s t hs
    refine ⟨hlt, fun s' hb => ?_⟩
    obtain ⟨ess, hess, hgood⟩ := hread s' hb
    refine ⟨ess.map (.record number), ?_, fun a => by rw [hadd, hgood]⟩
    simp [readMember, bind, Except.bind, hess]
  omitted h a := by
    obtain rfl : items = [] := h
    exact (hadd [] a).symm

lemma foldl_records {γ : Type} {of : List Entry → γ} {push : α → List γ → α}
    (hnil : ∀ a, push a [] = a) (happend : ∀ a xs ys, push (push a xs) ys = push a (xs ++ ys))
    (hadd : ∀ a es, add a (.record number es) = push a [of es]) (ess : List (List Entry)) (a : α) :
    (ess.map (.record number)).foldl add a = push a (ess.map of) := by
  induction ess generalizing a with
  | nil => exact (hnil a).symm
  | cons es ess ih =>
    rw [List.map_cons, List.foldl_cons, ih, hadd, happend]
    rfl

end

end TopicSchema.Json
