import Mathlib.Tactic.SplitIfs
import TopicSchema.Proofs.Except
import TopicSchema.Proofs.Options.Assignments

namespace TopicSchema

lemma Dialect.text_inj {d d' : Dialect} (h : d.text = d'.text) : d = d' := by
  cases d <;> cases d' <;> first | rfl | exact absurd h (by decide)

lemma Encoding.text_inj {e e' : Encoding} (h : e.text = e'.text) : e = e' := by
  cases e <;> cases e' <;> first | rfl | exact absurd h (by decide)

lemma Dialect.parse_of_ne {s : String} (h : ∀ d : Dialect, s ≠ d.text) :
    parse s = .error (.dialect s) := by
  have h₂ : s ≠ "proto2" := h proto2
  have h₃ : s ≠ "proto3" := h proto3
  rw [parse, if_neg h₂, if_neg h₃]

lemma Encoding.parse_of_ne {s : String} (h : ∀ e : Encoding, s ≠ e.text) :
    parse s = .error (.encoding s) := by
  have hb : s ≠ "binary" := h binary
  have hj : s ≠ "json" := h json
  rw [parse, if_neg hb, if_neg hj]

namespace Options

open Text

inductive Refuses : String × String → OptionError → Prop
  | dialect {key value : String} : key = Dialect.key → (∀ d : Dialect, value ≠ d.text) →
      Refuses (key, value) (.dialect value)
  | encoding {key value : String} : key = Encoding.key → (∀ e : Encoding, value ≠ e.text) →
      Refuses (key, value) (.encoding value)

def Accepts (x : String × String) : Prop :=
  ∀ e, ¬ Refuses x e

inductive FirstRefused : List (String × String) → OptionError → Prop
  | here {x : String × String} {as : List (String × String)} {e : OptionError} :
      Refuses x e → FirstRefused (x :: as) e
  | later {x : String × String} {as : List (String × String)} {e : OptionError} :
      Accepts x → FirstRefused as e → FirstRefused (x :: as) e

structure Settles (options : Options) (as : List (String × String)) (o : Options) : Prop where
  accepts : ∀ x ∈ as, Accepts x
  dialect : o.dialect.text = (as.reverse.lookup Dialect.key).getD options.dialect.text
  encoding : o.encoding.text = (as.reverse.lookup Encoding.key).getD options.encoding.text

variable {options o a b : Options} {as bs : List (String × String)} {x : String × String}
variable {key value p q : String} {e e' : OptionError} {item : List Char}
variable {items items' : List (List Char)}

lemma accepts_of_dialect (d : Dialect) : Accepts (Dialect.key, d.text) := by
  intro e h
  cases h with
  | dialect _ hv => exact hv d rfl
  | encoding hk _ => exact absurd hk (by decide)

lemma accepts_of_encoding (n : Encoding) : Accepts (Encoding.key, n.text) := by
  intro e h
  cases h with
  | dialect hk _ => exact absurd hk (by decide)
  | encoding _ hv => exact hv n rfl

lemma accepts_of_foreign (hd : key ≠ Dialect.key) (he : key ≠ Encoding.key) (value : String) :
    Accepts (key, value) := by
  intro e h
  cases h with
  | dialect hk _ => exact hd hk
  | encoding hk _ => exact he hk

lemma Refuses.unique (h : Refuses x e) (h' : Refuses x e') : e = e' := by
  cases h with
  | dialect hk _ =>
    cases h' with
    | dialect _ _ => rfl
    | encoding hk' _ => exact absurd (hk.symm.trans hk') (by decide)
  | encoding hk _ =>
    cases h' with
    | dialect hk' _ => exact absurd (hk.symm.trans hk') (by decide)
    | encoding _ _ => rfl

lemma FirstRefused.not_accepts (h : FirstRefused as e) : ¬ ∀ x ∈ as, Accepts x := by
  intro ha
  induction h with
  | here hr => exact ha _ List.mem_cons_self _ hr
  | later _ _ ih => exact ih fun x hx => ha x (List.mem_cons_of_mem _ hx)

lemma FirstRefused.unique (h : FirstRefused as e) (h' : FirstRefused as e') : e = e' := by
  induction h with
  | here hr =>
    cases h' with
    | here hr' => exact hr.unique hr'
    | later ha _ => exact absurd hr (ha _)
  | later ha _ ih =>
    cases h' with
    | here hr' => exact absurd hr' (ha _)
    | later _ h' => exact ih h'

lemma Settles.nil (options : Options) : Settles options [] options :=
  ⟨List.forall_mem_nil _, rfl, rfl⟩

lemma Settles.append (h : Settles options as a) (h' : Settles a bs o) :
    Settles options (as ++ bs) o := by
  refine ⟨fun x hx => ?_, ?_, ?_⟩
  · rcases List.mem_append.mp hx with hx | hx
    · exact h.accepts x hx
    · exact h'.accepts x hx
  · rw [h'.dialect, h.dialect, List.reverse_append, List.lookup_append, Option.getD_or]
  · rw [h'.encoding, h.encoding, List.reverse_append, List.lookup_append, Option.getD_or]

lemma Settles.unique {o' : Options} (h : Settles options as o) (h' : Settles options as o') :
    o = o' := by
  obtain ⟨d, n⟩ := o
  obtain ⟨d', n'⟩ := o'
  obtain rfl : d = d' := Dialect.text_inj (h.dialect.trans h'.dialect.symm)
  obtain rfl : n = n' := Encoding.text_inj (h.encoding.trans h'.encoding.symm)
  rfl

lemma settles_of_assign (h : options.assign key value = .ok o) :
    Settles options [(key, value)] o := by
  rw [assign] at h
  split_ifs at h with hd he
  · subst hd
    cases hp : Dialect.parse value with
    | error e =>
      rw [hp] at h
      cases h
    | ok d =>
      rw [hp] at h
      cases h
      obtain rfl := Dialect.eq_text_of_parse hp
      exact ⟨List.forall_mem_singleton.mpr (accepts_of_dialect d), rfl, rfl⟩
  · subst he
    cases hp : Encoding.parse value with
    | error e =>
      rw [hp] at h
      cases h
    | ok n =>
      rw [hp] at h
      cases h
      obtain rfl := Encoding.eq_text_of_parse hp
      exact ⟨List.forall_mem_singleton.mpr (accepts_of_encoding n), rfl, rfl⟩
  · cases h
    have hd' : (Dialect.key == key) = false := by simpa using Ne.symm hd
    have he' : (Encoding.key == key) = false := by simpa using Ne.symm he
    refine ⟨List.forall_mem_singleton.mpr (accepts_of_foreign hd he value), ?_, ?_⟩
    · rw [List.reverse_singleton, List.lookup_cons, hd']
      rfl
    · rw [List.reverse_singleton, List.lookup_cons, he']
      rfl

lemma refuses_of_assign (h : options.assign key value = .error e) : Refuses (key, value) e := by
  rw [assign] at h
  split_ifs at h with hd he
  · have hn : ∀ d : Dialect, value ≠ d.text := by
      rintro d rfl
      rw [Dialect.parse_text] at h
      cases h
    rw [Dialect.parse_of_ne hn] at h
    cases h
    exact .dialect hd hn
  · have hn : ∀ n : Encoding, value ≠ n.text := by
      rintro n rfl
      rw [Encoding.parse_text] at h
      cases h
    rw [Encoding.parse_of_ne hn] at h
    cases h
    exact .encoding he hn

lemma assignAll_cons (options : Options) (key value : String) (as : List (String × String)) :
    options.assignAll ((key, value) :: as) =
      options.assign key value >>= fun options => options.assignAll as := by
  rw [assignAll]
  cases options.assign key value <;> rfl

lemma assignAll_append (options : Options) (as bs : List (String × String)) :
    options.assignAll (as ++ bs) =
      options.assignAll as >>= fun options => options.assignAll bs := by
  induction as generalizing options with
  | nil => rfl
  | cons x as ih =>
    obtain ⟨key, value⟩ := x
    rw [List.cons_append, assignAll_cons, assignAll_cons]
    cases options.assign key value with
    | error e => rfl
    | ok o => exact ih o

lemma settles_of_assignAll (h : options.assignAll as = .ok o) : Settles options as o := by
  induction as generalizing options with
  | nil =>
    cases h
    exact .nil _
  | cons x as ih =>
    obtain ⟨key, value⟩ := x
    rw [assignAll_cons] at h
    obtain ⟨a, ha, h⟩ := bind_eq_ok.mp h
    exact (settles_of_assign ha).append (ih h)

lemma firstRefused_of_assignAll (h : options.assignAll as = .error e) : FirstRefused as e := by
  induction as generalizing options with
  | nil => cases h
  | cons x as ih =>
    obtain ⟨key, value⟩ := x
    rw [assignAll_cons] at h
    rcases bind_eq_error.mp h with h | ⟨a, ha, h⟩
    · exact .here (refuses_of_assign h)
    · exact .later ((settles_of_assign ha).accepts _ List.mem_cons_self) (ih h)

lemma exists_settles (options : Options) (h : ∀ x ∈ as, Accepts x) :
    ∃ o, options.assignAll as = .ok o ∧ Settles options as o := by
  cases ha : options.assignAll as with
  | ok o => exact ⟨o, rfl, settles_of_assignAll ha⟩
  | error e => exact absurd h (firstRefused_of_assignAll ha).not_accepts

lemma assignAll_eq_ok : options.assignAll as = .ok o ↔ Settles options as o := by
  refine ⟨settles_of_assignAll, fun h => ?_⟩
  obtain ⟨o', ho, h'⟩ := exists_settles options h.accepts
  rw [ho, h.unique h']

lemma assignAll_eq_error : options.assignAll as = .error e ↔ FirstRefused as e := by
  refine ⟨firstRefused_of_assignAll, fun h => ?_⟩
  cases ha : options.assignAll as with
  | ok o => exact absurd (settles_of_assignAll ha).accepts h.not_accepts
  | error e' => rw [h.unique (firstRefused_of_assignAll ha)]

def Sets (p key : String) : Prop :=
  ∃ as value, Says p as ∧ (key, value) ∈ as

structure Overrides (q : String) (a b o : Options) : Prop where
  dialect : Sets q Dialect.key → o.dialect = b.dialect
  otherDialect : ¬ Sets q Dialect.key → o.dialect = a.dialect
  encoding : Sets q Encoding.key → o.encoding = b.encoding
  otherEncoding : ¬ Sets q Encoding.key → o.encoding = a.encoding

lemma sets_iff : Sets q key ↔ ((assignments q).reverse.lookup key).isSome := by
  have hs : Sets q key ↔ ∃ value, (key, value) ∈ assignments q := by
    constructor
    · rintro ⟨as, value, hs, hm⟩
      obtain rfl := says_iff.mp hs
      exact ⟨value, hm⟩
    · rintro ⟨value, hm⟩
      exact ⟨_, value, says_iff.mpr rfl, hm⟩
  rw [hs, Option.isSome_iff_ne_none, ne_eq, List.lookup_eq_none_iff]
  simp

lemma overrides_of_settles (hb : Settles {} (assignments q) b)
    (ho : Settles a (assignments q) o) : Overrides q a b o := by
  refine ⟨fun h => ?_, fun h => ?_, fun h => ?_, fun h => ?_⟩ <;> rw [sets_iff] at h
  · obtain ⟨v, hv⟩ := Option.isSome_iff_exists.mp h
    apply Dialect.text_inj
    rw [ho.dialect, hb.dialect, hv, Option.getD_some, Option.getD_some]
  · apply Dialect.text_inj
    rw [ho.dialect, Option.not_isSome_iff_eq_none.mp h, Option.getD_none]
  · obtain ⟨v, hv⟩ := Option.isSome_iff_exists.mp h
    apply Encoding.text_inj
    rw [ho.encoding, hb.encoding, hv, Option.getD_some, Option.getD_some]
  · apply Encoding.text_inj
    rw [ho.encoding, Option.not_isSome_iff_eq_none.mp h, Option.getD_none]

lemma assignments_append (p q : String) :
    assignments (p ++ "," ++ q) = assignments p ++ assignments q := by
  have hl : (p ++ "," ++ q).toList = p.toList ++ ',' :: q.toList := by simp
  rw [assignments_eq, hl, pieces_append, List.filterMap_append]
  rfl

lemma ofParameter_append (p q : String) :
    ofParameter (p ++ "," ++ q) =
      ofParameter p >>= fun options => options.assignAll (assignments q) := by
  rw [ofParameter, assignments_append, assignAll_append, ← ofParameter]

lemma exists_overrides (hp : ofParameter p = .ok a) (hq : ofParameter q = .ok b) :
    ∃ o, ofParameter (p ++ "," ++ q) = .ok o ∧ Overrides q a b o := by
  have hb : Settles {} (assignments q) b := settles_of_assignAll hq
  obtain ⟨o, ho, hs⟩ := exists_settles a hb.accepts
  refine ⟨o, ?_, overrides_of_settles hb hs⟩
  rw [ofParameter_append, hp]
  exact ho

lemma ofParameter_append_error (hp : ofParameter p = .ok a) (hq : ofParameter q = .error e) :
    ofParameter (p ++ "," ++ q) = .error e := by
  rw [ofParameter_append, hp]
  exact assignAll_eq_error.mpr (firstRefused_of_assignAll hq)

inductive Idle : List Char → Prop
  | bare {item : List Char} : '=' ∉ item → Idle item
  | foreign {item : List Char} {key value : String} : Assigns item (key, value) →
      key ≠ Dialect.key → key ≠ Encoding.key → Idle item

/-- The second list is the first one with idle items inserted or left out, and with white space
inserted around items, keys and values. -/
inductive Loosened : List (List Char) → List (List Char) → Prop
  | nil : Loosened [] []
  | inserted {item : List Char} {items items' : List (List Char)} : Idle item →
      Loosened items items' → Loosened items (item :: items')
  | leftOut {item : List Char} {items items' : List (List Char)} : Idle item →
      Loosened items items' → Loosened (item :: items) items'
  | around {a b item : List Char} {items items' : List (List Char)} : Blank a → Blank b →
      Loosened items items' → Loosened (item :: items) ((a ++ item ++ b) :: items')
  | inside {a b c d key value : List Char} {items items' : List (List Char)} : Blank a → Blank b →
      Blank c → Blank d → '=' ∉ key → Loosened items items' →
      Loosened ((key ++ '=' :: value) :: items)
        ((a ++ key ++ b ++ '=' :: (c ++ value ++ d)) :: items')

lemma assignAll_idle (h : Idle item) (options : Options) (items : List (List Char)) :
    options.assignAll ((item :: items).filterMap assignment?) =
      options.assignAll (items.filterMap assignment?) := by
  cases h with
  | bare hb => rw [List.filterMap_cons_none (assignment?_bare hb)]
  | foreign ha hd he =>
    rw [List.filterMap_cons_some (assigns_iff.mp ha), assignAll_cons, assign, if_neg hd, if_neg he]
    rfl

lemma assignAll_item {item' : List Char} (h : assignment? item' = assignment? item)
    (ih : ∀ options : Options, options.assignAll (items'.filterMap assignment?) =
      options.assignAll (items.filterMap assignment?)) (options : Options) :
    options.assignAll ((item' :: items').filterMap assignment?) =
      options.assignAll ((item :: items).filterMap assignment?) := by
  cases hi : assignment? item with
  | none => rw [List.filterMap_cons_none hi, List.filterMap_cons_none (h.trans hi), ih]
  | some x =>
    obtain ⟨key, value⟩ := x
    rw [List.filterMap_cons_some hi, List.filterMap_cons_some (h.trans hi), assignAll_cons,
      assignAll_cons]
    simp only [ih]

lemma assignment?_around {a b : List Char} (ha : Blank a) (hb : Blank b) (item : List Char) :
    assignment? (a ++ item ++ b) = assignment? item := by
  rw [assignment?, assignment?, trim_around ha hb]

lemma assignment?_inside {a b c d key : List Char} (ha : Blank a) (hb : Blank b) (hc : Blank c)
    (hd : Blank d) (hk : '=' ∉ key) (value : List Char) :
    assignment? (a ++ key ++ b ++ '=' :: (c ++ value ++ d)) =
      assignment? (key ++ '=' :: value) := by
  rw [assignment?_equals (equals_not_mem ha hb hk), assignment?_equals hk, trim_around ha hb,
    trim_around hc hd]

lemma Loosened.assignAll (h : Loosened items items') (options : Options) :
    options.assignAll (items'.filterMap assignment?) =
      options.assignAll (items.filterMap assignment?) := by
  induction h generalizing options with
  | nil => rfl
  | inserted hi _ ih => rw [assignAll_idle hi, ih]
  | leftOut hi _ ih => rw [assignAll_idle hi, ih]
  | around ha hb _ ih => exact assignAll_item (assignment?_around ha hb _) ih options
  | inside ha hb hc hd hk _ ih =>
    exact assignAll_item (assignment?_inside ha hb hc hd hk _) ih options

theorem ofParameter_last_wins (p q : String) :
    ((∃ as, Says p as) ∧ ∀ as, Says p as →
      (∀ o, ofParameter p = .ok o ↔ Settles {} as o) ∧
      ∀ e, ofParameter p = .error e ↔ FirstRefused as e) ∧
    (∀ e, ofParameter p = .error e → ofParameter (p ++ "," ++ q) = .error e) ∧
    (∀ a e, ofParameter p = .ok a → ofParameter q = .error e →
      ofParameter (p ++ "," ++ q) = .error e) ∧
    (∀ a b, ofParameter p = .ok a → ofParameter q = .ok b →
      ∃ o, ofParameter (p ++ "," ++ q) = .ok o ∧ Overrides q a b o) ∧
    ∀ items items', Splits ',' p.toList items → Splits ',' q.toList items' →
      Loosened items items' → ofParameter q = ofParameter p := by
  refine ⟨⟨⟨_, says_iff.mpr rfl⟩, ?_⟩, fun e hp => ?_, fun a e => ofParameter_append_error,
    fun a b => exists_overrides, ?_⟩
  · intro as hs
    obtain rfl := says_iff.mp hs
    exact ⟨fun o => assignAll_eq_ok, fun e => assignAll_eq_error⟩
  · rw [ofParameter_append, hp]
    rfl
  · intro items items' hi hi' h
    rw [ofParameter, ofParameter, assignments_eq, assignments_eq, ← splits_iff.mp hi,
      ← splits_iff.mp hi', h.assignAll]

theorem ofParameter_last_wins_overridden :
    let p := "schema-syntax=proto3,message-encoding=json"
    let q := "paths=x, schema-syntax\u2003= proto2 ,verbose"
    ofParameter p = .ok ⟨.proto3, .json⟩ ∧ ofParameter q = .ok {} ∧
      (∃ o, ofParameter (p ++ "," ++ q) = .ok o ∧ Overrides q ⟨.proto3, .json⟩ {} o) ∧
      ofParameter q = ofParameter "schema-syntax=proto2" := by
  intro p q
  have hp : ofParameter p = .ok ⟨.proto3, .json⟩ := by decide
  have hq : ofParameter q = .ok {} := by decide
  have hs : Splits ',' "schema-syntax=proto2".toList ["schema-syntax=proto2".toList] :=
    splits_iff.mpr (by decide)
  have hs' : Splits ',' q.toList
      ["paths=x".toList, " schema-syntax\u2003= proto2 ".toList, "verbose".toList] :=
    splits_iff.mpr (by decide)
  have hf : Idle "paths=x".toList := by
    have ha : Assigns "paths=x".toList ("paths", "x") := assigns_iff.mpr (by decide)
    exact .foreign ha (by decide) (by decide)
  have hb : Idle "verbose".toList := .bare (by decide)
  have hw : Blank [' '] := List.forall_mem_singleton.mpr rfl
  have he : Blank ['\u2003'] := List.forall_mem_singleton.mpr rfl
  have hl : Loosened ["schema-syntax".toList ++ '=' :: "proto2".toList]
      ["paths=x".toList, [' '] ++ "schema-syntax".toList ++ ['\u2003'] ++
        '=' :: ([' '] ++ "proto2".toList ++ [' ']), "verbose".toList] :=
    .inserted hf (.inside hw he hw hw (by decide) (.inserted hb .nil))
  exact ⟨hp, hq, (ofParameter_last_wins p q).2.2.2.1 _ _ hp hq,
    (ofParameter_last_wins _ q).2.2.2.2 _ _ hs hs' hl⟩

end Options

end TopicSchema
