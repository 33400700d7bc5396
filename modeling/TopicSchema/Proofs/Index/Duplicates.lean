import TopicSchema.Proofs.Index.DocumentOrder
import TopicSchema.Proofs.Schema.Success
import TopicSchema.Proofs.TypeName

/-! Several definitions of one message. The index keeps the first of them, but what is nested in the
others is found as well, where the first has nothing of that name. -/

namespace TopicSchema

def Message.declared (m : Message) : TypeKind → List (String × Definition)
  | .message => m.messages.map fun n => (n.name, .message n)
  | .enumeration => m.enumerations.map fun e => (e.name, .enumeration e)

structure PlainlyNamed (files : List ProtoFile) : Prop where
  message : ∀ d ∈ definedMessages files, '.' ∉ d.2.name.toList
  enumeration : ∀ d ∈ definedEnumerations files, '.' ∉ d.2.name.toList
  scope : ∀ f ∈ files, ∀ d ∈ definedMessages files, d.1 ≠ f.scope

def definitionsOf (files : List ProtoFile) (s : String) : List (String × Message) :=
  (definedMessages files).filter (·.1 = s)

variable {s n : String}

lemma lookup_flatMap_congr {α β : Type} {f g : α → List (String × β)} {l : List α} {t u : String}
    (h : ∀ a ∈ l, (f a).lookup t = (g a).lookup u) :
    (l.flatMap f).lookup t = (l.flatMap g).lookup u := by
  induction l with
  | nil => rfl
  | cons a l ih =>
    rw [List.flatMap_cons, List.flatMap_cons, List.lookup_append, List.lookup_append,
      h a List.mem_cons_self, ih fun b hb => h b (List.mem_cons_of_mem a hb)]

namespace Message

structure Plain (scope : String) (m : Message) : Prop where
  message : ∀ d ∈ m.messagesIn scope, '.' ∉ d.2.name.toList
  enumeration : ∀ d ∈ m.enumerationsIn scope, '.' ∉ d.2.name.toList

variable {scope : String} {m k : Message}

lemma declared_names {kind : TypeKind} :
    n ∈ (m.declared kind).map Prod.fst ↔
      (kind = .message ∧ ∃ k ∈ m.messages, k.name = n) ∨
        kind = .enumeration ∧ ∃ e ∈ m.enumerations, e.name = n := by
  cases kind <;> simp [declared]

lemma Plain.name (h : m.Plain scope) : '.' ∉ m.name.toList :=
  h.message _ (m.self_mem_messagesIn scope)

lemma Plain.nested (h : m.Plain scope) (hk : k ∈ m.messages) :
    k.Plain (TypeName.qualify scope m.name) := by
  constructor
  · intro d hd
    apply h.message
    rw [messagesIn_eq]
    exact List.mem_cons_of_mem _ (List.mem_flatMap.mpr ⟨k, hk, hd⟩)
  · intro d hd
    apply h.enumeration
    rw [enumerationsIn_eq]
    exact List.mem_append_left _ (List.mem_flatMap.mpr ⟨k, hk, hd⟩)

lemma Plain.enumerations (h : m.Plain scope) : ∀ e ∈ m.enumerations, '.' ∉ e.name.toList := by
  intro e he
  refine h.enumeration (TypeName.qualify (TypeName.qualify scope m.name) e.name, e) ?_
  rw [enumerationsIn_eq]
  exact List.mem_append_right _ (List.mem_map.mpr ⟨e, he, rfl⟩)

lemma Plain.length_le_parent (h : m.Plain scope) {d : String × Message}
    (hd : d ∈ m.messagesIn scope) : scope.length ≤ (TypeName.parent d.1).length := by
  induction m using nested_induction generalizing scope with
  | h m ih =>
    rw [messagesIn_eq, List.mem_cons] at hd
    rcases hd with rfl | hd
    · exact Nat.le_of_eq (congrArg String.length (TypeName.parent_qualify h.name scope).symm)
    · obtain ⟨k, hk, hd⟩ := List.mem_flatMap.mp hd
      have hq := TypeName.length_lt_qualify scope m.name
      exact Nat.le_trans (Nat.le_of_lt hq) (ih k hk (h.nested hk) hd)

lemma Plain.length_lt_parent (h : m.Plain scope) {d : String × Enumeration}
    (hd : d ∈ m.enumerationsIn scope) : scope.length < (TypeName.parent d.1).length := by
  obtain ⟨t, e⟩ := d
  obtain ⟨c, hc, he⟩ := exists_message_of_mem_enumerationsIn hd
  obtain ⟨e, _, he⟩ := List.mem_map.mp he
  cases he
  rw [TypeName.parent_qualify (h.enumeration _ hd)]
  exact length_lt_of_mem_messagesIn hc

lemma lookup_eq_lookup_own {α : Type} {entries : String → Message → List (String × α)}
    {own : Message → List (String × α)}
    (hstep : ∀ scope m, scope ≠ s → Plain scope m →
      (entries scope m).lookup (TypeName.qualify s n) =
        if TypeName.qualify scope m.name = s then (own m).lookup n
        else (m.messages.flatMap (entries (TypeName.qualify scope m.name))).lookup
          (TypeName.qualify s n))
    (hs : scope ≠ s) (h : m.Plain scope) :
    (entries scope m).lookup (TypeName.qualify s n) =
      (((m.messagesIn scope).filter (·.1 = s)).flatMap (own ·.2)).lookup n := by
  induction m using nested_induction generalizing scope with
  | h m ih =>
    rw [hstep scope m hs h, messagesIn_eq]
    by_cases hq : TypeName.qualify scope m.name = s
    · have hd : (m.messages.flatMap (·.messagesIn s)).filter (·.1 = s) = [] := by
        refine List.filter_eq_nil_iff.mpr fun d hd he => ?_
        obtain ⟨k, _, hd⟩ := List.mem_flatMap.mp hd
        have hl := length_lt_of_mem_messagesIn hd
        rw [decide_eq_true_eq.mp he] at hl
        exact Nat.lt_irrefl _ hl
      rw [if_pos hq, hq, List.filter_cons_of_pos (by simp), hd, List.flatMap_singleton]
    · rw [if_neg hq, List.filter_cons_of_neg (by simpa using hq), List.filter_flatMap,
        List.flatMap_assoc]
      exact lookup_flatMap_congr fun k hk => ih k hk hq (h.nested hk)

end Message

variable {files : List ProtoFile}

lemma PlainlyNamed.plain (hp : PlainlyNamed files) {f : ProtoFile} (hf : f ∈ files) {m : Message}
    (hm : m ∈ f.messages) : m.Plain f.scope := by
  constructor
  · intro d hd
    exact hp.message d (mem_definedMessages.mpr ⟨f, hf, m, hm, hd⟩)
  · intro d hd
    refine hp.enumeration d (List.mem_flatMap.mpr ⟨f, hf, List.mem_append_left _ ?_⟩)
    rw [Message.enumerationsOf_eq]
    exact List.mem_flatMap.mpr ⟨m, hm, hd⟩

lemma PlainlyNamed.declared (hp : PlainlyNamed files) {m : Message}
    (hm : (s, m) ∈ definedMessages files) {kind : TypeKind}
    (hk : n ∈ (m.declared kind).map Prod.fst) : '.' ∉ n.toList := by
  rcases Message.declared_names.mp hk with ⟨_, k, hmem, rfl⟩ | ⟨_, e, hmem, rfl⟩
  · exact hp.message _ (nested_mem_definedMessages hm hmem)
  · exact hp.enumeration _ (nested_mem_definedEnumerations hm hmem)

lemma definitionsOf_eq (files : List ProtoFile) (s : String) :
    definitionsOf files s =
      files.flatMap fun f => f.messages.flatMap fun m =>
        (m.messagesIn f.scope).filter (·.1 = s) := by
  simp only [definitionsOf, definedMessages, Message.messagesOf_eq, List.filter_flatMap]

section

variable (hn : '.' ∉ n.toList)
include hn

lemma lookup_qualify_of_parent {α : Type} {l : List (String × α)}
    (h : ∀ d ∈ l, TypeName.parent d.1 ≠ s) : l.lookup (TypeName.qualify s n) = none := by
  refine lookup_eq_none_iff.mpr fun a ha => h _ ha ?_
  exact TypeName.parent_qualify hn s

lemma lookup_map_qualify {α : Type} {name : α → String} {l : List α}
    (h : ∀ a ∈ l, '.' ∉ (name a).toList) :
    (l.map fun a => (TypeName.qualify s (name a), a)).lookup (TypeName.qualify s n) =
      (l.map fun a => (name a, a)).lookup n := by
  induction l with
  | nil => rfl
  | cons a l ih =>
    have he : (TypeName.qualify s n == TypeName.qualify s (name a)) = (n == name a) := by
      rw [Bool.eq_iff_iff, beq_iff_eq, beq_iff_eq, TypeName.qualify_inj hn (h a List.mem_cons_self)]
      exact and_iff_right rfl
    rw [List.map_cons, List.map_cons, List.lookup_cons, List.lookup_cons, he,
      ih fun b hb => h b (List.mem_cons_of_mem a hb)]

namespace Message

variable {scope : String} {m : Message}

lemma lookup_messagesIn_self (h : m.Plain s) :
    (m.messagesIn s).lookup (TypeName.qualify s n) = [(m.name, m)].lookup n := by
  -- what is nested in the message has a longer scope
  have hd : (m.messages.flatMap (·.messagesIn (TypeName.qualify s m.name))).lookup
      (TypeName.qualify s n) = none := by
    refine lookup_qualify_of_parent hn fun d hd he => ?_
    obtain ⟨k, hk, hd⟩ := List.mem_flatMap.mp hd
    have hl := (h.nested hk).length_le_parent hd
    rw [he] at hl
    exact absurd hl (Nat.not_le.mpr (TypeName.length_lt_qualify _ _))
  have hm : ([m].map fun k => (TypeName.qualify s k.name, k)).lookup (TypeName.qualify s n) =
      ([m].map fun k => (k.name, k)).lookup n :=
    lookup_map_qualify hn (by simpa using h.name)
  rw [messagesIn_eq, ← List.singleton_append, List.lookup_append, hd, Option.or_none]
  exact hm

lemma lookup_messagesIn (hs : scope ≠ s) (h : m.Plain scope) :
    (m.messagesIn scope).lookup (TypeName.qualify s n) =
      if TypeName.qualify scope m.name = s then (m.messages.map fun k => (k.name, k)).lookup n
      else (m.messages.flatMap (·.messagesIn (TypeName.qualify scope m.name))).lookup
        (TypeName.qualify s n) := by
  have hne : (TypeName.qualify s n == TypeName.qualify scope m.name) = false := by
    rw [beq_eq_false_iff_ne, ne_eq, TypeName.qualify_inj hn h.name]
    exact fun he => hs he.1.symm
  rw [messagesIn_eq, List.lookup_cons, hne]
  by_cases hq : TypeName.qualify scope m.name = s
  · rw [if_pos hq, hq, List.map_eq_flatMap]
    exact lookup_flatMap_congr fun k hk => lookup_messagesIn_self hn (hq ▸ h.nested hk)
  · rw [if_neg hq]

lemma lookup_enumerationsIn (h : m.Plain scope) :
    (m.enumerationsIn scope).lookup (TypeName.qualify s n) =
      if TypeName.qualify scope m.name = s then (m.enumerations.map fun e => (e.name, e)).lookup n
      else (m.messages.flatMap (·.enumerationsIn (TypeName.qualify scope m.name))).lookup
        (TypeName.qualify s n) := by
  rw [enumerationsIn_eq, List.lookup_append]
  by_cases hq : TypeName.qualify scope m.name = s
  · have hd : (m.messages.flatMap (·.enumerationsIn s)).lookup (TypeName.qualify s n) = none := by
      refine lookup_qualify_of_parent hn fun d hd he => ?_
      obtain ⟨k, hk, hd⟩ := List.mem_flatMap.mp hd
      have hl := (hq ▸ h.nested hk : k.Plain s).length_lt_parent hd
      rw [he] at hl
      exact Nat.lt_irrefl _ hl
    rw [if_pos hq, hq, hd, Option.none_or]
    exact lookup_map_qualify hn h.enumerations
  · have ho : (enumerationsAt (TypeName.qualify scope m.name) m.enumerations).lookup
        (TypeName.qualify s n) = none := by
      refine lookup_qualify_of_parent hn fun d hd => ?_
      obtain ⟨e, he, rfl⟩ := List.mem_map.mp hd
      rwa [TypeName.parent_qualify (h.enumerations e he)]
    rw [if_neg hq, ho, Option.or_none]

end Message

section

variable (hp : PlainlyNamed files) {m : Message} (hm : (s, m) ∈ definedMessages files)
include hp hm

lemma lookup_definedMessages :
    (definedMessages files).lookup (TypeName.qualify s n) =
      ((definitionsOf files s).flatMap (·.2.messages.map fun k => (k.name, k))).lookup n := by
  rw [definitionsOf_eq, List.flatMap_assoc, definedMessages]
  refine lookup_flatMap_congr fun f hf => ?_
  rw [Message.messagesOf_eq, List.flatMap_assoc]
  refine lookup_flatMap_congr fun k hk => ?_
  exact Message.lookup_eq_lookup_own (fun _ _ => Message.lookup_messagesIn hn)
    (hp.scope f hf _ hm).symm (hp.plain hf hk)

lemma lookup_definedEnumerations :
    (definedEnumerations files).lookup (TypeName.qualify s n) =
      ((definitionsOf files s).flatMap (·.2.enumerations.map fun e => (e.name, e))).lookup n := by
  rw [definitionsOf_eq, List.flatMap_assoc, definedEnumerations]
  refine lookup_flatMap_congr fun f hf => ?_
  have ht : (enumerationsAt f.scope f.enumerations).lookup (TypeName.qualify s n) = none := by
    refine lookup_qualify_of_parent hn fun d hd => ?_
    have hd' := hp.enumeration d (List.mem_flatMap.mpr ⟨f, hf, List.mem_append_right _ hd⟩)
    obtain ⟨e, _, rfl⟩ := List.mem_map.mp hd
    rw [TypeName.parent_qualify hd']
    exact (hp.scope f hf _ hm).symm
  rw [Message.enumerationsOf_eq, List.lookup_append, ht, Option.or_none, List.flatMap_assoc]
  refine lookup_flatMap_congr fun k hk => ?_
  exact Message.lookup_eq_lookup_own (fun _ _ _ => Message.lookup_enumerationsIn hn)
    (hp.scope f hf _ hm).symm (hp.plain hf hk)

theorem definition?_qualify (kind : TypeKind) :
    (TypeIndex.ofFiles files).definition? kind (TypeName.qualify s n) =
      ((definitionsOf files s).flatMap (·.2.declared kind)).lookup n := by
  cases kind with
  | message =>
    rw [TypeIndex.definition?, TypeIndex.message?_ofFiles, lookup_definedMessages hn hp hm,
      ← TypeIndex.lookup_map_snd, List.map_flatMap]
    simp only [List.map_map, Message.declared]
    rfl
  | enumeration =>
    rw [TypeIndex.definition?, TypeIndex.enumeration?_ofFiles,
      lookup_definedEnumerations hn hp hm, ← TypeIndex.lookup_map_snd, List.map_flatMap]
    simp only [List.map_map, Message.declared]
    rfl

end

end

namespace Message

def Covers (m : Message) (kind : TypeKind) (m' : Message) : Prop :=
  ∀ n ∈ (m'.declared kind).map Prod.fst, n ∈ (m.declared kind).map Prod.fst

instance (m : Message) (kind : TypeKind) (m' : Message) : Decidable (m.Covers kind m') :=
  inferInstanceAs (Decidable (∀ n ∈ (m'.declared kind).map Prod.fst, _))

end Message

section

variable (hp : PlainlyNamed files) {m : Message}
variable (hm : (TypeIndex.ofFiles files).message? s = some m) {kind : TypeKind}
include hp hm

lemma exists_declared_iff (hn : '.' ∉ n.toList) :
    ((TypeIndex.ofFiles files).definition? kind (TypeName.qualify s n)).isSome ↔
      ∃ m', (s, m') ∈ definedMessages files ∧ n ∈ (m'.declared kind).map Prod.fst := by
  rw [definition?_qualify hn hp (TypeIndex.mem_of_message? hm), lookup_isSome_iff,
    List.map_flatMap]
  constructor
  · intro h
    obtain ⟨⟨t, m'⟩, hf, h⟩ := List.mem_flatMap.mp h
    obtain ⟨hd, ht⟩ := List.mem_filter.mp hf
    have ht : t = s := by simpa using ht
    exact ⟨m', ht ▸ hd, h⟩
  · rintro ⟨m', hd, h⟩
    exact List.mem_flatMap.mpr ⟨(s, m'), List.mem_filter.mpr ⟨hd, by simp⟩, h⟩

lemma mem_declared (hn : '.' ∉ n.toList) (hk : n ∈ (m.declared kind).map Prod.fst)
    {d : Definition}
    (hd : (TypeIndex.ofFiles files).definition? kind (TypeName.qualify s n) = some d) :
    (n, d) ∈ m.declared kind := by
  obtain ⟨d', hk⟩ := Option.isSome_iff_exists.mp (lookup_isSome_iff.mpr hk)
  -- the kept message is the first of those called `s`
  rw [definition?_qualify hn hp (TypeIndex.mem_of_message? hm)] at hd
  rw [TypeIndex.message?_ofFiles, lookup_eq_some_iff_first] at hm
  obtain ⟨before, after, hf, hb⟩ := hm
  have hnil : before.filter (·.1 = s) = [] :=
    List.filter_eq_nil_iff.mpr fun c hc => by simpa using hb c hc
  rw [definitionsOf, hf, List.filter_append, hnil, List.nil_append,
    List.filter_cons_of_pos (by simp), List.flatMap_cons, List.lookup_append, hk,
    Option.some_or] at hd
  exact mem_of_lookup_eq_some (hk.trans hd)

lemma Message.Covers.of_kept
    (h : ∀ n, '.' ∉ n.toList → ∀ d,
      (TypeIndex.ofFiles files).definition? kind (TypeName.qualify s n) = some d →
        (n, d) ∈ m.declared kind)
    {m' : Message} (hm' : (s, m') ∈ definedMessages files) : m.Covers kind m' := by
  intro n hk
  have hn : '.' ∉ n.toList := hp.declared hm' hk
  obtain ⟨d, hd⟩ := Option.isSome_iff_exists.mp
    ((exists_declared_iff hp hm hn).mpr ⟨m', hm', hk⟩)
  exact List.mem_map_of_mem (h n hn d hd)

lemma mem_declared_of_covers
    (h : ∀ m', (s, m') ∈ definedMessages files → m.Covers kind m') (hn : '.' ∉ n.toList)
    {d : Definition}
    (hd : (TypeIndex.ofFiles files).definition? kind (TypeName.qualify s n) = some d) :
    (n, d) ∈ m.declared kind := by
  obtain ⟨m', hm', hk⟩ := (exists_declared_iff hp hm hn).mp (Option.isSome_of_mem hd)
  exact mem_declared hp hm hn (h m' hm' _ hk) hd

end

namespace Schema

variable {index : TypeIndex} {encoding : Encoding} {placed placed' : List String}

lemma Renders.declares {name : String} {m : Message} {b : Block}
    (h : Renders index encoding placed [⟨name, s, .message m⟩] [b] placed') {kind : TypeKind}
    (hk : n ∈ (m.declared kind).map Prod.fst) : ∃ e ∈ b.nested, e.kind = kind ∧ e.name = n := by
  obtain ⟨_, _, hi⟩ := h.nested
  obtain ⟨c, hc, hkind, hname⟩ : ∃ c ∈ Copy.nested ⟨name, s, .message m⟩,
      c.definition.kind = kind ∧ c.name = n := by
    rcases Message.declared_names.mp hk with ⟨rfl, k, hmem, rfl⟩ | ⟨rfl, e, hmem, rfl⟩
    · exact ⟨Copy.ofMessage s k, List.mem_append_left _ (List.mem_map_of_mem hmem), rfl, rfl⟩
    · exact ⟨Copy.ofEnumeration s e, List.mem_append_right _ (List.mem_map_of_mem hmem), rfl, rfl⟩
  obtain ⟨e, hm⟩ := exists_zip_left hi.length_eq hc
  obtain ⟨_, _, he⟩ := hi.zip hm
  obtain ⟨hk, hn, _⟩ := he.head_eq
  exact ⟨e, (List.of_mem_zip hm).2, hk.trans hkind, hn.trans hname⟩

end Schema

namespace TypeIndex

theorem found_in_kept_iff (hp : PlainlyNamed files) {m : Message}
    (hm : (ofFiles files).message? s = some m) (kind : TypeKind) :
    ((∀ n, '.' ∉ n.toList → ∀ d,
        (ofFiles files).definition? kind (TypeName.qualify s n) = some d →
          (n, d) ∈ m.declared kind) ↔
      ∀ m', (s, m') ∈ definedMessages files → m.Covers kind m') ∧
    ((∀ m', (s, m') ∈ definedMessages files → m.Covers kind m') →
      ∀ options file text source root,
        Schema.IsSchema (ofFiles files) options file text source root →
        ∀ name b, Schema.Rendered (ofFiles files) source root ⟨name, s, .message m⟩ b →
          ∀ f ∈ m.fields, ∀ n, '.' ∉ n.toList → f.type = .named kind (TypeName.qualify s n) →
            ⟨f.label, .named kind n (TypeName.qualify s n), f.name, f.number⟩ ∈ b.fields ∧
              ∃ e ∈ b.nested, e.kind = kind ∧ e.name = n) := by
  refine ⟨⟨fun h m' hm' => .of_kept hp hm h hm', fun h n hn d hd =>
    mem_declared_of_covers hp hm h hn hd⟩, ?_⟩
  intro hc options file text source root hs name b hb f hf n hn ht
  obtain ⟨_, hr⟩ := hs.renders
  obtain ⟨_, _, hq⟩ := hb.renders hr
  have hown : Schema.reference options.encoding s f.type =
      .own kind (TypeName.qualify s n) := by
    rw [ht, Schema.reference_named, if_pos (TypeName.parent_qualify hn s)]
  constructor
  · rw [hq.fields_eq]
    refine List.mem_map.mpr ⟨f, hf, ?_⟩
    rw [Schema.writtenLine, hown, Schema.Reference.written, TypeName.short_qualify hn]
  · obtain ⟨d, hd⟩ := Option.isSome_iff_exists.mp (hq.own_defined hf hown)
    exact hq.declares (List.mem_map_of_mem (mem_declared_of_covers hp hm hc hn hd))

def keptMessage (inner : String) : Message :=
  ⟨"A", [⟨"x", 1, .optional, .named .message (".p.A." ++ inner)⟩], [⟨"M", [], [], []⟩], []⟩

def twiceFiles (inner : String) : List ProtoFile :=
  [⟨"a.proto", "p", [keptMessage inner], []⟩,
    ⟨"b.proto", "p", [⟨"A", [], [⟨inner, [], [], []⟩], []⟩], []⟩]

theorem found_in_kept_iff_twice :
    PlainlyNamed (twiceFiles "M") ∧
      (ofFiles (twiceFiles "M")).message? ".p.A" = some (keptMessage "M") ∧
      (∀ n, '.' ∉ n.toList → ∀ d,
        (ofFiles (twiceFiles "M")).definition? .message (TypeName.qualify ".p.A" n) = some d →
          (n, d) ∈ (keptMessage "M").declared .message) ∧
      ∃ file ∈ twiceFiles "M", ∃ text source root,
        compile (ofFiles (twiceFiles "M")) {} file = .ok text ∧
        Schema.IsSchema (ofFiles (twiceFiles "M")) {} file text source root ∧
        ∃ e ∈ root.nested, e.kind = .message ∧ e.name = "M" := by
  have hp : PlainlyNamed (twiceFiles "M") :=
    ⟨by decide +kernel, by decide +kernel, by decide +kernel⟩
  have hm : (ofFiles (twiceFiles "M")).message? ".p.A" = some (keptMessage "M") := rfl
  obtain ⟨hiff, hfields⟩ := found_in_kept_iff hp hm .message
  have hall : ∀ d ∈ definedMessages (twiceFiles "M"), d.1 = ".p.A" →
      (keptMessage "M").Covers .message d.2 := by decide +kernel
  have hc : ∀ m', (".p.A", m') ∈ definedMessages (twiceFiles "M") →
      (keptMessage "M").Covers .message m' := fun m' hm' => hall _ hm' rfl
  have hs : Schema.IsSchema (ofFiles (twiceFiles "M")) {} (twiceFiles "M").head! _ _ _ :=
    ⟨_, _, rfl, rfl, rfl, rfl⟩
  refine ⟨hp, hm, hiff.mpr hc, _, List.mem_cons_self, _, _, _, rfl, hs, ?_⟩
  exact (hfields hc _ _ _ _ _ hs _ _ .root _ List.mem_cons_self "M" (by decide) rfl).2

theorem twice_not_found_in_kept :
    PlainlyNamed (twiceFiles "N") ∧
      (ofFiles (twiceFiles "N")).message? ".p.A" = some (keptMessage "N") ∧
      (∃ k, (ofFiles (twiceFiles "N")).message? ".p.A.N" = some k ∧
        k ∉ (keptMessage "N").messages) ∧
      ∃ file ∈ twiceFiles "N", ∃ text source root,
        compile (ofFiles (twiceFiles "N")) {} file = .ok text ∧
        Schema.IsSchema (ofFiles (twiceFiles "N")) {} file text source root ∧
        ⟨.optional, .named .message "N" ".p.A.N", "x", 1⟩ ∈ root.fields ∧
        ∀ e ∈ root.nested, e.name ≠ "N" := by
  refine ⟨⟨by decide +kernel, by decide +kernel, by decide +kernel⟩, rfl, ⟨_, rfl, ?_⟩, _,
    List.mem_cons_self, _, _, _, rfl, ⟨_, _, rfl, rfl, rfl, rfl⟩, List.mem_cons_self, ?_⟩
  · intro h
    have hname := congrArg Message.name (List.mem_singleton.mp h)
    exact absurd hname (by decide)
  · decide +kernel

end TypeIndex

end TopicSchema
