import TopicSchema.Proofs.Lookup
import TopicSchema.Proofs.Schema.FieldLines

/-! How the writing of a schema ends. The bound on nesting is never reached, because each definition
inside another one is of one more type of the index. -/

namespace TopicSchema.Schema

inductive Reachable (index : TypeIndex) (encoding : Encoding) (scope : String) (root : Message) :
    String → Message → Prop
  | root : Reachable index encoding scope root (TypeName.qualify scope root.name) root
  | nested {s : String} {m n : Message} : Reachable index encoding scope root s m →
      n ∈ m.messages → Reachable index encoding scope root (TypeName.qualify s n.name) n
  | external {s t : String} {m n : Message} {f : Field} :
      Reachable index encoding scope root s m → f ∈ m.fields →
      External encoding s f .message t → index.message? t = some n →
      Reachable index encoding scope root t n

def Names (encoding : Encoding) (scope : String) (field : Field) (kind : TypeKind)
    (typeName : String) : Prop :=
  field.type = .named kind typeName ∧
    (TypeName.parent typeName = scope ∨
      ¬ (encoding = .json ∧ (WellKnown.scalar? typeName).isSome))

def Undefined (index : TypeIndex) (encoding : Encoding) (scope : String) (root : Message)
    (t : String) : Prop :=
  ∃ s m, Reachable index encoding scope root s m ∧ ∃ f ∈ m.fields, ∃ kind,
    Names encoding s f kind t ∧ index.definition? kind t = none

def Ends {α : Type} (fault : String → Prop) (post : α → Prop) : Except CompileError α → Prop
  | .ok a => post a
  | .error e => ∃ t, fault t ∧ e = .unresolvedType t

lemma Ends.bind {α β : Type} {fault : String → Prop} {p : α → Prop} {q : β → Prop}
    {x : Except CompileError α} {f : α → Except CompileError β} (hx : Ends fault p x)
    (hf : ∀ a, p a → Ends fault q (f a)) : Ends fault q (x >>= f) := by
  cases x with
  | ok a => exact hf a hx
  | error e => exact hx

lemma definition_ends {index : TypeIndex} {fault : String → Prop} {kind : TypeKind} {t : String}
    (h : index.definition? kind t = none → fault t) :
    Ends fault (fun d => index.definition? kind t = some d) (index.definition kind t) := by
  rw [TypeIndex.definition]
  cases hd : index.definition? kind t with
  | some d => exact rfl
  | none => exact ⟨t, h hd, rfl⟩

structure Known (index : TypeIndex) (placed : List String) : Prop where
  nodup : placed.Nodup
  mem_names : ∀ t ∈ placed, t ∈ index.names

variable {index : TypeIndex} {encoding : Encoding} {scope s : String} {root m : Message}
variable {placed : List String}

lemma Known.length_le (h : Known index placed) : placed.length ≤ index.size :=
  TypeIndex.length_le_size h.nodup h.mem_names

lemma Known.append {t : String} (h : Known index placed) (hp : t ∉ placed)
    (ht : t ∈ index.names) : Known index (placed ++ [t]) := by
  constructor
  · rw [List.nodup_append]
    refine ⟨h.nodup, by simp, ?_⟩
    intro a ha b hb hab
    rw [List.mem_singleton] at hb
    exact hp (hb ▸ hab ▸ ha)
  · intro a ha
    rcases List.mem_append.mp ha with ha | ha
    · exact h.mem_names a ha
    · rw [List.mem_singleton.mp ha]
      exact ht

lemma names_own {f : Field} {kind : TypeKind} {t : String}
    (h : reference encoding s f.type = .own kind t) : Names encoding s f kind t := by
  obtain ⟨ht, hp⟩ := reference_eq_own h
  exact ⟨ht, Or.inl hp⟩

lemma External.names {f : Field} {kind : TypeKind} {t : String}
    (h : External encoding s f kind t) : Names encoding s f kind t :=
  ⟨h.1, Or.inr h.2.2⟩

lemma Names.cases {f : Field} {kind : TypeKind} {t : String} (h : Names encoding s f kind t) :
    reference encoding s f.type = .own kind t ∨ External encoding s f kind t := by
  obtain ⟨ht, hn⟩ := h
  by_cases hp : TypeName.parent t = s
  · left
    rw [ht, reference_named, if_pos hp]
  · exact Or.inr ⟨ht, hp, hn.resolve_left hp⟩

def Owed.Reached (index : TypeIndex) (encoding : Encoding) (scope : String) (root : Message)
    (o : Owed) : Prop :=
  ∀ n, o.definition = .message n → Reachable index encoding scope root o.typeName n

lemma fieldLine_ends (hs : Reachable index encoding scope root s m) {f : Field}
    (hf : f ∈ m.fields) (hk : Known index placed) :
    Ends (Undefined index encoding scope root)
      (fun r => Known index (placed ++ r.2.toList.map (·.typeName)) ∧
        ∀ o ∈ r.2, o.Reached index encoding scope root)
      (fieldLine index encoding s placed f) := by
  have hfault : ∀ kind t, Names encoding s f kind t → index.definition? kind t = none →
      Undefined index encoding scope root t :=
    fun kind t hn hd => ⟨s, m, hs, f, hf, kind, hn, hd⟩
  rw [fieldLine]
  cases hr : reference encoding s f.type with
  | scalar type => simpa [Ends] using hk
  | own kind t =>
    refine (definition_ends (hfault kind t (names_own hr))).bind fun d _ => ?_
    simpa [Ends] using hk
  | external kind t =>
    have hx : External encoding s f kind t := reference_eq_external.mp hr
    by_cases hp : t ∈ placed
    · simpa [Ends, hp] using hk
    · simp only [if_neg hp]
      refine (definition_ends (hfault kind t hx.names)).bind fun d hd => ?_
      refine ⟨hk.append hp (TypeIndex.mem_names hd), ?_⟩
      intro o ho n hn
      cases ho
      cases hn
      -- what the index has is a message, so the field names it as one
      obtain ⟨rfl, hn⟩ := TypeIndex.definition?_eq_message.mp hd
      exact .external hs hf hx hn

lemma fieldLines_ends (hs : Reachable index encoding scope root s m) {fields : List Field}
    (hf : ∀ f ∈ fields, f ∈ m.fields) (hk : Known index placed) :
    Ends (Undefined index encoding scope root)
      (fun r => Known index (placed ++ r.2.map (·.typeName)) ∧
        ∀ o ∈ r.2, o.Reached index encoding scope root)
      (fieldLines index encoding s placed fields) := by
  induction fields generalizing placed with
  | nil => simpa [Ends, fieldLines] using hk
  | cons f fields ih =>
    refine (fieldLine_ends hs (hf f List.mem_cons_self) hk).bind ?_
    rintro ⟨line, owed⟩ ⟨hk₁, ho₁⟩
    refine (ih (fun g hg => hf g (List.mem_cons_of_mem f hg)) hk₁).bind ?_
    rintro ⟨lines, more⟩ ⟨hk₂, ho₂⟩
    constructor
    · simpa using hk₂
    · intro o ho
      rcases List.mem_append.mp ho with ho | ho
      · exact ho₁ o (Option.mem_toList.mp ho)
      · exact ho₂ o ho

variable {define : Definer} {n : Nat}

def Grown {α : Type} (index : TypeIndex) (placed : List String) (r : α × List String) : Prop :=
  Known index r.2 ∧ placed.length ≤ r.2.length

lemma defineAll_ends
    (hd : ∀ placed o, Known index placed → n < placed.length →
      o.Reached index encoding scope root →
      Ends (Undefined index encoding scope root) (Grown index placed) (define placed o))
    {owed : List Owed} (ho : ∀ o ∈ owed, o.Reached index encoding scope root)
    (hk : Known index placed) (hn : owed ≠ [] → n < placed.length) :
    Ends (Undefined index encoding scope root) (Grown index placed)
      (defineAll define placed owed) := by
  induction owed generalizing placed with
  | nil => exact ⟨hk, Nat.le_refl _⟩
  | cons o owed ih =>
    have hl := hn (List.cons_ne_nil o owed)
    refine (hd placed o hk hl (ho o List.mem_cons_self)).bind ?_
    rintro ⟨b, placed₁⟩ ⟨hk₁, hl₁⟩
    refine (ih (fun a ha => ho a (List.mem_cons_of_mem o ha)) hk₁
      (fun _ => Nat.lt_of_lt_of_le hl hl₁)).bind ?_
    rintro ⟨bs, placed₂⟩ ⟨hk₂, hl₂⟩
    exact ⟨hk₂, Nat.le_trans hl₁ hl₂⟩

lemma nestedBlocks_ends {ms : List Message}
    (hm : ∀ placed, Known index placed → n ≤ placed.length → ∀ m ∈ ms,
      Ends (Undefined index encoding scope root) (Grown index placed)
        (messageBlock index encoding define placed m.name (TypeName.qualify s m.name) m))
    (hk : Known index placed) (hn : n ≤ placed.length) :
    Ends (Undefined index encoding scope root) (Grown index placed)
      (nestedBlocks index encoding define placed s ms) := by
  induction ms generalizing placed with
  | nil => exact ⟨hk, Nat.le_refl _⟩
  | cons m ms ih =>
    rw [nestedBlocks]
    refine (hm placed hk hn m List.mem_cons_self).bind ?_
    rintro ⟨b, placed₁⟩ ⟨hk₁, hl₁⟩
    refine (ih (fun p hp hl k hkm => hm p hp hl k (List.mem_cons_of_mem m hkm)) hk₁
      (Nat.le_trans hn hl₁)).bind ?_
    rintro ⟨bs, placed₂⟩ ⟨hk₂, hl₂⟩
    exact ⟨hk₂, Nat.le_trans hl₁ hl₂⟩

lemma messageBlock_ends
    (hd : ∀ placed o, Known index placed → n < placed.length →
      o.Reached index encoding scope root →
      Ends (Undefined index encoding scope root) (Grown index placed) (define placed o))
    (hs : Reachable index encoding scope root s m) (name : String) (hk : Known index placed)
    (hn : n ≤ placed.length) :
    Ends (Undefined index encoding scope root) (Grown index placed)
      (messageBlock index encoding define placed name s m) := by
  induction m using Message.nested_induction generalizing s placed name with
  | h m ih =>
    obtain ⟨own, fields, messages, enumerations⟩ := m
    rw [messageBlock]
    refine (fieldLines_ends hs (fun f hf => hf) hk).bind ?_
    rintro ⟨lines, owed⟩ ⟨hk₁, ho⟩
    have hl : (placed ++ owed.map (·.typeName)).length = placed.length + owed.length := by simp
    have hn₁ : n ≤ (placed ++ owed.map (·.typeName)).length := by omega
    refine (nestedBlocks_ends (fun p hp hl k hkm => ih k hkm (.nested hs hkm) k.name hp hl) hk₁
      hn₁).bind ?_
    rintro ⟨inner, placed₁⟩ ⟨hk₂, hl₁⟩
    dsimp only at hl₁
    have hone : owed ≠ [] → n < placed₁.length := by
      intro he
      have := List.length_pos_iff.mpr he
      omega
    refine (defineAll_ends hd ho hk₂ hone).bind ?_
    rintro ⟨flattened, placed₂⟩ ⟨hk₃, hl₂⟩
    exact ⟨hk₃, by dsimp only at hl₂ ⊢; omega⟩

lemma definer_ends (budget : Nat) (hb : index.size ≤ budget + n) {o : Owed}
    (ho : o.Reached index encoding scope root) (hk : Known index placed)
    (hn : n < placed.length) :
    Ends (Undefined index encoding scope root) (Grown index placed)
      (definer index encoding budget placed o) := by
  induction budget generalizing n placed o with
  | zero =>
    have := hk.length_le
    omega
  | succ budget ih =>
    obtain ⟨t, definition⟩ := o
    cases definition with
    | message m =>
      exact messageBlock_ends (fun p o hp hl ho => ih (n := n + 1) (by omega) ho hp hl)
        (ho m rfl) _ hk hn
    | enumeration e => exact ⟨hk, Nat.le_refl _⟩

theorem rootBlock_ends (index : TypeIndex) (encoding : Encoding) (scope : String)
    (m : Message) :
    Ends (Undefined index encoding scope m) (fun _ => True)
      (rootBlock index encoding scope m) := by
  have h : Ends (Undefined index encoding scope m) (Grown index [])
      (rootBlock index encoding scope m) :=
    messageBlock_ends (n := 0)
      (fun p o hp hl ho => definer_ends index.size (Nat.le_refl _) ho hp hl)
      .root m.name ⟨List.nodup_nil, by simp⟩ (Nat.le_refl 0)
  cases hr : rootBlock index encoding scope m with
  | ok r => trivial
  | error e => rwa [hr] at h

end TopicSchema.Schema
