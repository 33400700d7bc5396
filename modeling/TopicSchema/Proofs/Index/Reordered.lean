import TopicSchema.Proofs.Lookup

namespace TopicSchema

inductive Message.Reordered : Message → Message → Prop
  | intro {m n : Message} : n.name = m.name → n.fields.Perm m.fields →
      List.Forall₂ Message.Reordered m.messages n.messages →
      n.enumerations = m.enumerations → Message.Reordered m n

structure ProtoFile.Reordered (f g : ProtoFile) : Prop where
  name : g.name = f.name
  package : g.package = f.package
  messages : List.Forall₂ Message.Reordered f.messages g.messages
  enumerations : g.enumerations = f.enumerations

lemma lookup_of_forall₂ {α : Type} {r : α → α → Prop} {l l' : List (String × α)}
    (h : List.Forall₂ (fun d d' => d'.1 = d.1 ∧ r d.2 d'.2) l l') {t : String} {a : α}
    (ha : l.lookup t = some a) : ∃ b, l'.lookup t = some b ∧ r a b := by
  induction h with
  | nil => cases ha
  | @cons d d' l l' hd _ ih =>
    rw [List.lookup_cons] at ha ⊢
    rw [hd.1]
    cases ht : t == d.1 with
    | true =>
      rw [ht] at ha
      cases ha
      exact ⟨d'.2, rfl, hd.2⟩
    | false =>
      rw [ht] at ha
      exact ih ha

lemma flatMap_eq_of_forall₂ {α β : Type} {f g : α → List β} {l l' : List α}
    (h : List.Forall₂ (fun a b => g b = f a) l l') : l'.flatMap g = l.flatMap f := by
  induction h with
  | nil => rfl
  | cons hab _ ih => rw [List.flatMap_cons, List.flatMap_cons, hab, ih]

namespace Message.Reordered

variable {m n : Message}

lemma name_eq (h : m.Reordered n) : n.name = m.name := by
  cases h with
  | intro hn _ _ _ => exact hn

lemma fields_perm (h : m.Reordered n) : n.fields.Perm m.fields := by
  cases h with
  | intro _ hf _ _ => exact hf

lemma messages (h : m.Reordered n) : List.Forall₂ Message.Reordered m.messages n.messages := by
  cases h with
  | intro _ _ hm _ => exact hm

lemma enumerations_eq (h : m.Reordered n) : n.enumerations = m.enumerations := by
  cases h with
  | intro _ _ _ he => exact he

theorem nested_induction {p : Message → Message → Prop}
    (step : ∀ m n, m.Reordered n → List.Forall₂ p m.messages n.messages → p m n)
    (h : m.Reordered n) : p m n := by
  induction m using Message.nested_induction generalizing n with
  | h m ih =>
    have hm := (List.forall₂_and_left m.messages n.messages).mpr ⟨ih, h.messages⟩
    exact step m n h (hm.imp fun _ _ hab => hab.1 hab.2)

lemma refl (m : Message) : m.Reordered m := by
  induction m using Message.nested_induction with
  | h m ih => exact .intro rfl (.refl _) (List.forall₂_same.mpr ih) rfl

lemma symm (h : m.Reordered n) : n.Reordered m := by
  refine nested_induction (p := fun m n => n.Reordered m) (fun m n h hm => ?_) h
  exact .intro h.name_eq.symm h.fields_perm.symm hm.flip h.enumerations_eq.symm

lemma messagesIn (h : m.Reordered n) : ∀ scope,
    List.Forall₂ (fun d d' => d'.1 = d.1 ∧ d.2.Reordered d'.2) (m.messagesIn scope)
      (n.messagesIn scope) := by
  refine nested_induction (p := fun m n => ∀ scope, List.Forall₂ _ (m.messagesIn scope)
    (n.messagesIn scope)) (fun m n h hm scope => ?_) h
  rw [Message.messagesIn_eq, Message.messagesIn_eq, h.name_eq]
  exact .cons ⟨rfl, h⟩ (List.rel_flatMap hm fun a b hab => hab _)

lemma enumerationsIn (h : m.Reordered n) : ∀ scope,
    n.enumerationsIn scope = m.enumerationsIn scope := by
  refine nested_induction (p := fun m n => ∀ scope, n.enumerationsIn scope = m.enumerationsIn scope)
    (fun m n h hm scope => ?_) h
  rw [Message.enumerationsIn_eq, Message.enumerationsIn_eq, h.name_eq, h.enumerations_eq,
    flatMap_eq_of_forall₂ (hm.imp fun _ _ hab => hab _)]

end Message.Reordered

namespace ProtoFile.Reordered

variable {f g : ProtoFile}

lemma scope_eq (h : f.Reordered g) : g.scope = f.scope := by
  rw [scope, scope, h.package]

lemma refl (f : ProtoFile) : f.Reordered f :=
  ⟨rfl, rfl, List.forall₂_same.mpr fun m _ => .refl m, rfl⟩

lemma symm (h : f.Reordered g) : g.Reordered f where
  name := h.name.symm
  package := h.package.symm
  messages := (h.messages.imp fun _ _ hmn => hmn.symm).flip
  enumerations := h.enumerations.symm

lemma exists_message (h : f.Reordered g) {m : Message} (hm : f.messages = [m]) :
    ∃ n, g.messages = [n] ∧ m.Reordered n := by
  have hl := h.messages
  rw [hm, List.forall₂_cons_left_iff] at hl
  obtain ⟨n, rest, hmn, hr, hl⟩ := hl
  rw [List.forall₂_nil_left_iff.mp hr] at hl
  exact ⟨n, hl, hmn⟩

end ProtoFile.Reordered

variable {files files' : List ProtoFile}

lemma reordered_symm (h : List.Forall₂ ProtoFile.Reordered files files') :
    List.Forall₂ ProtoFile.Reordered files' files :=
  (h.imp fun _ _ hfg => hfg.symm).flip

lemma definedMessages_reordered (h : List.Forall₂ ProtoFile.Reordered files files') :
    List.Forall₂ (fun d d' => d'.1 = d.1 ∧ Message.Reordered d.2 d'.2) (definedMessages files)
      (definedMessages files') := by
  refine List.rel_flatMap h fun f g hfg => ?_
  rw [Message.messagesOf_eq, Message.messagesOf_eq, hfg.scope_eq]
  exact List.rel_flatMap hfg.messages fun a b hab => hab.messagesIn _

lemma definedEnumerations_reordered (h : List.Forall₂ ProtoFile.Reordered files files') :
    definedEnumerations files' = definedEnumerations files := by
  refine flatMap_eq_of_forall₂ (h.imp fun f g hfg => ?_)
  rw [Message.enumerationsOf_eq, Message.enumerationsOf_eq, hfg.scope_eq, hfg.enumerations,
    flatMap_eq_of_forall₂ (hfg.messages.imp fun a b hab => hab.enumerationsIn _)]

namespace TypeIndex

lemma message?_reordered (h : List.Forall₂ ProtoFile.Reordered files files') {t : String}
    {m : Message} (hm : (ofFiles files).message? t = some m) :
    ∃ n, (ofFiles files').message? t = some n ∧ m.Reordered n := by
  rw [message?_ofFiles] at hm ⊢
  exact lookup_of_forall₂ (definedMessages_reordered h) hm

lemma enumeration?_reordered (h : List.Forall₂ ProtoFile.Reordered files files') (t : String) :
    (ofFiles files').enumeration? t = (ofFiles files).enumeration? t := by
  rw [enumeration?_ofFiles, enumeration?_ofFiles, definedEnumerations_reordered h]

lemma definition?_reordered (h : List.Forall₂ ProtoFile.Reordered files files') {kind : TypeKind}
    {t : String} (hd : (ofFiles files').definition? kind t = none) :
    (ofFiles files).definition? kind t = none := by
  cases kind with
  | message =>
    rw [definition?, Option.map_eq_none_iff] at hd ⊢
    refine Option.eq_none_iff_forall_ne_some.mpr fun m hm => ?_
    obtain ⟨n, hn, _⟩ := message?_reordered h hm
    cases hn.symm.trans hd
  | enumeration => rwa [definition?, ← enumeration?_reordered h]

end TypeIndex

end TopicSchema
