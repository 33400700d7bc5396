import Mathlib.Data.List.Forall2
import TopicSchema.Descriptor.Definitions
import TopicSchema.Proofs.Except

namespace TopicSchema

def FieldForm.isNamed : FieldForm → Bool
  | scalar _ => false
  | group => true
  | message => true
  | enumeration => true

def FieldForm.withName (typeName : String) : FieldForm → FieldType
  | scalar type => .scalar type
  | group => .named .message typeName
  | message => .named .message typeName
  | enumeration => .named .enumeration typeName

namespace FieldDescriptor

def LabelKnown (f : FieldDescriptor) : Prop :=
  ∀ c, f.label = some c → (c.meaning? labelVocabulary).isSome

structure Complete (f : FieldDescriptor) : Prop where
  label : f.LabelKnown
  type : ∃ c form, f.type = some c ∧ c.meaning? typeVocabulary = some form ∧
    (form.isNamed → ∃ t, f.typeName = some t ∧ t ≠ "")

inductive Fault (f : FieldDescriptor) (shown : String) : DescriptorError → Prop
  | label {c : Code} : f.label = some c → c.meaning? labelVocabulary = none →
      Fault f shown (.unknownLabel shown c.text)
  | noType : f.LabelKnown → f.type = none → Fault f shown (.unknownType shown "")
  | type {c : Code} : f.LabelKnown → f.type = some c → c.meaning? typeVocabulary = none →
      Fault f shown (.unknownType shown c.text)
  | typeName {c : Code} {form : FieldForm} : f.LabelKnown → f.type = some c →
      c.meaning? typeVocabulary = some form → form.isNamed →
      f.typeName = none ∨ f.typeName = some "" → Fault f shown (.missingTypeName shown)

structure StandsFor (f : FieldDescriptor) (field : Field) : Prop where
  name : field.name = f.name.getD ""
  number : field.number = f.number.getD 0
  label : (f.label = none ∧ field.label = .singular) ∨
    ∃ c, f.label = some c ∧ c.meaning? labelVocabulary = some field.label
  type : ∃ c form, f.type = some c ∧ c.meaning? typeVocabulary = some form ∧
    field.type = form.withName (f.typeName.getD "")

end FieldDescriptor

structure ValueDescriptor.StandsFor (v : ValueDescriptor) (value : EnumValue) : Prop where
  name : value.name = v.name.getD ""
  number : value.number = v.number.getD 0

structure EnumDescriptor.StandsFor (d : EnumDescriptor) (e : Enumeration) : Prop where
  name : e.name = d.name.getD ""
  values : List.Forall₂ ValueDescriptor.StandsFor d.values e.values

inductive MessageDescriptor.StandsFor : MessageDescriptor → Message → Prop
  | intro {d : MessageDescriptor} {m : Message} : m.name = d.name.getD "" →
      List.Forall₂ FieldDescriptor.StandsFor d.fields m.fields →
      List.Forall₂ StandsFor d.messages m.messages →
      List.Forall₂ EnumDescriptor.StandsFor d.enumerations m.enumerations → StandsFor d m

structure FileDescriptor.StandsFor (d : FileDescriptor) (file : ProtoFile) : Prop where
  name : file.name = d.name.getD ""
  package : file.package = d.package.getD ""
  messages : List.Forall₂ MessageDescriptor.StandsFor d.messages file.messages
  enumerations : List.Forall₂ EnumDescriptor.StandsFor d.enumerations file.enumerations

mutual

def MessageDescriptor.fieldsIn : MessageDescriptor → List (String × FieldDescriptor)
  | ⟨name, fields, messages, _⟩ =>
    fields.map (fun f => (name.getD "", f)) ++ MessageDescriptor.fieldsOf messages

def MessageDescriptor.fieldsOf : List MessageDescriptor → List (String × FieldDescriptor)
  | [] => []
  | m :: ms => m.fieldsIn ++ MessageDescriptor.fieldsOf ms

end

def FileDescriptor.fieldsOf (files : List FileDescriptor) : List (String × FieldDescriptor) :=
  files.flatMap fun f => MessageDescriptor.fieldsOf f.messages

inductive FirstFault : List (String × FieldDescriptor) → DescriptorError → Prop
  | here {owner : String} {f : FieldDescriptor} {fields : List (String × FieldDescriptor)}
      {e : DescriptorError} : f.Fault (owner ++ "." ++ f.name.getD "") e →
      FirstFault ((owner, f) :: fields) e
  | later {owner : String} {f : FieldDescriptor} {fields : List (String × FieldDescriptor)}
      {e : DescriptorError} : f.Complete → FirstFault fields e → FirstFault ((owner, f) :: fields) e

namespace FieldDescriptor

variable {f : FieldDescriptor} {shown : String} {e : DescriptorError}

lemma Fault.not_complete (h : f.Fault shown e) : ¬ f.Complete := by
  intro hc
  obtain ⟨c, form, hc₁, hc₂, hn⟩ := hc.type
  cases h with
  | label hl hm => simpa [hm] using hc.label _ hl
  | noType _ ht => simp [hc₁] at ht
  | type _ ht hm =>
    cases hc₁.symm.trans ht
    simp [hc₂] at hm
  | typeName _ ht hm hf hu =>
    cases hc₁.symm.trans ht
    cases hc₂.symm.trans hm
    obtain ⟨t, ht', hne⟩ := hn hf
    simp [ht', hne] at hu

lemma Fault.unique {e' : DescriptorError} (h : f.Fault shown e) (h' : f.Fault shown e') :
    e = e' := by
  -- each case says that those before it do not apply
  cases h with
  | label hl hm => cases h' <;> grind [LabelKnown]
  | noType hk ht => cases h' <;> grind [LabelKnown]
  | type hk ht hm => cases h' <;> grind [LabelKnown]
  | typeName hk ht hm hn hu => cases h' <;> grind [LabelKnown]

lemma readLabel_eq_ok {label : Label} : f.readLabel shown = .ok label ↔
    (f.label = none ∧ label = .singular) ∨
      ∃ c, f.label = some c ∧ c.meaning? labelVocabulary = some label := by
  rw [readLabel]
  grind

lemma readLabel_eq_error : f.readLabel shown = .error e ↔
    ∃ c, f.label = some c ∧ c.meaning? labelVocabulary = none ∧
      e = .unknownLabel shown c.text := by
  rw [readLabel]
  grind

lemma readForm_eq_ok {form : FieldForm} : f.readForm shown = .ok form ↔
    ∃ c, f.type = some c ∧ c.meaning? typeVocabulary = some form := by
  rw [readForm]
  grind

lemma readForm_eq_error : f.readForm shown = .error e ↔
    (f.type = none ∧ e = .unknownType shown "") ∨
      ∃ c, f.type = some c ∧ c.meaning? typeVocabulary = none ∧
        e = .unknownType shown c.text := by
  rw [readForm]
  grind

lemma readType_eq_ite (form : FieldForm) : f.readType shown form =
    if form.isNamed ∧ (f.typeName = none ∨ f.typeName = some "") then
      .error (.missingTypeName shown)
    else .ok (form.withName (f.typeName.getD "")) := by
  cases form with
  | scalar type => simp [readType, FieldForm.isNamed, FieldForm.withName]
  | group => grind [readType, readTypeName, Except.map, FieldForm.isNamed, FieldForm.withName]
  | message => grind [readType, readTypeName, Except.map, FieldForm.isNamed, FieldForm.withName]
  | enumeration =>
    grind [readType, readTypeName, Except.map, FieldForm.isNamed, FieldForm.withName]

lemma labelKnown_of_readLabel {label : Label} (h : f.readLabel shown = .ok label) :
    f.LabelKnown := by
  rcases readLabel_eq_ok.mp h with ⟨hl, -⟩ | ⟨c, hl, hm⟩
  · simp [LabelKnown, hl]
  · simp [LabelKnown, hl, hm]

lemma definition_eq_ok {owner : String} {field : Field} (h : f.definition owner = .ok field) :
    f.Complete ∧ f.StandsFor field := by
  rw [definition] at h
  obtain ⟨label, hl, h⟩ := bind_eq_ok.mp h
  obtain ⟨form, hf, h⟩ := bind_eq_ok.mp h
  obtain ⟨type, ht, h⟩ := bind_eq_ok.mp h
  cases h
  obtain ⟨c, hc, hm⟩ := readForm_eq_ok.mp hf
  rw [readType_eq_ite] at ht
  split at ht
  · cases ht
  · rename_i hn
    cases ht
    refine ⟨⟨labelKnown_of_readLabel hl, c, form, hc, hm, fun hn' => ?_⟩,
      ⟨rfl, rfl, readLabel_eq_ok.mp hl, c, form, hc, hm, rfl⟩⟩
    cases hv : f.typeName with
    | none => exact absurd ⟨hn', Or.inl hv⟩ hn
    | some t => exact ⟨t, rfl, fun h => hn ⟨hn', Or.inr (h ▸ hv)⟩⟩

lemma definition_eq_error {owner : String} (h : f.definition owner = .error e) :
    f.Fault (owner ++ "." ++ f.name.getD "") e := by
  rw [definition] at h
  rcases bind_eq_error.mp h with hl | ⟨label, hl, h⟩
  · obtain ⟨c, hc, hm, rfl⟩ := readLabel_eq_error.mp hl
    exact .label hc hm
  have hk : f.LabelKnown := labelKnown_of_readLabel hl
  rcases bind_eq_error.mp h with hf | ⟨form, hf, h⟩
  · rcases readForm_eq_error.mp hf with ⟨hc, rfl⟩ | ⟨c, hc, hm, rfl⟩
    · exact .noType hk hc
    · exact .type hk hc hm
  obtain ⟨c, hc, hm⟩ := readForm_eq_ok.mp hf
  rcases bind_eq_error.mp h with ht | ⟨type, -, h⟩
  · rw [readType_eq_ite] at ht
    split at ht
    · rename_i hn
      cases ht
      exact .typeName hk hc hm hn.1 hn.2
    · cases ht
  · cases h

end FieldDescriptor

def Converts {β : Type} (fields : List (String × FieldDescriptor)) (stands : β → Prop) :
    Except DescriptorError β → Prop
  | .ok b => (∀ x ∈ fields, x.2.Complete) ∧ stands b
  | .error e => FirstFault fields e

lemma FirstFault.append_right {fields : List (String × FieldDescriptor)} {e : DescriptorError}
    (h : FirstFault fields e) (later : List (String × FieldDescriptor)) :
    FirstFault (fields ++ later) e := by
  induction h with
  | here hf => exact .here hf
  | later hc _ ih => exact .later hc ih

lemma FirstFault.append_left {fields : List (String × FieldDescriptor)} {e : DescriptorError}
    (h : FirstFault fields e) {before : List (String × FieldDescriptor)}
    (hb : ∀ x ∈ before, x.2.Complete) : FirstFault (before ++ fields) e := by
  induction before with
  | nil => exact h
  | cons x before ih =>
    rw [List.forall_mem_cons] at hb
    exact .later hb.1 (ih hb.2)

lemma FirstFault.not_complete {fields : List (String × FieldDescriptor)} {e : DescriptorError}
    (h : FirstFault fields e) : ¬ ∀ x ∈ fields, x.2.Complete := by
  induction h with
  | here hf => exact fun hc => hf.not_complete (hc _ List.mem_cons_self)
  | later _ _ ih => exact fun hc => ih fun x hx => hc x (List.mem_cons_of_mem _ hx)

lemma FirstFault.unique {fields : List (String × FieldDescriptor)} {e e' : DescriptorError}
    (h : FirstFault fields e) (h' : FirstFault fields e') : e = e' := by
  induction h with
  | here hf =>
    cases h' with
    | here hf' => exact hf.unique hf'
    | later hc _ => exact absurd hc hf.not_complete
  | later hc _ ih =>
    cases h' with
    | here hf => exact absurd hc hf.not_complete
    | later _ h' => exact ih h'

section

variable {β γ : Type} {fs gs : List (String × FieldDescriptor)} {p : β → Prop} {q : γ → Prop}

lemma Converts.of_eq_ok {x : Except DescriptorError β} (h : Converts fs p x) {b : β}
    (hb : x = .ok b) : p b := by
  rw [hb] at h
  exact h.2

lemma Converts.exists_eq_ok {x : Except DescriptorError β} (h : Converts fs p x) :
    (∃ b, x = .ok b) ↔ ∀ y ∈ fs, y.2.Complete := by
  cases x with
  | ok b => exact ⟨fun _ => h.1, fun _ => ⟨b, rfl⟩⟩
  | error e =>
    refine iff_of_false ?_ h.not_complete
    rintro ⟨b, hb⟩
    cases hb

lemma Converts.eq_error_iff {x : Except DescriptorError β} (h : Converts fs p x)
    {e : DescriptorError} : x = .error e ↔ FirstFault fs e := by
  cases x with
  | ok b =>
    refine iff_of_false ?_ fun he => he.not_complete h.1
    rintro ⟨⟩
  | error e' => exact ⟨fun he => Except.error.inj he ▸ h, fun he => congrArg _ (h.unique he)⟩

lemma Converts.bind {x : Except DescriptorError β} {f : β → Except DescriptorError γ}
    (hx : Converts fs p x) (hf : ∀ b, p b → Converts gs q (f b)) :
    Converts (fs ++ gs) q (x >>= f) := by
  cases x with
  | error e => exact hx.append_right gs
  | ok b =>
    have hb : Converts gs q (f b) := hf b hx.2
    change Converts (fs ++ gs) q (f b)
    cases hfb : f b with
    | error e =>
      rw [hfb] at hb
      exact hb.append_left hx.1
    | ok c =>
      rw [hfb] at hb
      refine ⟨fun y hy => ?_, hb.2⟩
      rcases List.mem_append.mp hy with hy | hy
      · exact hx.1 y hy
      · exact hb.1 y hy

lemma Converts.map {x : Except DescriptorError β} {f : β → γ} (hx : Converts fs p x)
    (hf : ∀ b, p b → q (f b)) : Converts fs q (x >>= fun b => .ok (f b)) := by
  rw [← List.append_nil fs]
  exact hx.bind fun b hb => ⟨List.forall_mem_nil _, hf b hb⟩

lemma Converts.cons {x : Except DescriptorError β} {y : Except DescriptorError (List β)}
    {α : Type} {stands : α → β → Prop} {a : α} {as : List α} (hx : Converts fs (stands a) x)
    (hy : Converts gs (List.Forall₂ stands as) y) :
    Converts (fs ++ gs) (List.Forall₂ stands (a :: as))
      (x >>= fun b => y >>= fun bs => .ok (b :: bs)) :=
  hx.bind fun _ hb => hy.map fun _ hbs => .cons hb hbs

end

namespace FieldDescriptor

lemma definition_converts (owner : String) (f : FieldDescriptor) :
    Converts [(owner, f)] f.StandsFor (f.definition owner) := by
  cases h : f.definition owner with
  | error e => exact .here (definition_eq_error h)
  | ok field =>
    obtain ⟨hc, hs⟩ := definition_eq_ok h
    exact ⟨by simpa using hc, hs⟩

lemma definitions_converts (owner : String) (fs : List FieldDescriptor) :
    Converts (fs.map (fun f => (owner, f))) (List.Forall₂ StandsFor fs) (definitions owner fs) := by
  induction fs with
  | nil => exact ⟨List.forall_mem_nil _, .nil⟩
  | cons f fs ih => exact (definition_converts owner f).cons ih

end FieldDescriptor

lemma EnumDescriptor.definition_standsFor (e : EnumDescriptor) : e.StandsFor e.definition := by
  refine ⟨rfl, ?_⟩
  rw [definition, List.forall₂_map_right_iff, List.forall₂_same]
  exact fun _ _ => ⟨rfl, rfl⟩

lemma EnumDescriptor.definitions_standFor (es : List EnumDescriptor) :
    List.Forall₂ EnumDescriptor.StandsFor es (es.map EnumDescriptor.definition) := by
  rw [List.forall₂_map_right_iff, List.forall₂_same]
  exact fun e _ => e.definition_standsFor

namespace MessageDescriptor

mutual

theorem definition_converts :
    ∀ m : MessageDescriptor, Converts m.fieldsIn m.StandsFor m.definition
  | ⟨name, fields, messages, enumerations⟩ => by
    rw [definition, fieldsIn]
    exact (FieldDescriptor.definitions_converts _ fields).bind fun _ hf =>
      (definitions_converts messages).map fun _ hm =>
        .intro rfl hf hm (EnumDescriptor.definitions_standFor enumerations)

theorem definitions_converts :
    ∀ ms : List MessageDescriptor,
      Converts (fieldsOf ms) (List.Forall₂ StandsFor ms) (definitions ms)
  | [] => ⟨List.forall_mem_nil _, .nil⟩
  | m :: ms => (definition_converts m).cons (definitions_converts ms)

end

end MessageDescriptor

namespace FileDescriptor

lemma definition_converts (f : FileDescriptor) :
    Converts (MessageDescriptor.fieldsOf f.messages) f.StandsFor f.definition :=
  (MessageDescriptor.definitions_converts f.messages).map fun _ hm =>
    ⟨rfl, rfl, hm, EnumDescriptor.definitions_standFor f.enumerations⟩

lemma definitions_converts (files : List FileDescriptor) :
    Converts (fieldsOf files) (List.Forall₂ StandsFor files) (definitions files) := by
  induction files with
  | nil => exact ⟨List.forall_mem_nil _, .nil⟩
  | cons f files ih => exact (definition_converts f).cons ih

theorem definitions_first_fault (files : List FileDescriptor) :
    ((∃ defined, definitions files = .ok defined) ↔ ∀ x ∈ fieldsOf files, x.2.Complete) ∧
      (∀ defined, definitions files = .ok defined → List.Forall₂ StandsFor files defined) ∧
      ∀ e, definitions files = .error e ↔ FirstFault (fieldsOf files) e := by
  have h : Converts (fieldsOf files) (List.Forall₂ StandsFor files) (definitions files) :=
    definitions_converts files
  exact ⟨h.exists_eq_ok, fun _ => h.of_eq_ok, fun _ => h.eq_error_iff⟩

end FileDescriptor

end TopicSchema
