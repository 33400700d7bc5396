import TopicSchema.Proofs.Schema.EnumValues
import TopicSchema.Proofs.Schema.LineBreaks
import TopicSchema.Proofs.Schema.Success

/-! Files whose names are identifiers. Every name in a line of a schema is then a word, as a type
that is written there is defined. -/

namespace TopicSchema

/-- Letters, digits and underscores. Of the characters outside ASCII any may be a letter. -/
def Identifier (s : String) : Prop :=
  s ≠ "" ∧ ∀ c ∈ s.toList, c.isAlphanum = true ∨ c = '_' ∨ 128 ≤ c.toNat

-- by the characters of the name; the instance for all characters is not one to evaluate
instance (s : String) : Decidable (Identifier s) :=
  @instDecidableAnd _ _ _ (List.decidableBAll _ s.toList)

structure Identified (files : List ProtoFile) : Prop where
  packages : ∀ f ∈ files, f.package = "" ∨
    ∀ s ∈ TypeName.segments f.package, Identifier (String.ofList s)
  messages : ∀ d ∈ definedMessages files,
    Identifier d.2.name ∧ ∀ f ∈ d.2.fields, Identifier f.name
  enumerations : ∀ d ∈ definedEnumerations files,
    Identifier d.2.name ∧ ∀ v ∈ d.2.values, Identifier v.name

def Unbroken (s : String) : Prop :=
  ' ' ∉ s.toList ∧ '\n' ∉ s.toList

instance (s : String) : Decidable (Unbroken s) :=
  inferInstanceAs (Decidable (_ ∧ _))

def Word (s : String) : Prop :=
  s ≠ "" ∧ Unbroken s

instance (s : String) : Decidable (Word s) :=
  inferInstanceAs (Decidable (_ ∧ _))

def Mark (c : Char) : Prop :=
  c.isAlphanum = false ∧ c ≠ '_' ∧ c.toNat < 128

instance (c : Char) : Decidable (Mark c) :=
  inferInstanceAs (Decidable (_ ∧ _))

lemma Identifier.not_mem {s : String} (h : Identifier s) {c : Char} (hc : Mark c) :
    c ∉ s.toList := by
  obtain ⟨halnum, hu, hn⟩ := hc
  intro hm
  rcases h.2 c hm with ha | ha | ha
  · simp [halnum] at ha
  · exact hu ha
  · omega

lemma Identifier.word {s : String} (h : Identifier s) : Word s :=
  ⟨h.1, h.not_mem (by decide), h.not_mem (by decide)⟩

lemma Word.oneLine {s : String} (h : Word s) : OneLine s :=
  h.2.2

lemma word_keyword (type : ScalarType) : Word type.keyword := by
  cases type <;> decide

lemma Unbroken.append {s t : String} (hs : Unbroken s) (ht : Unbroken t) : Unbroken (s ++ t) := by
  simp only [Unbroken, String.toList_append, List.mem_append, not_or]
  exact ⟨⟨hs.1, ht.1⟩, hs.2, ht.2⟩

namespace TypeName

lemma unbroken_qualify {scope name : String} (hs : Unbroken scope) (hn : Unbroken name) :
    Unbroken (qualify scope name) :=
  (hs.append (by decide)).append hn

lemma flattened_ne_empty {scope name : String} (h : Identifier name) :
    flattened (qualify scope name) ≠ "" := by
  obtain ⟨c, hc⟩ := List.exists_mem_of_ne_nil name.toList (by simpa using h.1)
  have hdot : c ≠ '.' := by
    rintro rfl
    exact h.not_mem (by decide) hc
  have hmem : c ∈ (qualify scope name).toList := by
    rw [toList_qualify]
    simp [hc]
  rw [flattened]
  simpa using camelCase_ne_nil ⟨c, hmem, hdot⟩ false

lemma unbroken_flattened {name : String} (h : Unbroken name) : Unbroken (flattened name) := by
  rw [Unbroken, flattened, String.toList_ofList]
  exact ⟨not_mem_camelCase (by decide) (by decide) h.1 false,
    not_mem_camelCase (by decide) (by decide) h.2 false⟩

end TypeName

section

variable {files : List ProtoFile} (hn : Identified files)
include hn

lemma Identified.unbroken_scope {f : ProtoFile} (hf : f ∈ files) : Unbroken f.scope := by
  rw [ProtoFile.scope]
  split
  · decide
  · next hp =>
    have hs := (hn.packages f hf).resolve_left hp
    have hmem {c : Char} (hdot : c ≠ '.') (hc : Mark c) : c ∉ f.package.toList := by
      intro hm
      obtain ⟨p, hp, hcp⟩ := Text.exists_piece hdot hm
      apply (hs p hp).not_mem hc
      rwa [String.toList_ofList]
    apply Unbroken.append (by decide)
    exact ⟨hmem (by decide) (by decide), hmem (by decide) (by decide)⟩

lemma Identified.spelled {t : String} {d : Definition} (h : d.In files t) :
    d.Spelled Identifier := by
  cases d with
  | message m => exact hn.messages _ h
  | enumeration e => exact hn.enumerations _ h

end

lemma exists_scope_of_mem_messagesIn {scope : String} {root : Message} (hs : Unbroken scope)
    (hw : ∀ d ∈ root.messagesIn scope, Unbroken d.2.name) {t : String} {m : Message}
    (h : (t, m) ∈ root.messagesIn scope) :
    ∃ s, t = TypeName.qualify s m.name ∧ Unbroken s := by
  induction root using Message.nested_induction generalizing scope with
  | h root ih =>
    rw [Message.messagesIn_eq] at h hw
    rcases List.mem_cons.mp h with h | h
    · cases h
      exact ⟨scope, rfl, hs⟩
    · obtain ⟨n, hn, h⟩ := List.mem_flatMap.mp h
      have hq := TypeName.unbroken_qualify hs (hw _ List.mem_cons_self)
      refine ih n hn hq (fun d hd => hw d (List.mem_cons_of_mem _ ?_)) h
      exact List.mem_flatMap.mpr ⟨n, hn, hd⟩

section

variable {files : List ProtoFile} (hn : Identified files)
include hn

lemma Identified.exists_scope_of_message {t : String} {m : Message}
    (h : (t, m) ∈ definedMessages files) : ∃ s, t = TypeName.qualify s m.name ∧ Unbroken s := by
  obtain ⟨f, hf, root, hr, h⟩ := mem_definedMessages.mp h
  refine exists_scope_of_mem_messagesIn (hn.unbroken_scope hf) (fun d hd => ?_) h
  exact (hn.messages d (mem_definedMessages.mpr ⟨f, hf, root, hr, hd⟩)).1.word.2

lemma Identified.exists_scope {t : String} {d : Definition} (h : d.In files t) :
    ∃ s, t = TypeName.qualify s d.name ∧ Unbroken s := by
  cases d with
  | message m => exact hn.exists_scope_of_message h
  | enumeration e =>
    obtain ⟨scope, hs, h⟩ := mem_definedEnumerations.mp h
    obtain ⟨_, _, h⟩ := List.mem_map.mp h
    cases h
    refine ⟨scope.1, rfl, ?_⟩
    rcases List.mem_append.mp hs with hs | hs
    · obtain ⟨f, hf, rfl⟩ := List.mem_map.mp hs
      exact hn.unbroken_scope hf
    · obtain ⟨⟨s, m⟩, hm, rfl⟩ := List.mem_map.mp hs
      obtain ⟨s', rfl, hs'⟩ := hn.exists_scope_of_message hm
      exact TypeName.unbroken_qualify hs' (hn.messages _ hm).1.word.2

lemma Identified.word_flattened {t : String} {d : Definition} (h : d.In files t) :
    Word (TypeName.flattened t) := by
  obtain ⟨s, rfl, hs⟩ := hn.exists_scope h
  have hname := (hn.spelled h).name
  exact ⟨TypeName.flattened_ne_empty hname,
    TypeName.unbroken_flattened (TypeName.unbroken_qualify hs hname.word.2)⟩

lemma Identified.word_short {t : String} {d : Definition} (h : d.In files t) :
    Word (TypeName.short t) := by
  obtain ⟨s, rfl, _⟩ := hn.exists_scope h
  have hname := (hn.spelled h).name
  rw [TypeName.short_qualify (hname.not_mem (by decide))]
  exact hname.word

end

namespace Schema

variable {files : List ProtoFile} {index : TypeIndex} {encoding : Encoding}
variable {placed : List String} {source : Copy} {root : Block}

lemma Rendered.word_written (hn : Identified files)
    (hr : Renders index encoding [] [source] [root] placed) (hi : index.From files) {c : Copy}
    {b : Block} (h : Rendered index source root c b) {f : Field} (hf : f ∈ c.fields) :
    Word (reference encoding c.typeName f.type).written.text := by
  cases href : reference encoding c.typeName f.type with
  | scalar type => exact word_keyword type
  | own kind t =>
    obtain ⟨_, _, hq⟩ := h.renders hr
    obtain ⟨d, hd⟩ := Option.isSome_iff_exists.mp (hq.own_defined hf href)
    exact hn.word_short (hi _ _ _ hd)
  | external kind t =>
    -- the type has a flattened definition, so that the index has it
    have hm := h.mem_allReferences hr .refl ⟨f, hf, reference_eq_external.mp href⟩
    obtain ⟨e, he, rfl⟩ := List.mem_map.mp ((mem_definitions_typeNames hr).mpr hm)
    obtain ⟨a, ha, he⟩ := List.mem_flatMap.mp he
    obtain ⟨d, hd, _⟩ := flattened_renders hr ha he
    exact hn.word_flattened (hi _ _ _ hd)

theorem words_of_mem_all (hn : Identified files)
    (hr : Renders index encoding [] [source] [root] placed) (hi : index.From files)
    (hs : source.definition.In files source.typeName) (hname : Word source.name) {b : Block}
    (hb : b ∈ root.all) : b.Spelled Word := by
  refine spelled_of_mem_all hr hi hs hname (fun t d hd => ?_) (fun c b hc f hf => ?_) hb
  · exact (hn.spelled hd).mono fun s hs => hs.word
  · exact hc.word_written hn hr hi hf

end Schema

end TopicSchema
