import TopicSchema.Proofs.Descriptor.JsonForm
import TopicSchema.Proofs.Lookup

namespace TopicSchema

structure FieldDescriptor.Known (f : FieldDescriptor) : Prop where
  label : ∀ c ∈ f.label, (c.meaning? labelVocabulary).isSome
  type : ∀ c ∈ f.type, (c.meaning? typeVocabulary).isSome

inductive MessageDescriptor.Known : MessageDescriptor → Prop
  | intro {m : MessageDescriptor} : (∀ f ∈ m.fields, f.Known) → (∀ n ∈ m.messages, Known n) →
      Known m

def FileDescriptor.Known (f : FileDescriptor) : Prop :=
  ∀ m ∈ f.messages, m.Known

def FieldDescriptor.inWords (f : FieldDescriptor) : FieldDescriptor :=
  { f with
    label := (f.label.bind (·.word? labelVocabulary)).map .word
    type := (f.type.bind (·.word? typeVocabulary)).map .word }

namespace MessageDescriptor

mutual

def inWords : MessageDescriptor → MessageDescriptor
  | ⟨name, fields, messages, enumerations⟩ =>
    ⟨name, fields.map FieldDescriptor.inWords, allInWords messages, enumerations⟩

def allInWords : List MessageDescriptor → List MessageDescriptor
  | [] => []
  | m :: ms => m.inWords :: allInWords ms

end

lemma allInWords_eq (ms : List MessageDescriptor) : allInWords ms = ms.map inWords := by
  induction ms with
  | nil => rfl
  | cons m ms ih => rw [allInWords, ih, List.map_cons]

lemma inWords_eq (m : MessageDescriptor) : m.inWords =
    { m with fields := m.fields.map .inWords, messages := m.messages.map inWords } := by
  obtain ⟨name, fields, messages, enumerations⟩ := m
  rw [inWords, allInWords_eq]

end MessageDescriptor

def FileDescriptor.inWords (f : FileDescriptor) : FileDescriptor :=
  { f with messages := f.messages.map .inWords }

lemma Code.meaning?_word {α : Type} {vocabulary : List (String × α)}
    (hn : (vocabulary.map Prod.fst).Nodup) {c : Code} (hc : (c.meaning? vocabulary).isSome) :
    ∃ w, c.word? vocabulary = some w ∧ (word w).meaning? vocabulary = c.meaning? vocabulary := by
  cases c with
  | word s => exact ⟨s, rfl, rfl⟩
  | number n =>
    rw [meaning?] at hc ⊢
    rw [word?]
    split at hc
    · cases hc
    · next hpos =>
      obtain ⟨⟨w, a⟩, he⟩ := Option.isSome_iff_exists.mp (by simpa using hc :
        (vocabulary[(n - 1).toNat]?).isSome)
      refine ⟨w, by rw [if_neg hpos, he]; rfl, ?_⟩
      rw [if_neg hpos, he, meaning?]
      exact lookup_eq_some_of_mem hn (List.mem_of_getElem? he)

namespace FieldDescriptor

variable {f : FieldDescriptor}

lemma readLabel_inWords (hf : f.Known) (shown : String) :
    f.inWords.readLabel shown = f.readLabel shown := by
  rw [readLabel, readLabel, inWords]
  cases hl : f.label with
  | none => rfl
  | some c =>
    obtain ⟨w, hw, hm⟩ := Code.meaning?_word (by decide) (hf.label c hl)
    obtain ⟨a, ha⟩ := Option.isSome_iff_exists.mp (hf.label c hl)
    simp [hw, hm, ha]

lemma readForm_inWords (hf : f.Known) (shown : String) :
    f.inWords.readForm shown = f.readForm shown := by
  rw [readForm, readForm, inWords]
  cases ht : f.type with
  | none => rfl
  | some c =>
    obtain ⟨w, hw, hm⟩ := Code.meaning?_word (by decide) (hf.type c ht)
    obtain ⟨a, ha⟩ := Option.isSome_iff_exists.mp (hf.type c ht)
    simp [hw, hm, ha]

lemma readType_inWords (f : FieldDescriptor) (shown : String) (form : FieldForm) :
    f.inWords.readType shown form = f.readType shown form := by
  cases form <;> rfl

lemma definition_inWords (hf : f.Known) (owner : String) :
    f.inWords.definition owner = f.definition owner := by
  have hname : f.inWords.name = f.name := rfl
  have hnumber : f.inWords.number = f.number := rfl
  simp only [definition, hname, hnumber, readLabel_inWords hf, readForm_inWords hf,
    readType_inWords]

lemma definitions_inWords {fs : List FieldDescriptor} (h : ∀ f ∈ fs, f.Known) (owner : String) :
    definitions owner (fs.map inWords) = definitions owner fs := by
  induction fs with
  | nil => rfl
  | cons f fs ih =>
    rw [List.map_cons, definitions, definitions, definition_inWords (h f List.mem_cons_self),
      ih fun g hg => h g (List.mem_cons_of_mem _ hg)]

end FieldDescriptor

namespace MessageDescriptor

lemma definitions_inWords {ms : List MessageDescriptor}
    (h : ∀ m ∈ ms, m.inWords.definition = m.definition) :
    definitions (ms.map inWords) = definitions ms := by
  induction ms with
  | nil => rfl
  | cons m ms ih =>
    rw [List.map_cons, definitions, definitions, h m List.mem_cons_self,
      ih fun n hn => h n (List.mem_cons_of_mem _ hn)]

lemma Known.definition_inWords {m : MessageDescriptor} (h : m.Known) :
    m.inWords.definition = m.definition := by
  induction h with
  | @intro m hf _ ih =>
    obtain ⟨name, fields, messages, enumerations⟩ := m
    rw [inWords, allInWords_eq, definition, definition, FieldDescriptor.definitions_inWords hf,
      definitions_inWords ih]

end MessageDescriptor

namespace FileDescriptor

lemma Known.definition_inWords {f : FileDescriptor} (h : f.Known) :
    f.inWords.definition = f.definition := by
  have hm := MessageDescriptor.definitions_inWords fun m hm => (h m hm).definition_inWords
  have hmessages : f.inWords.messages = f.messages.map .inWords := rfl
  rw [definition, definition, hmessages, hm]
  rfl

lemma definitions_inWords {fs : List FileDescriptor} (h : ∀ f ∈ fs, f.Known) :
    definitions (fs.map inWords) = definitions fs := by
  induction fs with
  | nil => rfl
  | cons f fs ih =>
    rw [List.map_cons, definitions, definitions, (h f List.mem_cons_self).definition_inWords,
      ih fun g hg => h g (List.mem_cons_of_mem _ hg)]

end FileDescriptor

end TopicSchema
