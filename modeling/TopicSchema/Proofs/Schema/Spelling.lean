import TopicSchema.Proofs.Schema.TextOrder

namespace TopicSchema

namespace Definition

def name : Definition → String
  | message m => m.name
  | enumeration e => e.name

def In (files : List ProtoFile) (t : String) : Definition → Prop
  | message m => (t, m) ∈ definedMessages files
  | enumeration e => (t, e) ∈ definedEnumerations files

def Spelled (p : String → Prop) : Definition → Prop
  | message m => p m.name ∧ ∀ f ∈ m.fields, p f.name
  | enumeration e => p e.name ∧ ∀ v ∈ e.values, p v.name

variable {files : List ProtoFile} {p : String → Prop} {t : String} {d : Definition}

lemma In.cons (h : d.In files t) (file : ProtoFile) : d.In (file :: files) t := by
  cases d with
  | message m => exact List.mem_append_right _ h
  | enumeration e => exact List.mem_append_right _ h

lemma Spelled.mono {q : String → Prop} (hpq : ∀ s, p s → q s) (h : d.Spelled p) :
    d.Spelled q := by
  cases d with
  | message m => exact ⟨hpq _ h.1, fun f hf => hpq _ (h.2 f hf)⟩
  | enumeration e => exact ⟨hpq _ h.1, fun v hv => hpq _ (h.2 v hv)⟩

lemma Spelled.name (h : d.Spelled p) : p d.name := by
  cases d with
  | message m => exact h.1
  | enumeration e => exact h.1

end Definition

def TypeIndex.From (files : List ProtoFile) (index : TypeIndex) : Prop :=
  ∀ kind t d, index.definition? kind t = some d → d.In files t

lemma TypeIndex.ofFiles_from (files : List ProtoFile) : (TypeIndex.ofFiles files).From files := by
  intro kind t d h
  cases d with
  | message m => exact mem_of_message? (definition?_eq_message.mp h).2
  | enumeration e => exact mem_of_enumeration? (definition?_eq_enumeration.mp h).2

lemma TypeIndex.From.cons {files : List ProtoFile} {index : TypeIndex} (h : index.From files)
    (file : ProtoFile) : index.From (file :: files) :=
  fun kind t d hd => (h kind t d hd).cons file

namespace Schema

variable {files : List ProtoFile} {index : TypeIndex} {encoding : Encoding}
variable {placed : List String} {source : Copy} {root : Block} {p : String → Prop}

lemma IsSchema.source_in {options : Options} {file : ProtoFile} {text : String}
    (h : IsSchema index options file text source root) (hf : file ∈ files) :
    source.definition.In files source.typeName ∧ source.name = source.definition.name := by
  obtain ⟨m, _, hm, rfl, _⟩ := h
  exact ⟨top_mem_definedMessages hf (hm ▸ List.mem_singleton_self m), rfl⟩

lemma Copy.nested_in {c d : Copy} (hc : c.definition.In files c.typeName) (hd : d ∈ c.nested) :
    d.definition.In files d.typeName ∧ d.name = d.definition.name := by
  obtain ⟨name, s, definition⟩ := c
  cases definition with
  | message m =>
    rcases List.mem_append.mp hd with hd | hd
    · obtain ⟨n, hn, rfl⟩ := List.mem_map.mp hd
      exact ⟨nested_mem_definedMessages hc hn, rfl⟩
    · obtain ⟨e, he, rfl⟩ := List.mem_map.mp hd
      exact ⟨nested_mem_definedEnumerations hc he, rfl⟩
  | enumeration e => cases hd

lemma Rendered.in (hi : index.From files) (hs : source.definition.In files source.typeName)
    {c : Copy} {b : Block} (h : Rendered index source root c b) :
    c.definition.In files c.typeName := by
  induction h with
  | root => exact hs
  | nested _ hz ih => exact (Copy.nested_in ih (List.of_mem_zip hz).1).1
  | flattened _ _ hd _ => exact hi _ _ _ hd

structure Block.Spelled (p : String → Prop) (b : Block) : Prop where
  name : p b.name
  fields : ∀ f ∈ b.fields, p f.name ∧ p f.type.text
  values : ∀ v ∈ b.values, p v.name

lemma Block.Spelled.mono {q : String → Prop} (hpq : ∀ s, p s → q s) {b : Block}
    (h : b.Spelled p) : b.Spelled q where
  name := hpq _ h.name
  fields f hf := (h.fields f hf).imp (hpq _) (hpq _)
  values v hv := hpq _ (h.values v hv)

section

variable (hr : Renders index encoding [] [source] [root] placed) (hi : index.From files)
variable (hs : source.definition.In files source.typeName)
variable (hname : p source.name)
variable (hd : ∀ t (d : Definition), d.In files t → d.Spelled p)
variable (ht : ∀ c b, Rendered index source root c b → ∀ f ∈ c.fields,
  p (reference encoding c.typeName f.type).written.text)
include hr hi hs hname hd ht

lemma Rendered.spelled_name {c : Copy} {b : Block} (h : Rendered index source root c b) :
    p c.name := by
  cases h with
  | root => exact hname
  | nested hc hz =>
    obtain ⟨hin, hn⟩ := Copy.nested_in (hc.in hi hs) (List.of_mem_zip hz).1
    exact hn ▸ (hd _ _ hin).name
  | flattened hc he _ =>
    -- a field of the block around it writes this name
    obtain ⟨_, _, _, _, href⟩ := (mem_flattened_iff hr).mp ⟨hc.mem_all, List.mem_map_of_mem he⟩
    obtain ⟨⟨kind, t⟩, href, rfl : t = _⟩ := List.mem_map.mp href
    obtain ⟨_, _, hq⟩ := hc.renders hr
    obtain ⟨f, hf, hx⟩ := hq.mem_references.mp href
    have hw := ht _ _ hc f hf
    rwa [reference_eq_external.mpr hx] at hw

theorem spelled_of_mem_all {b : Block} (hb : b ∈ root.all) : b.Spelled p := by
  obtain ⟨c, hc, _, _, hq⟩ := exists_renders hr hb
  have hsp := hd _ _ (hc.in hi hs)
  have hfields := ht c b hc
  refine ⟨?_, ?_, ?_⟩
  · rw [hq.head_eq.2.1]
    exact hc.spelled_name hr hi hs hname hd ht
  · intro f hf
    rw [hq.fields_eq] at hf
    obtain ⟨field, hfield, rfl⟩ := List.mem_map.mp hf
    refine ⟨?_, hfields field hfield⟩
    obtain ⟨name, t, definition⟩ := c
    cases definition with
    | message m => exact hsp.2 field hfield
    | enumeration e => cases hfield
  · obtain ⟨name, t, definition⟩ := c
    cases definition with
    | message m =>
      obtain ⟨_, _, _, _, _, rfl, _⟩ := hq.of_message
      intro v hv
      cases hv
    | enumeration e =>
      obtain rfl := hq.of_enumeration
      exact hsp.2

end

end Schema

end TopicSchema
