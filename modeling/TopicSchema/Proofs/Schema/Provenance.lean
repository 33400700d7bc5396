import TopicSchema.Proofs.Lookup
import TopicSchema.Proofs.Schema.FieldLines

namespace TopicSchema.Schema

/-- By their places: the first block is written from `source`, a nested block from the nested type
at the same place, and a flattened one from what the index has for its type. -/
inductive Rendered (index : TypeIndex) (source : Copy) (root : Block) : Copy → Block → Prop
  | root : Rendered index source root source root
  | nested {c d : Copy} {b e : Block} : Rendered index source root c b →
      (d, e) ∈ c.nested.zip b.nested → Rendered index source root d e
  | flattened {c : Copy} {b e : Block} {d : Definition} : Rendered index source root c b →
      e ∈ b.flattened → index.definition? e.kind e.typeName = some d →
      Rendered index source root ⟨TypeName.flattened e.typeName, e.typeName, d⟩ e

variable {index : TypeIndex} {encoding : Encoding} {placed placed' : List String}

lemma Renders.length_eq {copies : List Copy} {blocks : List Block}
    (h : Renders index encoding placed copies blocks placed') : copies.length = blocks.length := by
  induction h with
  | nil => rfl
  | enumeration _ ih => exact congrArg (· + 1) ih
  | message _ _ _ _ _ _ ih => exact congrArg (· + 1) ih

lemma Renders.heads {copies : List Copy} {blocks : List Block}
    (h : Renders index encoding placed copies blocks placed') :
    blocks.map (fun b => (b.kind, b.name, b.typeName)) =
      copies.map (fun c => (c.definition.kind, c.name, c.typeName)) := by
  induction h with
  | nil => rfl
  | enumeration _ ih => simpa only [List.map_cons, List.cons.injEq] using ⟨rfl, ih⟩
  | message _ _ _ _ _ _ ih => simpa only [List.map_cons, List.cons.injEq] using ⟨rfl, ih⟩

lemma Renders.head_eq {c : Copy} {b : Block} (h : Renders index encoding placed [c] [b] placed') :
    b.kind = c.definition.kind ∧ b.name = c.name ∧ b.typeName = c.typeName := by
  have hh := h.heads
  simpa using hh

lemma Renders.zip {copies : List Copy} {blocks : List Block}
    (h : Renders index encoding placed copies blocks placed') {c : Copy} {b : Block}
    (hm : (c, b) ∈ copies.zip blocks) : ∃ q q', Renders index encoding q [c] [b] q' := by
  induction h with
  | nil => cases hm
  | enumeration _ ih =>
    rw [List.zip_cons_cons, List.mem_cons] at hm
    rcases hm with he | hm
    · cases he
      exact ⟨[], [], .enumeration .nil⟩
    · exact ih hm
  | message hl hi hf _ _ _ ih =>
    rw [List.zip_cons_cons, List.mem_cons] at hm
    rcases hm with he | hm
    · cases he
      exact ⟨_, _, .message hl hi hf .nil⟩
    · exact ih hm

lemma Renders.of_message {name typeName : String} {m : Message} {b : Block}
    (h : Renders index encoding placed [⟨name, typeName, .message m⟩] [b] placed') :
    ∃ lines owed inner placed₁ flattened, b = .message name typeName lines inner flattened ∧
      fieldLines index encoding typeName placed m.fields = .ok (lines, owed) ∧
      Renders index encoding (placed ++ owed.map (·.typeName))
        (Copy.nested ⟨name, typeName, .message m⟩) inner placed₁ ∧
      Renders index encoding placed₁ (owed.map Copy.ofOwed) flattened placed' := by
  cases h with
  | message hl hi hf hn =>
    cases hn
    exact ⟨_, _, _, _, _, rfl, hl, hi, hf⟩

lemma Renders.of_enumeration {name typeName : String} {e : Enumeration} {b : Block}
    (h : Renders index encoding placed [⟨name, typeName, .enumeration e⟩] [b] placed') :
    b = enumerationBlock name typeName e := by
  cases h
  rfl

lemma Renders.fields_eq {c : Copy} {b : Block}
    (h : Renders index encoding placed [c] [b] placed') :
    b.fields = c.fields.map (writtenLine encoding c.typeName) := by
  obtain ⟨name, typeName, definition⟩ := c
  cases definition with
  | message m =>
    obtain ⟨lines, owed, inner, placed₁, flattened, rfl, hl, _⟩ := h.of_message
    exact (fieldLines_eq_ok hl).1
  | enumeration e =>
    obtain rfl := h.of_enumeration
    rfl

lemma Renders.references_eq {c : Copy} {b : Block}
    (h : Renders index encoding placed [c] [b] placed') :
    b.references = c.fields.filterMap (external? encoding c.typeName) := by
  rw [Block.references, h.fields_eq, h.head_eq.2.2, List.filterMap_map]
  congr 1
  funext field
  exact external?_writtenLine field

lemma Renders.nested {c : Copy} {b : Block} (h : Renders index encoding placed [c] [b] placed') :
    ∃ q q', Renders index encoding q c.nested b.nested q' := by
  obtain ⟨name, typeName, definition⟩ := c
  cases definition with
  | message m =>
    obtain ⟨lines, owed, inner, placed₁, flattened, rfl, _, hi, _⟩ := h.of_message
    exact ⟨_, _, hi⟩
  | enumeration e =>
    obtain rfl := h.of_enumeration
    exact ⟨[], [], .nil⟩

lemma exists_zip_left {α β : Type} {as : List α} {bs : List β} (h : as.length = bs.length) {a : α}
    (ha : a ∈ as) : ∃ b, (a, b) ∈ as.zip bs := by
  rw [← List.map_fst_zip (Nat.le_of_eq h), List.mem_map] at ha
  obtain ⟨⟨_, b⟩, hm, rfl⟩ := ha
  exact ⟨b, hm⟩

lemma exists_zip_right {α β : Type} {as : List α} {bs : List β} (h : as.length = bs.length) {b : β}
    (hb : b ∈ bs) : ∃ a, (a, b) ∈ as.zip bs := by
  rw [← List.map_snd_zip (Nat.le_of_eq h.symm), List.mem_map] at hb
  obtain ⟨⟨a, _⟩, hm, rfl⟩ := hb
  exact ⟨a, hm⟩

lemma Renders.exists_source {c : Copy} {b e : Block}
    (h : Renders index encoding placed [c] [b] placed') (he : e ∈ b.nested) :
    ∃ d, (d, e) ∈ c.nested.zip b.nested ∧ ∃ q q', Renders index encoding q [d] [e] q' := by
  obtain ⟨_, _, hn⟩ := h.nested
  obtain ⟨d, hm⟩ := exists_zip_right hn.length_eq he
  exact ⟨d, hm, hn.zip hm⟩

lemma Renders.flattened {c : Copy} {b e : Block}
    (h : Renders index encoding placed [c] [b] placed') (he : e ∈ b.flattened) :
    ∃ d, index.definition? e.kind e.typeName = some d ∧ ∃ q q',
      Renders index encoding q [⟨TypeName.flattened e.typeName, e.typeName, d⟩] [e] q' := by
  obtain ⟨name, typeName, definition⟩ := c
  cases definition with
  | message m =>
    obtain ⟨lines, owed, inner, placed₁, flattened, rfl, hl, _, hf⟩ := h.of_message
    obtain ⟨c, hm⟩ := exists_zip_right hf.length_eq he
    obtain ⟨o, ho, rfl⟩ := List.mem_map.mp (List.of_mem_zip hm).1
    obtain ⟨q, q', hr⟩ := hf.zip hm
    obtain ⟨hk, _, ht⟩ := hr.head_eq
    have hi := (fieldLines_eq_ok hl).2.2 o ho
    rw [hk, ht]
    exact ⟨o.definition, hi, q, q', hr⟩
  | enumeration e =>
    obtain rfl := h.of_enumeration
    cases he

lemma Renders.flattened_name {c : Copy} {b e : Block}
    (h : Renders index encoding placed [c] [b] placed') (he : e ∈ b.flattened) :
    e.name = TypeName.flattened e.typeName := by
  obtain ⟨_, _, _, _, he⟩ := h.flattened he
  exact he.head_eq.2.1

variable {source : Copy} {root : Block}

theorem Rendered.renders (hr : Renders index encoding [] [source] [root] placed) {c : Copy}
    {b : Block} (h : Rendered index source root c b) :
    ∃ q q', Renders index encoding q [c] [b] q' := by
  induction h with
  | root => exact ⟨_, _, hr⟩
  | nested _ hm ih =>
    obtain ⟨q, q', hc⟩ := ih
    obtain ⟨_, _, hn⟩ := hc.nested
    exact hn.zip hm
  | flattened _ he hd ih =>
    obtain ⟨q, q', hc⟩ := ih
    obtain ⟨d, hi, hf⟩ := hc.flattened he
    cases hd.symm.trans hi
    exact hf

lemma Rendered.exists_nested (hr : Renders index encoding [] [source] [root] placed) {c d : Copy}
    {b : Block} (h : Rendered index source root c b) (hd : d ∈ c.nested) :
    ∃ e ∈ b.nested, Rendered index source root d e := by
  obtain ⟨q, q', hc⟩ := h.renders hr
  obtain ⟨_, _, hn⟩ := hc.nested
  obtain ⟨e, hm⟩ := exists_zip_left hn.length_eq hd
  exact ⟨e, (List.of_mem_zip hm).2, .nested h hm⟩

lemma Rendered.exists_child (hr : Renders index encoding [] [source] [root] placed) {c : Copy}
    {b e : Block} (h : Rendered index source root c b) (he : e ∈ b.children) :
    ∃ d, Rendered index source root d e := by
  obtain ⟨q, q', hc⟩ := h.renders hr
  rcases List.mem_append.mp he with he | he
  · obtain ⟨d, hm, _⟩ := hc.exists_source he
    exact ⟨d, .nested h hm⟩
  · obtain ⟨d, hd, _⟩ := hc.flattened he
    exact ⟨_, .flattened h he hd⟩

theorem exists_rendered (hr : Renders index encoding [] [source] [root] placed) {b : Block}
    (hb : b ∈ root.all) : ∃ c, Rendered index source root c b := by
  obtain ⟨outer, hw⟩ := exists_within hb
  induction hw with
  | root => exact ⟨source, .root⟩
  | child hw he ih =>
    obtain ⟨c, hc⟩ := ih hw.mem_all
    exact hc.exists_child hr he

lemma exists_renders (hr : Renders index encoding [] [source] [root] placed) {b : Block}
    (hb : b ∈ root.all) : ∃ c, Rendered index source root c b ∧ ∃ q q',
      Renders index encoding q [c] [b] q' := by
  obtain ⟨c, hc⟩ := exists_rendered hr hb
  exact ⟨c, hc, hc.renders hr⟩

lemma flattened_renders (hr : Renders index encoding [] [source] [root] placed) {b d : Block}
    (hb : b ∈ root.all) (hd : d ∈ b.flattened) :
    ∃ x, index.definition? d.kind d.typeName = some x ∧ ∃ q q',
      Renders index encoding q [⟨TypeName.flattened d.typeName, d.typeName, x⟩] [d] q' := by
  obtain ⟨_, _, _, _, hb⟩ := exists_renders hr hb
  exact hb.flattened hd

lemma Rendered.mem_all {c : Copy} {b : Block} (h : Rendered index source root c b) :
    b ∈ root.all := by
  induction h with
  | root => exact root.self_mem_all
  | nested _ hm ih =>
    exact Block.child_mem_all ih (List.mem_append_left _ (List.of_mem_zip hm).2)
  | flattened _ he _ ih => exact Block.child_mem_all ih (List.mem_append_right _ he)

variable {files : List ProtoFile}

def Copy.DefinedIn (files : List ProtoFile) (c : Copy) : Prop :=
  ∀ m, c.definition = .message m → (c.typeName, m) ∈ definedMessages files

lemma definedIn_ofMessage {file : ProtoFile} (hf : file ∈ files) {m : Message}
    (hm : m ∈ file.messages) : (Copy.ofMessage file.scope m).DefinedIn files := by
  intro n hn
  cases hn
  exact top_mem_definedMessages hf hm

lemma Copy.DefinedIn.nested {c d : Copy} (hc : c.DefinedIn files) (hd : d ∈ c.nested) :
    d.DefinedIn files := by
  obtain ⟨name, s, definition⟩ := c
  cases definition with
  | message m =>
    rcases List.mem_append.mp hd with hd | hd
    · obtain ⟨n, hn, rfl⟩ := List.mem_map.mp hd
      intro k hk
      cases hk
      exact nested_mem_definedMessages (hc m rfl) hn
    · obtain ⟨e, _, rfl⟩ := List.mem_map.mp hd
      intro k hk
      cases hk
  | enumeration e => cases hd

lemma Rendered.definedIn (hs : source.DefinedIn files) {c : Copy} {b : Block}
    (h : Rendered (.ofFiles files) source root c b) : c.DefinedIn files := by
  induction h with
  | root => exact hs
  | nested _ hm ih => exact ih.nested (List.of_mem_zip hm).1
  | @flattened c b e d _ _ hd _ =>
    intro m hm
    obtain rfl : d = .message m := hm
    exact TypeIndex.mem_of_message? (TypeIndex.definition?_eq_message.mp hd).2

end TopicSchema.Schema
