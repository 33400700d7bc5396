import Mathlib.Logic.Relation
import TopicSchema.Proofs.Schema.Placement

namespace TopicSchema.Schema

namespace Copy

def Refers (encoding : Encoding) (c : Copy) (kind : TypeKind) (typeName : String) : Prop :=
  ∃ f ∈ c.fields, External encoding c.typeName f kind typeName

def Holds (c d : Copy) : Prop :=
  Relation.ReflTransGen (fun a b => b ∈ a.nested) c d

end Copy

/-- What the message and the messages in it refer to, and what these types refer to in turn, where
the first reference to them is one to a message. -/
inductive Required (index : TypeIndex) (encoding : Encoding) (source : Copy) (root : Block) :
    String → Prop
  | direct {c : Copy} {kind : TypeKind} {typeName : String} : source.Holds c →
      c.Refers encoding kind typeName → Required index encoding source root typeName
  | through {m : Message} {c : Copy} {kind : TypeKind} {t typeName : String} :
      Required index encoding source root t → root.firstKind t = some .message →
      index.message? t = some m →
      Copy.Holds ⟨TypeName.flattened t, t, .message m⟩ c →
      c.Refers encoding kind typeName → Required index encoding source root typeName

variable {index : TypeIndex} {encoding : Encoding} {placed placed' : List String}
variable {source : Copy} {root : Block}

lemma Renders.mem_references {c : Copy} {b : Block}
    (h : Renders index encoding placed [c] [b] placed') {kind : TypeKind} {typeName : String} :
    (kind, typeName) ∈ b.references ↔ c.Refers encoding kind typeName := by
  rw [h.references_eq, List.mem_filterMap]
  simp only [external?_eq_some, Copy.Refers]

lemma Rendered.required (hr : Renders index encoding [] [source] [root] placed) {c : Copy}
    {b : Block} (h : Rendered index source root c b) {d : Copy} (hd : c.Holds d)
    {kind : TypeKind} {typeName : String} (ht : d.Refers encoding kind typeName) :
    Required index encoding source root typeName := by
  induction h generalizing d kind typeName with
  | root => exact .direct hd ht
  | nested _ hm ih => exact ih (Relation.ReflTransGen.head (List.of_mem_zip hm).1 hd) ht
  | @flattened c b e definition hc he hi ih =>
    have hb := hc.mem_all
    obtain ⟨q, q', hq⟩ := hc.renders hr
    have hreq : Required index encoding source root e.typeName :=
      ih .refl (hq.mem_references.mp (key_mem_references hr hb he))
    have hfirst := firstKind_eq hr (List.mem_flatMap.mpr ⟨b, hb, he⟩)
    cases definition with
    | message m =>
      have hkind : e.kind = .message := (TypeIndex.kind_eq hi).symm
      rw [hkind] at hi hfirst
      obtain ⟨m', hm, he'⟩ := Option.map_eq_some_iff.mp hi
      cases he'
      exact .through hreq hfirst hm hd ht
    | enumeration en =>
      -- nothing is nested in an enumeration, and it has no fields
      rcases Relation.ReflTransGen.cases_head hd with rfl | ⟨_, hn, _⟩
      · obtain ⟨f, hf, _⟩ := ht
        cases hf
      · cases hn

lemma Rendered.exists_holds (hr : Renders index encoding [] [source] [root] placed) {c d : Copy}
    {b : Block} (h : Rendered index source root c b) (hd : c.Holds d) :
    ∃ e, Rendered index source root d e := by
  induction hd with
  | refl => exact ⟨b, h⟩
  | tail _ hn ih =>
    obtain ⟨e, he⟩ := ih
    obtain ⟨e', _, he'⟩ := he.exists_nested hr hn
    exact ⟨e', he'⟩

lemma reference_mem_iff (hr : Renders index encoding [] [source] [root] placed) {kind : TypeKind}
    {t : String} : (kind, t) ∈ root.allReferences ↔
      ∃ c b, Rendered index source root c b ∧ c.Refers encoding kind t := by
  constructor
  · intro h
    obtain ⟨b, hb, hm⟩ := List.mem_flatMap.mp h
    obtain ⟨c, hc, _, _, hq⟩ := exists_renders hr hb
    exact ⟨c, b, hc, hq.mem_references.mp hm⟩
  · rintro ⟨c, b, hc, ht⟩
    obtain ⟨_, _, hq⟩ := hc.renders hr
    exact List.mem_flatMap.mpr ⟨b, hc.mem_all, hq.mem_references.mpr ht⟩

lemma Rendered.mem_allReferences (hr : Renders index encoding [] [source] [root] placed)
    {c d : Copy} {b : Block} (h : Rendered index source root c b) (hd : c.Holds d)
    {kind : TypeKind} {typeName : String} (ht : d.Refers encoding kind typeName) :
    typeName ∈ root.allReferences.map Prod.snd := by
  obtain ⟨e, he⟩ := h.exists_holds hr hd
  exact List.mem_map_of_mem ((reference_mem_iff hr).mpr ⟨d, e, he, ht⟩)

lemma Required.mem_allReferences (hr : Renders index encoding [] [source] [root] placed)
    {typeName : String} (h : Required index encoding source root typeName) :
    typeName ∈ root.allReferences.map Prod.snd := by
  induction h with
  | direct hd ht => exact Rendered.root.mem_allReferences hr hd ht
  | @through m c kind t typeName _ hfirst hm hd ht ih =>
    obtain ⟨d, hd', rfl : d.typeName = t⟩ :=
      List.mem_map.mp ((mem_definitions_typeNames hr).mpr ih)
    have hk : d.kind = .message := by
      rw [firstKind_eq hr hd'] at hfirst
      exact Option.some.inj hfirst
    have hi : index.definition? d.kind d.typeName = some (.message m) := by
      rw [hk, TypeIndex.definition?, hm]
      rfl
    obtain ⟨b, hb, he⟩ := List.mem_flatMap.mp hd'
    obtain ⟨c', hc'⟩ := exists_rendered hr hb
    exact (hc'.flattened he hi).mem_allReferences hr hd ht

lemma exists_refers (hr : Renders index encoding [] [source] [root] placed) {typeName : String}
    (h : typeName ∈ root.allReferences.map Prod.snd) :
    ∃ c b kind, Rendered index source root c b ∧ c.Refers encoding kind typeName := by
  obtain ⟨⟨kind, t⟩, ht, rfl⟩ := List.mem_map.mp h
  obtain ⟨c, b, hc, ht⟩ := (reference_mem_iff hr).mp ht
  exact ⟨c, b, kind, hc, ht⟩

theorem mem_allReferences_iff (hr : Renders index encoding [] [source] [root] placed)
    {typeName : String} :
    typeName ∈ root.allReferences.map Prod.snd ↔
      Required index encoding source root typeName := by
  constructor
  · intro h
    obtain ⟨c, b, kind, hc, ht⟩ := exists_refers hr h
    exact hc.required hr .refl ht
  · exact Required.mem_allReferences hr

end TopicSchema.Schema
