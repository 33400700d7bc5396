import TopicSchema.Proofs.Schema.Provenance

namespace TopicSchema.Schema

def Block.key (b : Block) : TypeKind × String :=
  (b.kind, b.typeName)

def Placed (seen : List String) : List Block → Prop
  | [] => True
  | b :: bs => b.flattened.map Block.key = fresh seen b.references ∧
    Placed (after seen b.references) bs

variable {index : TypeIndex} {encoding : Encoding} {placed placed' : List String}

lemma after_nil (seen : List String) : after seen [] = seen := by
  simp [after, fresh]

lemma placed_append (seen : List String) (bs cs : List Block) :
    Placed seen (bs ++ cs) ↔
      Placed seen bs ∧ Placed (after seen (bs.flatMap Block.references)) cs := by
  induction bs generalizing seen with
  | nil => simp [Placed, after_nil]
  | cons b bs ih =>
    rw [List.cons_append, Placed, ih, Placed, List.flatMap_cons, after_append, and_assoc]

lemma Renders.keys {owed : List Owed} {blocks : List Block}
    (h : Renders index encoding placed (owed.map Copy.ofOwed) blocks placed') :
    blocks.map Block.key = owed.map Owed.key := by
  have hk := congrArg (List.map fun (x : TypeKind × String × String) => (x.1, x.2.2)) h.heads
  simp only [List.map_map] at hk
  exact hk

theorem Renders.placement {copies : List Copy} {blocks : List Block}
    (h : Renders index encoding placed copies blocks placed') :
    placed' = after placed ((Block.allOf blocks).flatMap Block.references) ∧
      Placed placed (Block.allOf blocks) := by
  induction h with
  | nil => exact ⟨(after_nil _).symm, trivial⟩
  | @enumeration p p' name typeName e copies blocks _ ih =>
    have ha : Block.allOf (enumerationBlock name typeName e :: blocks) =
        enumerationBlock name typeName e :: Block.allOf blocks := rfl
    have hr : (enumerationBlock name typeName e).references = [] := rfl
    rw [ha, List.flatMap_cons, hr, List.nil_append, Placed, hr, after_nil]
    exact ⟨ih.1, rfl, ih.2⟩
  | @message p p₁ p₂ p' name typeName m lines owed copies inner flattened blocks hl hi hf _ ihi ihf
      ih =>
    let b := Block.message name typeName lines inner flattened
    have ho := (fieldLines_eq_ok hl).2.1
    have hb : Renders index encoding p [⟨name, typeName, .message m⟩] [b] p₂ :=
      .message hl hi hf .nil
    have ha : Block.allOf (b :: blocks) =
        b :: (Block.allOf inner ++ Block.allOf flattened) ++ Block.allOf blocks := rfl
    have hr : b.references = m.fields.filterMap (external? encoding typeName) := hb.references_eq
    have hp : p ++ owed.map (·.typeName) = after p b.references := by
      rw [hr, after, ← ho, List.map_map]
      rfl
    have hd : b.flattened.map Block.key = fresh p b.references := by
      rw [hr, ← ho]
      exact hf.keys
    -- the order of the text: the own lines, then what is nested, then what the lines owe
    rw [hp] at ihi
    obtain ⟨hi₁, hi₂⟩ := ihi
    obtain ⟨hf₁, hf₂⟩ := ihf
    obtain ⟨h₁, h₂⟩ := ih
    subst hi₁ hf₁
    change _ = after p ((Block.allOf (b :: blocks)).flatMap Block.references) ∧
      Placed p (Block.allOf (b :: blocks))
    rw [ha]
    constructor
    · simp only [List.cons_append, List.flatMap_cons, List.flatMap_append, after_append, h₁]
    · rw [List.cons_append, Placed, placed_append, placed_append, List.flatMap_append,
        after_append]
      exact ⟨hd, ⟨hi₂, hf₂⟩, h₂⟩

namespace Block

def allReferences (root : Block) : List (TypeKind × String) :=
  root.all.flatMap references

def definitions (root : Block) : List Block :=
  root.all.flatMap flattened

def OneKind (root : Block) : Prop :=
  ∀ r ∈ root.allReferences, ∀ r' ∈ root.allReferences, r.2 = r'.2 → r.1 = r'.1

def firstKind (root : Block) (typeName : String) : Option TypeKind :=
  (root.allReferences.find? (·.2 = typeName)).map (·.1)

end Block

def FirstReference (root a : Block) (typeName : String) : Prop :=
  ∃ before rest, root.all = before ++ a :: rest ∧
    typeName ∉ (before.flatMap Block.references).map Prod.snd ∧
    typeName ∈ a.references.map Prod.snd

lemma Placed.keys {seen : List String} {bs : List Block} (h : Placed seen bs) :
    (bs.flatMap Block.flattened).map Block.key = fresh seen (bs.flatMap Block.references) := by
  induction bs generalizing seen with
  | nil => rfl
  | cons b bs ih =>
    rw [List.flatMap_cons, List.map_append, h.1, ih h.2, List.flatMap_cons, fresh_append]

variable {source : Copy} {root : Block}

lemma Renders.root_placed (h : Renders index encoding placed [source] [root] placed') :
    Placed placed root.all := by
  have hp := h.placement.2
  rwa [Block.allOf, Block.allOf, List.append_nil] at hp

lemma key_mem_references (h : Renders index encoding [] [source] [root] placed) {a d : Block}
    (ha : a ∈ root.all) (hd : d ∈ a.flattened) : d.key ∈ a.references := by
  obtain ⟨before, rest, hs⟩ := List.append_of_mem ha
  have hp := h.root_placed
  rw [hs, placed_append] at hp
  have hk : d.key ∈ a.flattened.map Block.key := List.mem_map_of_mem hd
  rw [hp.2.1] at hk
  exact List.mem_of_find?_eq_some (mem_fresh.mp hk).2

lemma definitions_keys (h : Renders index encoding [] [source] [root] placed) :
    root.definitions.map Block.key = fresh [] root.allReferences :=
  h.root_placed.keys

lemma definitions_typeNames (h : Renders index encoding [] [source] [root] placed) :
    root.definitions.map (·.typeName) = (fresh [] root.allReferences).map Prod.snd := by
  rw [← definitions_keys h, List.map_map]
  rfl

lemma nodup_definitions (h : Renders index encoding [] [source] [root] placed) :
    (root.definitions.map (·.typeName)).Nodup := by
  rw [definitions_typeNames h]
  exact nodup_fresh _ _

lemma mem_definitions_typeNames (h : Renders index encoding [] [source] [root] placed)
    {typeName : String} :
    typeName ∈ root.definitions.map (·.typeName) ↔
      typeName ∈ root.allReferences.map Prod.snd := by
  rw [definitions_typeNames h, mem_map_fresh]
  simp

lemma firstKind_eq (h : Renders index encoding [] [source] [root] placed) {d : Block}
    (hd : d ∈ root.definitions) : root.firstKind d.typeName = some d.kind := by
  have hk : d.key ∈ fresh [] root.allReferences := by
    rw [← definitions_keys h]
    exact List.mem_map_of_mem hd
  exact congrArg (Option.map (·.1)) (mem_fresh.mp hk).2

lemma exists_definition_of_oneKind (h : Renders index encoding [] [source] [root] placed)
    (hone : root.OneKind) {kind : TypeKind} {t : String} (ht : (kind, t) ∈ root.allReferences) :
    ∃ a d, a ∈ root.all ∧ d ∈ a.flattened ∧ d.kind = kind ∧ d.typeName = t := by
  obtain ⟨d, hd, rfl⟩ :=
    List.mem_map.mp ((mem_definitions_typeNames h).mpr (List.mem_map_of_mem ht))
  obtain ⟨a, ha, hda⟩ := List.mem_flatMap.mp hd
  -- its kind is that of the first reference
  have hf := firstKind_eq h hd
  rw [Block.firstKind] at hf
  obtain ⟨⟨k, t⟩, hr, rfl : k = d.kind⟩ := Option.map_eq_some_iff.mp hf
  obtain rfl : t = d.typeName := by simpa using List.find?_some hr
  exact ⟨a, d, ha, hda, hone _ (List.mem_of_find?_eq_some hr) _ ht rfl, rfl⟩

theorem mem_flattened_iff (h : Renders index encoding [] [source] [root] placed) {a : Block}
    {typeName : String} :
    (a ∈ root.all ∧ typeName ∈ a.flattened.map (·.typeName)) ↔
      FirstReference root a typeName := by
  have key : ∀ before rest, root.all = before ++ a :: rest →
      (typeName ∈ a.flattened.map (·.typeName) ↔
        typeName ∉ (before.flatMap Block.references).map Prod.snd ∧
          typeName ∈ a.references.map Prod.snd) := by
    intro before rest hs
    have hp := h.root_placed
    rw [hs, placed_append] at hp
    have ht : a.flattened.map (·.typeName) = (a.flattened.map Block.key).map Prod.snd := by
      rw [List.map_map]
      rfl
    rw [ht, hp.2.1, mem_map_fresh, mem_after]
    simp
  constructor
  · rintro ⟨ha, ht⟩
    obtain ⟨before, rest, hs⟩ := List.append_of_mem ha
    obtain ⟨hb, hr⟩ := (key before rest hs).mp ht
    exact ⟨before, rest, hs, hb, hr⟩
  · rintro ⟨before, rest, hs, hb, hr⟩
    exact ⟨by simp [hs], (key before rest hs).mpr ⟨hb, hr⟩⟩

end TopicSchema.Schema
