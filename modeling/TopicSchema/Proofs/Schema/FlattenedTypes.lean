import TopicSchema.Proofs.Schema.FaithfulBlocks

namespace TopicSchema.Schema

def Row.announced? : Row → Option Block
  | gap _ d => some d
  | _ => none

lemma Row.announced?_eq_some {row : Row} {d : Block} :
    row.announced? = some d ↔ ∃ b, row = .gap b d := by
  cases row <;> simp [Row.announced?]

def announcedIn (rows : List (Nat × Row)) : List Block :=
  rows.filterMap (·.2.announced?)

lemma announcedIn_append (xs ys : List (Nat × Row)) :
    announcedIn (xs ++ ys) = announcedIn xs ++ announcedIn ys :=
  List.filterMap_append

lemma announcedIn_map {α : Type} {f : α → Nat × Row} (h : ∀ a, (f a).2.announced? = none)
    (l : List α) : announcedIn (l.map f) = [] := by
  simp [announcedIn, List.filterMap_map, h]

lemma announcedIn_flatMap {α : Type} (f : α → List (Nat × Row)) (l : List α) :
    announcedIn (l.flatMap f) = l.flatMap fun a => announcedIn (f a) :=
  List.filterMap_flatMap

lemma definitions_allOf (bs : List Block) :
    (Block.allOf bs).flatMap Block.flattened = bs.flatMap Block.definitions := by
  induction bs with
  | nil => rfl
  | cons b bs ih => rw [Block.allOf, List.flatMap_append, ih, List.flatMap_cons, Block.definitions]

lemma definitions_eq (b : Block) :
    b.definitions = b.flattened ++
      (b.nested.flatMap Block.definitions ++ b.flattened.flatMap Block.definitions) := by
  rw [Block.definitions, Block.all_eq, List.flatMap_cons, definitions_allOf, Block.children,
    List.flatMap_append]

theorem announcedIn_rows (b : Block) (depth : Nat) :
    (announcedIn (b.rows depth)).Perm b.definitions := by
  induction b using Block.children_induction generalizing depth with
  | h b ih =>
    have hf : announcedIn (b.fields.map fun f => (depth, Row.field b f)) = [] :=
      announcedIn_map (fun _ => rfl) _
    have hv : announcedIn (b.values.map fun v => (depth, Row.value b v)) = [] :=
      announcedIn_map (fun _ => rfl) _
    have hn : (b.nested.flatMap fun c => announcedIn (c.rows (depth + 1))).Perm
        (b.nested.flatMap Block.definitions) :=
      List.Perm.flatMap_left _ fun c hc => ih c (List.mem_append_left _ hc) _
    have hd : (b.flattened.flatMap fun d => d :: announcedIn (d.rows (depth + 1))).Perm
        (b.flattened ++ b.flattened.flatMap Block.definitions) := by
      have hp := List.flatMap_append_perm b.flattened (fun d => [d]) Block.definitions
      rw [List.flatMap_singleton'] at hp
      refine List.Perm.trans (List.Perm.flatMap_left _ fun d hd => ?_) hp.symm
      exact (ih d (List.mem_append_right _ hd) _).cons d
    have hrows : announcedIn (b.rows depth) =
        b.nested.flatMap (fun c => announcedIn (c.rows (depth + 1))) ++
          b.flattened.flatMap fun d => d :: announcedIn (d.rows (depth + 1)) := by
      rw [Block.rows_eq, Block.layout]
      simp only [announcedIn_append, announcedIn_flatMap, hf, hv]
      simp [announcedIn, Row.announced?]
    -- the rows have what is nested first, and each definition before those in it
    rw [hrows, definitions_eq]
    refine (hn.append hd).trans ?_
    exact List.perm_append_comm_assoc _ _ _

/-- Line `i` of the root is the blank one before the flattened definition `d`. -/
def FlattenedAt (root : Block) (i : Nat) (d : Block) : Prop :=
  ∃ depth b, (root.rows 0)[i]? = some (depth, .gap b d)

variable {root : Block}

lemma flattenedAt_iff {i : Nat} {d : Block} :
    FlattenedAt root i d ↔ ∃ p, (root.rows 0)[i]? = some p ∧ p.2.announced? = some d := by
  constructor
  · rintro ⟨depth, b, h⟩
    exact ⟨_, h, rfl⟩
  · rintro ⟨⟨depth, row⟩, h, hd⟩
    obtain ⟨b, rfl⟩ := Row.announced?_eq_some.mp hd
    exact ⟨depth, b, h⟩

lemma mem_definitions_iff {d : Block} :
    d ∈ root.definitions ↔ ∃ i, FlattenedAt root i d := by
  rw [← (announcedIn_rows root 0).mem_iff, announcedIn, List.mem_filterMap]
  constructor
  · rintro ⟨p, hp, hd⟩
    obtain ⟨i, hi⟩ := List.mem_iff_getElem?.mp hp
    exact ⟨i, flattenedAt_iff.mpr ⟨p, hi, hd⟩⟩
  · rintro ⟨i, hi⟩
    obtain ⟨p, hp, hd⟩ := flattenedAt_iff.mp hi
    exact ⟨p, List.mem_of_getElem? hp, hd⟩

lemma place_unique {α β : Type} {l : List α} {g : α → Option β} (h : (l.filterMap g).Nodup)
    {i j : Nat} {a b : α} {x : β} (hi : l[i]? = some a) (hj : l[j]? = some b) (ha : g a = some x)
    (hb : g b = some x) : i = j := by
  rw [List.Nodup, List.pairwise_filterMap, List.pairwise_iff_getElem] at h
  obtain ⟨hil, rfl⟩ := List.getElem?_eq_some_iff.mp hi
  obtain ⟨hjl, rfl⟩ := List.getElem?_eq_some_iff.mp hj
  rcases Nat.lt_trichotomy i j with hlt | heq | hgt
  · exact absurd rfl (h i j hil hjl hlt x ha x hb)
  · exact heq
  · exact absurd rfl (h j i hjl hil hgt x hb x ha)

lemma FlattenedAt.unique (h : (root.definitions.map (·.typeName)).Nodup) {i j : Nat}
    {d e : Block} (hd : FlattenedAt root i d) (he : FlattenedAt root j e)
    (ht : d.typeName = e.typeName) : i = j := by
  have hn := (((announcedIn_rows root 0).map (·.typeName)).nodup_iff).mpr h
  rw [announcedIn, List.map_filterMap] at hn
  obtain ⟨p, hp, hd⟩ := flattenedAt_iff.mp hd
  obtain ⟨q, hq, he⟩ := flattenedAt_iff.mp he
  have hd : p.2.announced?.map (·.typeName) = some d.typeName := by rw [hd, Option.map_some]
  have he : q.2.announced?.map (·.typeName) = some d.typeName := by rw [he, ht, Option.map_some]
  exact place_unique hn hp hq hd he

lemma FlattenedAt.shown {i : Nat} {d : Block} (h : FlattenedAt root i d) (dialect : Dialect) :
    ∃ depth, d.shown dialect depth <+: (root.shown dialect 0).drop (i + 1) := by
  obtain ⟨depth, b, h⟩ := h
  obtain ⟨hi, he⟩ := List.getElem?_eq_some_iff.mp h
  have hs : root.rows 0 =
      (root.rows 0).take i ++ (depth, .gap b d) :: (root.rows 0).drop (i + 1) := by
    rw [← he, ← List.drop_eq_getElem_cons hi, List.take_append_drop]
  have ha := announced_rows root 0
  rw [hs] at ha
  refine ⟨depth, ?_⟩
  rw [Block.shown, Block.shown, ← List.map_drop]
  exact ha.of_append.map _

lemma shown_eq_nil_iff {dialect : Dialect} {i : Nat} :
    (root.shown dialect 0)[i]? = some [] ↔ ∃ d, FlattenedAt root i d := by
  rw [Block.shown, List.getElem?_map, Option.map_eq_some_iff]
  constructor
  · rintro ⟨⟨depth, row⟩, hp, hnil⟩
    obtain ⟨b, d, rfl⟩ := Row.shown_eq_nil.mp hnil
    exact ⟨d, depth, b, hp⟩
  · rintro ⟨d, depth, b, hp⟩
    exact ⟨_, hp, rfl⟩

lemma allReferences_eq (root : Block) :
    root.allReferences =
      (fieldRows (root.rows 0)).filterMap fun p => p.2.external? p.1.typeName := by
  rw [fieldRows_rows, fieldsOf, List.filterMap_flatMap, Block.allReferences]
  refine List.flatMap_congr fun b _ => ?_
  rw [Block.references, List.filterMap_map]
  rfl

/-- What is flattened in a schema, and where. The lines are counted from the first of the root. -/
structure Closed (index : TypeIndex) (options : Options) (source : Copy) (root : Block) :
    Prop where
  order : root.allReferences =
    (fieldRows (root.rows 0)).filterMap fun p => p.2.external? p.1.typeName
  blank : ∀ i, (root.shown options.dialect 0)[i]? = some [] ↔ ∃ d, FlattenedAt root i d
  placed : ∀ d, d ∈ root.definitions ↔ ∃ i, FlattenedAt root i d
  once : ∀ t, Required index options.encoding source root t →
    ∃! i, ∃ d, FlattenedAt root i d ∧ d.typeName = t
  only : ∀ i d, FlattenedAt root i d → Required index options.encoding source root d.typeName
  definition : ∀ i d, FlattenedAt root i d →
    (∃ depth, d.shown options.dialect depth <+: (root.shown options.dialect 0).drop (i + 1)) ∧
      root.firstKind d.typeName = some d.kind ∧
      ∃ definition, index.definition? d.kind d.typeName = some definition ∧
        Faithful options ⟨TypeName.flattened d.typeName, d.typeName, definition⟩ d
  copies : ∀ outer b, Within root outer b →
    b.shown options.dialect outer.length <:+: root.shown options.dialect 0 ∧
      ∃ c, Rendered index source root c b
  references : ∀ outer c b, Within root outer b → Rendered index source root c b →
    ∀ i f, c.fields[i]? = some f → ∀ kind t, External options.encoding c.typeName f kind t →
      (b.shown options.dialect outer.length)[i + 1]? =
        some (blanks (outer.length + 1) ++
          (statement options.dialect f.label (TypeName.flattened t) f.name f.number).toList)

variable {index : TypeIndex} {options : Options} {source : Copy} {placed : List String}

theorem closed (hr : Renders index options.encoding [] [source] [root] placed) :
    Closed index options source root where
  order := allReferences_eq root
  blank _ := shown_eq_nil_iff
  placed _ := mem_definitions_iff
  once t ht := by
    obtain ⟨d, hd, rfl⟩ := List.mem_map.mp
      ((mem_definitions_typeNames hr).mpr ((mem_allReferences_iff hr).mpr ht))
    obtain ⟨i, hi⟩ := mem_definitions_iff.mp hd
    refine ⟨i, ⟨d, hi, rfl⟩, ?_⟩
    rintro j ⟨e, he, ht⟩
    exact he.unique (nodup_definitions hr) hi ht
  only i d hi := by
    have hd : d.typeName ∈ root.definitions.map (·.typeName) :=
      List.mem_map_of_mem (mem_definitions_iff.mpr ⟨i, hi⟩)
    exact (mem_allReferences_iff hr).mp ((mem_definitions_typeNames hr).mp hd)
  definition i d hi := by
    have hd := mem_definitions_iff.mpr ⟨i, hi⟩
    obtain ⟨b, hb, he⟩ := List.mem_flatMap.mp hd
    obtain ⟨definition, hx, _, _, hd'⟩ := flattened_renders hr hb he
    exact ⟨hi.shown _, firstKind_eq hr hd, definition, hx, hd'.faithful⟩
  copies outer b hw := ⟨hw.shown _, exists_rendered hr hw.mem_all⟩
  references outer c b _ hc i f hf kind t ht := by
    obtain ⟨_, _, hq⟩ := hc.renders hr
    have hline : b.fields[i]? = some (writtenLine options.encoding c.typeName f) := by
      rw [hq.fields_eq, List.getElem?_map, hf]
      rfl
    rw [Block.shown_field hline, writtenLine, reference_eq_external.mpr ht]
    rfl

theorem flattened_closure {files : List ProtoFile} {file : ProtoFile} {text : String}
    (h : compile (.ofFiles files) options file = .ok text) :
    ∃ source root, IsSchema (.ofFiles files) options file text source root ∧
      Shows (namesIn (file :: files)) options.dialect text root ∧
      Closed (.ofFiles files) options source root := by
  obtain ⟨source, root, hs⟩ := exists_isSchema h
  obtain ⟨placed, hr⟩ := hs.renders
  exact ⟨source, root, hs, hs.shows, closed hr⟩

theorem flattened_closure_node :
    ∃ file ∈ nodeFiles, ∃ text, compile (.ofFiles nodeFiles) {} file = .ok text ∧
      ∃ source root, IsSchema (.ofFiles nodeFiles) {} file text source root ∧
        Text.pieces '\n' text.toList = shownLines .proto2 root ++ [[]] ∧
        Closed (.ofFiles nodeFiles) {} source root := by
  have hn : ∀ name ∈ namesIn (nodeFiles.head! :: nodeFiles), OneLine name := by decide +kernel
  obtain ⟨source, root, hs, hshows, hc⟩ := flattened_closure
    (show compile (.ofFiles nodeFiles) {} nodeFiles.head! = .ok _ from rfl)
  exact ⟨_, List.mem_cons_self, _, rfl, source, root, hs, hshows.cut hn, hc⟩

end TopicSchema.Schema
