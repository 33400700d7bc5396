import Mathlib.Data.List.Nodup
import Mathlib.Data.List.Pairwise
import TopicSchema.Proofs.Schema.Placement

/-! When the enumerations in one block of a schema have a value name in common. The names of values
are in the scope that contains the enumeration, so that flattening moves them as well. -/

namespace TopicSchema

def Enumeration.valueNames (e : Enumeration) : List String :=
  e.values.map (·.name)

def enumerationScopes (files : List ProtoFile) : List (String × List Enumeration) :=
  (files.map fun f =>
    (f.scope, (files.filter (·.package = f.package)).flatMap (·.enumerations))) ++
    (definedMessages files).map fun d => (d.1, d.2.enumerations)

def UniqueValues (files : List ProtoFile) : Prop :=
  ∀ scope ∈ enumerationScopes files, (scope.2.flatMap (·.valueNames)).Nodup

instance (files : List ProtoFile) : Decidable (UniqueValues files) :=
  inferInstanceAs (Decidable (∀ scope ∈ enumerationScopes files, List.Nodup _))

def Siblings (files : List ProtoFile) (t t' : String) : Prop :=
  t ≠ t' ∧ ∃ scope ∈ enumerationScopes files,
    t ∈ (enumerationsAt scope.1 scope.2).map Prod.fst ∧
      t' ∈ (enumerationsAt scope.1 scope.2).map Prod.fst

variable {files : List ProtoFile}

lemma mem_definedEnumerations {t : String} {e : Enumeration} :
    (t, e) ∈ definedEnumerations files ↔
      ∃ scope ∈ enumerationScopes files, (t, e) ∈ enumerationsAt scope.1 scope.2 := by
  constructor
  · intro h
    obtain ⟨f, hf, h⟩ := List.mem_flatMap.mp h
    rcases List.mem_append.mp h with h | h
    · rw [Message.enumerationsOf_eq] at h
      obtain ⟨m, hm, h⟩ := List.mem_flatMap.mp h
      obtain ⟨d, hd, he⟩ := exists_message_of_mem_enumerationsIn h
      have hd := mem_definedMessages.mpr ⟨f, hf, m, hm, hd⟩
      exact ⟨_, List.mem_append_right _ (List.mem_map_of_mem hd), he⟩
    · obtain ⟨e', he, heq⟩ := List.mem_map.mp h
      refine ⟨_, List.mem_append_left _ (List.mem_map_of_mem hf), List.mem_map.mpr ⟨e', ?_, heq⟩⟩
      exact List.mem_flatMap.mpr ⟨f, by simp [hf], he⟩
  · rintro ⟨scope, hs, h⟩
    obtain ⟨e', he, heq⟩ := List.mem_map.mp h
    rcases List.mem_append.mp hs with hs | hs
    · obtain ⟨f, _, rfl⟩ := List.mem_map.mp hs
      obtain ⟨g, hg, he⟩ := List.mem_flatMap.mp he
      obtain ⟨hg, hp⟩ := List.mem_filter.mp hg
      have hscope : g.scope = f.scope := by
        simp only [decide_eq_true_eq] at hp
        rw [ProtoFile.scope, ProtoFile.scope, hp]
      refine List.mem_flatMap.mpr ⟨g, hg, List.mem_append_right _ ?_⟩
      exact List.mem_map.mpr ⟨e', he, hscope ▸ heq⟩
    · obtain ⟨d, hd, rfl⟩ := List.mem_map.mp hs
      cases heq
      exact nested_mem_definedEnumerations hd he

lemma disjoint_of_nodup_flatMap {α β : Type} {f : α → List β} {l : List α}
    (h : (l.flatMap f).Nodup) {a b : α} (ha : a ∈ l) (hb : b ∈ l) (hne : a ≠ b) :
    (f a).Disjoint (f b) := by
  have : Std.Symm (Function.onFun List.Disjoint f) := ⟨fun _ _ h => List.disjoint_symm h⟩
  exact (List.nodup_flatMap.mp h).2.forall ha hb hne

lemma UniqueValues.nodup (hv : UniqueValues files) {t : String} {e : Enumeration}
    (h : (t, e) ∈ definedEnumerations files) : e.valueNames.Nodup := by
  obtain ⟨scope, hs, h⟩ := mem_definedEnumerations.mp h
  obtain ⟨e', he, heq⟩ := List.mem_map.mp h
  cases heq
  exact (List.nodup_flatMap.mp (hv scope hs)).1 e he

lemma Siblings.disjoint (hu : UniqueNames files) (hv : UniqueValues files) {t t' : String}
    (h : Siblings files t t') {e e' : Enumeration} (he : (t, e) ∈ definedEnumerations files)
    (he' : (t', e') ∈ definedEnumerations files) : e.valueNames.Disjoint e'.valueNames := by
  obtain ⟨hne, scope, hs, ht, ht'⟩ := h
  -- the names are unique, so `e` and `e'` are the enumerations of this scope
  have unique {t : String} {e : Enumeration} (he : (t, e) ∈ definedEnumerations files)
      (ht : t ∈ (enumerationsAt scope.1 scope.2).map Prod.fst) :
      e ∈ scope.2 ∧ t = TypeName.qualify scope.1 e.name := by
    obtain ⟨⟨_, e₁⟩, he₁, rfl⟩ := List.mem_map.mp ht
    have hd := mem_definedEnumerations.mpr ⟨scope, hs, he₁⟩
    rw [← TypeIndex.enumeration?_eq_some_iff hu] at he hd
    obtain rfl : e₁ = e := Option.some.inj (hd.symm.trans he)
    obtain ⟨e₂, he₂, heq⟩ := List.mem_map.mp he₁
    cases heq
    exact ⟨he₂, rfl⟩
  obtain ⟨hm, rfl⟩ := unique he ht
  obtain ⟨hm', rfl⟩ := unique he' ht'
  refine disjoint_of_nodup_flatMap (hv scope hs) hm hm' ?_
  rintro rfl
  exact hne rfl

namespace Schema

def Block.valueNames : Block → List String
  | .message .. => []
  | .enumeration _ _ values => values.map (·.name)

def DistinctValues (root : Block) : Prop :=
  ∀ b ∈ root.all, (b.children.flatMap Block.valueNames).Nodup

def HasOwn (index : TypeIndex) (source : Copy) (root b : Block) (t : String)
    (e : Enumeration) : Prop :=
  ∃ name s m, Rendered index source root ⟨name, s, .message m⟩ b ∧ e ∈ m.enumerations ∧
    t = TypeName.qualify s e.name

def HasMoved (index : TypeIndex) (root b : Block) (t : String) (e : Enumeration) : Prop :=
  FirstReference root b t ∧ root.firstKind t = some .enumeration ∧ index.enumeration? t = some e

variable {index : TypeIndex} {encoding : Encoding} {placed placed' : List String}
variable {source : Copy} {root : Block}

def Copy.valueNames : Copy → List String
  | ⟨_, _, .message _⟩ => []
  | ⟨_, _, .enumeration e⟩ => e.valueNames

lemma Renders.valueNames {copies : List Copy} {blocks : List Block}
    (h : Renders index encoding placed copies blocks placed') :
    blocks.flatMap Block.valueNames = copies.flatMap Copy.valueNames := by
  induction h with
  | nil => rfl
  | enumeration _ ih => rw [List.flatMap_cons, List.flatMap_cons, ih]; rfl
  | message _ _ _ _ _ _ ih => rw [List.flatMap_cons, List.flatMap_cons, ih]; rfl

lemma Renders.head_valueNames {c : Copy} {b : Block}
    (h : Renders index encoding placed [c] [b] placed') : b.valueNames = c.valueNames := by
  have hv := h.valueNames
  simpa only [List.flatMap_cons, List.flatMap_nil, List.append_nil] using hv

lemma Renders.nested_valueNames {name s : String} {m : Message} {b : Block}
    (h : Renders index encoding placed [⟨name, s, .message m⟩] [b] placed') :
    b.nested.flatMap Block.valueNames = m.enumerations.flatMap (·.valueNames) := by
  obtain ⟨_, _, hn⟩ := h.nested
  have hm : (m.messages.map (Copy.ofMessage s)).flatMap Copy.valueNames = [] :=
    List.flatMap_eq_nil_iff.mpr fun c hc => by
      obtain ⟨n, _, rfl⟩ := List.mem_map.mp hc
      rfl
  rw [hn.valueNames, Copy.nested, List.flatMap_append, hm, List.nil_append, List.flatMap_map]
  rfl

lemma mem_nested_valueNames (hr : Renders index encoding [] [source] [root] placed) {b : Block}
    (hb : b ∈ root.all) {x : String} :
    x ∈ b.nested.flatMap Block.valueNames ↔
      ∃ t e, HasOwn index source root b t e ∧ x ∈ e.valueNames := by
  constructor
  · intro hx
    obtain ⟨⟨name, s, definition⟩, hc, _, _, hq⟩ := exists_renders hr hb
    cases definition with
    | message m =>
      rw [hq.nested_valueNames] at hx
      obtain ⟨e, he, hx⟩ := List.mem_flatMap.mp hx
      exact ⟨_, e, ⟨name, s, m, hc, he, rfl⟩, hx⟩
    | enumeration e =>
      obtain rfl := hq.of_enumeration
      cases hx
  · rintro ⟨t, e, ⟨name, s, m, hc, he, _⟩, hx⟩
    obtain ⟨_, _, hq⟩ := hc.renders hr
    rw [hq.nested_valueNames]
    exact List.mem_flatMap.mpr ⟨e, he, hx⟩

lemma exists_hasMoved (hr : Renders index encoding [] [source] [root] placed) {b d : Block}
    (hb : b ∈ root.all) (hd : d ∈ b.flattened) (hne : d.valueNames ≠ []) :
    ∃ e, HasMoved index root b d.typeName e ∧ d.valueNames = e.valueNames := by
  obtain ⟨definition, hi, _, _, hq⟩ := flattened_renders hr hb hd
  have hv := hq.head_valueNames
  have hf := firstKind_eq hr (List.mem_flatMap.mpr ⟨b, hb, hd⟩)
  cases definition with
  | message m => exact absurd hv hne
  | enumeration e =>
    obtain ⟨hk, he⟩ := TypeIndex.definition?_eq_enumeration.mp hi
    have hfirst := (mem_flattened_iff hr).mp ⟨hb, List.mem_map_of_mem hd⟩
    exact ⟨e, ⟨hfirst, hk ▸ hf, he⟩, hv⟩

lemma HasMoved.exists_block (hr : Renders index encoding [] [source] [root] placed) {b : Block}
    {t : String} {e : Enumeration} (h : HasMoved index root b t e) :
    ∃ d ∈ b.flattened, d.typeName = t ∧ d.valueNames = e.valueNames := by
  obtain ⟨hf, hk, he⟩ := h
  obtain ⟨hb, ht⟩ := (mem_flattened_iff hr).mpr hf
  obtain ⟨d, hd, rfl⟩ := List.mem_map.mp ht
  obtain ⟨definition, hi, _, _, hq⟩ := flattened_renders hr hb hd
  rw [firstKind_eq hr (List.mem_flatMap.mpr ⟨b, hb, hd⟩), Option.some.injEq] at hk
  cases hi.symm.trans (TypeIndex.definition?_eq_enumeration.mpr ⟨hk, he⟩)
  exact ⟨d, hd, rfl, hq.head_valueNames⟩

lemma nodup_flattened (hr : Renders index encoding [] [source] [root] placed) {b : Block}
    (hb : b ∈ root.all) : (b.flattened.map (·.typeName)).Nodup := by
  have hn := nodup_definitions hr
  rw [Block.definitions, List.map_flatMap] at hn
  exact (List.nodup_flatMap.mp hn).1 b hb

lemma HasOwn.mem (hs : source.DefinedIn files) {b : Block} {t : String} {e : Enumeration}
    (h : HasOwn (.ofFiles files) source root b t e) : (t, e) ∈ definedEnumerations files := by
  obtain ⟨name, s, m, hc, he, rfl⟩ := h
  exact nested_mem_definedEnumerations (hc.definedIn hs m rfl) he

lemma HasMoved.mem {b : Block} {t : String} {e : Enumeration}
    (h : HasMoved (.ofFiles files) root b t e) : (t, e) ∈ definedEnumerations files :=
  TypeIndex.mem_of_enumeration? h.2.2

lemma nodup_nested_valueNames (hv : UniqueValues files) (hs : source.DefinedIn files)
    (hr : Renders (.ofFiles files) encoding [] [source] [root] placed) {b : Block}
    (hb : b ∈ root.all) : (b.nested.flatMap Block.valueNames).Nodup := by
  obtain ⟨⟨name, s, definition⟩, hc, _, _, hq⟩ := exists_renders hr hb
  cases definition with
  | message m =>
    rw [hq.nested_valueNames]
    have hm := hc.definedIn hs m rfl
    exact hv (s, m.enumerations) (List.mem_append_right _ (List.mem_map.mpr ⟨(s, m), hm, rfl⟩))
  | enumeration e =>
    obtain rfl := hq.of_enumeration
    exact List.nodup_nil

lemma nodup_valueNames_iff (hu : UniqueNames files) (hv : UniqueValues files)
    (hs : source.DefinedIn files)
    (hr : Renders (.ofFiles files) encoding [] [source] [root] placed) {b : Block}
    (hb : b ∈ root.all) :
    (b.children.flatMap Block.valueNames).Nodup ↔
      ∀ t e, HasMoved (.ofFiles files) root b t e → ∀ t' e',
        (HasOwn (.ofFiles files) source root b t' e' ∨
          t' ≠ t ∧ HasMoved (.ofFiles files) root b t' e') →
        ¬ Siblings files t t' → e.valueNames.Disjoint e'.valueNames := by
  rw [Block.children, List.flatMap_append, List.nodup_append]
  constructor
  · rintro ⟨_, hf, hd⟩ t e he t' e' he' _
    obtain ⟨d, hdf, rfl, hde⟩ := he.exists_block hr
    rcases he' with he' | ⟨hne, he'⟩
    · intro x hx hx'
      have hn := (mem_nested_valueNames hr hb).mpr ⟨t', e', he', hx'⟩
      exact hd x hn x (List.mem_flatMap.mpr ⟨d, hdf, hde ▸ hx⟩) rfl
    · obtain ⟨d', hdf', rfl, hde'⟩ := he'.exists_block hr
      rw [← hde, ← hde']
      refine disjoint_of_nodup_flatMap hf hdf hdf' ?_
      rintro rfl
      exact hne rfl
  · intro h
    -- siblings have different value names wherever they are moved
    have disjoint {t t' : String} {e e' : Enumeration}
        (he : HasMoved (.ofFiles files) root b t e)
        (he' : HasOwn (.ofFiles files) source root b t' e' ∨
          t' ≠ t ∧ HasMoved (.ofFiles files) root b t' e') :
        e.valueNames.Disjoint e'.valueNames := by
      by_cases hsib : Siblings files t t'
      · have hm' : (t', e') ∈ definedEnumerations files := by
          rcases he' with he' | ⟨_, he'⟩
          · exact he'.mem hs
          · exact he'.mem
        exact hsib.disjoint hu hv he.mem hm'
      · exact h t e he t' e' he' hsib
    have hn := nodup_flattened hr hb
    refine ⟨nodup_nested_valueNames hv hs hr hb, List.nodup_flatMap.mpr ⟨?_, ?_⟩, ?_⟩
    · intro d hd
      by_cases hne : d.valueNames = []
      · simp [hne]
      · obtain ⟨e, he, hde⟩ := exists_hasMoved hr hb hd hne
        rw [hde]
        exact hv.nodup he.mem
    · refine List.Nodup.pairwise_of_forall_ne hn.of_map fun d hd d' hd' hne x hx hx' => ?_
      obtain ⟨e, he, hde⟩ := exists_hasMoved hr hb hd (List.ne_nil_of_mem hx)
      obtain ⟨e', he', hde'⟩ := exists_hasMoved hr hb hd' (List.ne_nil_of_mem hx')
      have ht : d'.typeName ≠ d.typeName := fun ht =>
        hne (List.inj_on_of_nodup_map hn hd hd' ht.symm)
      exact disjoint he (Or.inr ⟨ht, he'⟩) (hde ▸ hx) (hde' ▸ hx')
    · rintro x hx _ hx' rfl
      obtain ⟨t', e', he', hxe'⟩ := (mem_nested_valueNames hr hb).mp hx
      obtain ⟨d, hd, hxd⟩ := List.mem_flatMap.mp hx'
      obtain ⟨e, he, hde⟩ := exists_hasMoved hr hb hd (List.ne_nil_of_mem hxd)
      exact disjoint he (Or.inl he') (hde ▸ hxd) hxe'

theorem distinctValues_iff (hu : UniqueNames files) (hv : UniqueValues files) {options : Options}
    {file : ProtoFile} (hf : file ∈ files) {text : String}
    (h : compile (.ofFiles files) options file = .ok text) :
    ∃ source root, IsSchema (.ofFiles files) options file text source root ∧
      (DistinctValues root ↔ ∀ b ∈ root.all, ∀ t e, HasMoved (.ofFiles files) root b t e →
        ∀ t' e', (HasOwn (.ofFiles files) source root b t' e' ∨
            t' ≠ t ∧ HasMoved (.ofFiles files) root b t' e') →
          ¬ Siblings files t t' → e.valueNames.Disjoint e'.valueNames) := by
  obtain ⟨source, root, hs⟩ := exists_isSchema h
  obtain ⟨placed, hr⟩ := hs.renders
  have hd : source.DefinedIn files := by
    obtain ⟨m, _, hm, rfl, _⟩ := hs
    exact definedIn_ofMessage hf (by simp [hm])
  refine ⟨source, root, hs, ?_⟩
  constructor
  · intro hn b hb
    exact (nodup_valueNames_iff hu hv hd hr hb).mp (hn b hb)
  · intro hn b hb
    exact (nodup_valueNames_iff hu hv hd hr hb).mpr (hn b hb)

def kindFiles : List ProtoFile :=
  [⟨"m.proto", "p",
    [⟨"M", [⟨"x", 1, .optional, .named .enumeration ".a.Kind"⟩,
      ⟨"y", 2, .optional, .named .enumeration ".b.Kind"⟩], [], []⟩], []⟩,
    ⟨"a.proto", "a", [], [⟨"Kind", [⟨"UNKNOWN", 0⟩]⟩]⟩,
    ⟨"b.proto", "b", [], [⟨"Kind", [⟨"UNKNOWN", 0⟩]⟩]⟩]

def kindSchema : Block :=
  .message "M" ".p.M"
    [⟨.optional, .named .enumeration "AKind" ".a.Kind", "x", 1⟩,
      ⟨.optional, .named .enumeration "BKind" ".b.Kind", "y", 2⟩]
    []
    [.enumeration "AKind" ".a.Kind" [⟨"UNKNOWN", 0⟩],
      .enumeration "BKind" ".b.Kind" [⟨"UNKNOWN", 0⟩]]

theorem distinctValues_iff_kind :
    UniqueNames kindFiles ∧ UniqueValues kindFiles ∧ ∃ file ∈ kindFiles, ∃ text,
      compile (.ofFiles kindFiles) {} file = .ok text ∧
      ∃ source root, IsSchema (.ofFiles kindFiles) {} file text source root ∧
        (DistinctValues root ↔ ∀ b ∈ root.all, ∀ t e, HasMoved (.ofFiles kindFiles) root b t e →
          ∀ t' e', (HasOwn (.ofFiles kindFiles) source root b t' e' ∨
              t' ≠ t ∧ HasMoved (.ofFiles kindFiles) root b t' e') →
            ¬ Siblings kindFiles t t' → e.valueNames.Disjoint e'.valueNames) := by
  have hu : UniqueNames kindFiles := by decide +kernel
  have hv : UniqueValues kindFiles := by decide +kernel
  exact ⟨hu, hv, _, List.mem_cons_self, _, rfl, distinctValues_iff hu hv List.mem_cons_self rfl⟩

theorem kind_not_distinctValues :
    UniqueNames kindFiles ∧ UniqueValues kindFiles ∧ ∃ file ∈ kindFiles, ∃ text source,
      compile (.ofFiles kindFiles) {} file = .ok text ∧
      IsSchema (.ofFiles kindFiles) {} file text source kindSchema ∧
      ¬ DistinctValues kindSchema := by
  refine ⟨by decide +kernel, by decide +kernel, _, List.mem_cons_self, _, _, rfl,
    ⟨_, _, rfl, rfl, rfl, rfl⟩, ?_⟩
  intro h
  have hn := h kindSchema kindSchema.self_mem_all
  exact absurd hn (by decide)

end Schema

end TopicSchema
