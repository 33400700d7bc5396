import TopicSchema.Proofs.Schema.Closure
import TopicSchema.Proofs.Schema.Outcome

namespace TopicSchema

def FieldType.named? : FieldType → Option (TypeKind × String)
  | .scalar _ => none
  | .named kind typeName => some (kind, typeName)

def namedTypes (files : List ProtoFile) : List (TypeKind × String) :=
  (definedMessages files).flatMap fun d => d.2.fields.filterMap (·.type.named?)

def OneKind (files : List ProtoFile) : Prop :=
  ∀ r ∈ namedTypes files, ∀ r' ∈ namedTypes files, r.2 = r'.2 → r.1 = r'.1

instance (files : List ProtoFile) : Decidable (OneKind files) :=
  inferInstanceAs (Decidable (∀ r ∈ namedTypes files, ∀ r' ∈ namedTypes files, _))

lemma mem_namedTypes {files : List ProtoFile} {s : String} {m : Message}
    (hm : (s, m) ∈ definedMessages files) {f : Field} (hf : f ∈ m.fields) {kind : TypeKind}
    {t : String} (ht : f.type = .named kind t) : (kind, t) ∈ namedTypes files := by
  refine List.mem_flatMap.mpr ⟨(s, m), hm, List.mem_filterMap.mpr ⟨f, hf, ?_⟩⟩
  rw [ht]
  rfl

namespace Schema

variable {files : List ProtoFile} {index : TypeIndex} {encoding : Encoding}
variable {placed placed' : List String} {source : Copy} {root : Block}

lemma fieldLine_own {scope : String} {f : Field} {r : FieldLine × Option Owed}
    (h : fieldLine index encoding scope placed f = .ok r) {kind : TypeKind} {t : String}
    (hr : reference encoding scope f.type = .own kind t) :
    (index.definition? kind t).isSome := by
  simp only [fieldLine, hr] at h
  obtain ⟨d, hd, _⟩ := bind_eq_ok.mp h
  simp [TypeIndex.definition_eq_ok.mp hd]

lemma fieldLines_own {scope : String} {fields : List Field} {r : List FieldLine × List Owed}
    (h : fieldLines index encoding scope placed fields = .ok r) {f : Field} (hf : f ∈ fields)
    {kind : TypeKind} {t : String} (hr : reference encoding scope f.type = .own kind t) :
    (index.definition? kind t).isSome := by
  induction fields generalizing placed r with
  | nil => cases hf
  | cons g fields ih =>
    obtain ⟨⟨line, owed⟩, hl, h⟩ := bind_eq_ok.mp h
    obtain ⟨⟨lines, more⟩, hm, _⟩ := bind_eq_ok.mp h
    rcases List.mem_cons.mp hf with rfl | hf
    · exact fieldLine_own hl hr
    · exact ih hm hf

lemma Renders.own_defined {c : Copy} {b : Block}
    (h : Renders index encoding placed [c] [b] placed') {f : Field} (hf : f ∈ c.fields)
    {kind : TypeKind} {t : String} (hr : reference encoding c.typeName f.type = .own kind t) :
    (index.definition? kind t).isSome := by
  obtain ⟨name, s, definition⟩ := c
  cases definition with
  | message m =>
    obtain ⟨_, _, _, _, _, _, hl, _⟩ := h.of_message
    exact fieldLines_own hl hf hr
  | enumeration e => cases hf

def Mentions (index : TypeIndex) (encoding : Encoding) (scope : String) (root : Message)
    (kind : TypeKind) (t : String) : Prop :=
  ∃ s m, Reachable index encoding scope root s m ∧ ∃ f ∈ m.fields, External encoding s f kind t

def NamedInOneKind (index : TypeIndex) (encoding : Encoding) (scope : String) (root : Message) :
    Prop :=
  ∀ kind kind' t, Mentions index encoding scope root kind t →
    Mentions index encoding scope root kind' t → kind = kind'

section

variable {scope s : String} {m n : Message}

lemma Rendered.reachable
    (hr : Renders index encoding [] [Copy.ofMessage scope m] [root] placed) {c : Copy} {b : Block}
    (h : Rendered index (Copy.ofMessage scope m) root c b) (hn : c.definition = .message n) :
    Reachable index encoding scope m c.typeName n := by
  induction h generalizing n with
  | root =>
    cases hn
    exact .root
  | @nested c d b e _ hm ih =>
    obtain ⟨name, s, definition⟩ := c
    have hd : d ∈ Copy.nested ⟨name, s, definition⟩ := (List.of_mem_zip hm).1
    cases definition with
    | message k =>
      rcases List.mem_append.mp hd with hd | hd
      · obtain ⟨k', hk, rfl⟩ := List.mem_map.mp hd
        cases hn
        exact .nested (ih rfl) hk
      · obtain ⟨e', _, rfl⟩ := List.mem_map.mp hd
        cases hn
    | enumeration e' => cases hd
  | @flattened c b e d hc he hi ih =>
    cases hn
    obtain ⟨hkind, hk⟩ := TypeIndex.definition?_eq_message.mp hi
    obtain ⟨_, _, hq⟩ := hc.renders hr
    -- a field of the message around it names the type, and in the kind of the definition
    have hf : (e.kind, e.typeName) ∈ b.references := key_mem_references hr hc.mem_all he
    obtain ⟨f, hf, hx⟩ := hq.mem_references.mp hf
    obtain ⟨name, s, definition⟩ := c
    cases definition with
    | message k => exact .external (ih rfl) hf (hkind ▸ hx) hk
    | enumeration e' => cases hf

lemma mentions_of_reference (hr : Renders index encoding [] [Copy.ofMessage scope m] [root] placed)
    {kind : TypeKind} {t : String} (h : (kind, t) ∈ root.allReferences) :
    Mentions index encoding scope m kind t := by
  obtain ⟨c, b, hc, f, hf, hx⟩ := (reference_mem_iff hr).mp h
  obtain ⟨name, s, definition⟩ := c
  cases definition with
  | message n => exact ⟨s, n, hc.reachable hr rfl, f, hf, hx⟩
  | enumeration e => cases hf

lemma NamedInOneKind.oneKind (h : NamedInOneKind index encoding scope m)
    (hr : Renders index encoding [] [Copy.ofMessage scope m] [root] placed) : root.OneKind := by
  rintro ⟨kind, t⟩ hm ⟨kind', _⟩ hm' rfl
  exact h kind kind' t (mentions_of_reference hr hm) (mentions_of_reference hr hm')

lemma Rendered.exists_definition (hr : Renders index encoding [] [source] [root] placed)
    (hone : root.OneKind) {c : Copy} {b : Block} (h : Rendered index source root c b)
    {kind : TypeKind} {t : String} (ht : c.Refers encoding kind t) :
    ∃ a d, a ∈ root.all ∧ d ∈ a.flattened ∧ d.kind = kind ∧ d.typeName = t :=
  exists_definition_of_oneKind hr hone ((reference_mem_iff hr).mpr ⟨c, b, h, ht⟩)

lemma Reachable.exists_rendered
    (hr : Renders index encoding [] [Copy.ofMessage scope m] [root] placed)
    (hone : root.OneKind) (h : Reachable index encoding scope m s n) :
    ∃ name b, Rendered index (Copy.ofMessage scope m) root ⟨name, s, .message n⟩ b := by
  induction h with
  | root => exact ⟨_, _, .root⟩
  | @nested s n k _ hk ih =>
    obtain ⟨name, b, hc⟩ := ih
    have hd : Copy.ofMessage s k ∈ Copy.nested ⟨name, s, .message n⟩ :=
      List.mem_append_left _ (List.mem_map_of_mem hk)
    obtain ⟨e, _, he⟩ := hc.exists_nested hr hd
    exact ⟨_, _, he⟩
  | @external s t n k f _ hf hx hk ih =>
    obtain ⟨name, b, hc⟩ := ih
    obtain ⟨a, d, ha, hd, hkind, rfl⟩ := hc.exists_definition hr hone ⟨f, hf, hx⟩
    obtain ⟨c', hc'⟩ := Schema.exists_rendered hr ha
    refine ⟨_, d, .flattened hc' hd ?_⟩
    exact TypeIndex.definition?_eq_message.mpr ⟨hkind, hk⟩

lemma Rendered.names_defined (hr : Renders index encoding [] [source] [root] placed)
    (hone : root.OneKind) {c : Copy} {b : Block} (h : Rendered index source root c b) {f : Field}
    (hf : f ∈ c.fields) {kind : TypeKind} {t : String} (ht : Names encoding c.typeName f kind t) :
    (index.definition? kind t).isSome := by
  rcases ht.cases with ho | hx
  · obtain ⟨_, _, hc⟩ := h.renders hr
    exact hc.own_defined hf ho
  · obtain ⟨a, d, ha, hd, rfl, rfl⟩ := h.exists_definition hr hone ⟨f, hf, hx⟩
    obtain ⟨definition, hi, _⟩ := flattened_renders hr ha hd
    simp [hi]

lemma Reachable.mem_definedMessages
    (hm : (TypeName.qualify scope m.name, m) ∈ definedMessages files)
    (hn : Reachable (.ofFiles files) encoding scope m s n) : (s, n) ∈ definedMessages files := by
  induction hn with
  | root => exact hm
  | nested _ hk ih => exact nested_mem_definedMessages ih hk
  | external _ _ _ hi _ => exact TypeIndex.mem_of_message? hi

lemma namedInOneKind (hone : OneKind files)
    (hm : (TypeName.qualify scope m.name, m) ∈ definedMessages files) :
    NamedInOneKind (.ofFiles files) encoding scope m := by
  have hn : ∀ kind t, Mentions (.ofFiles files) encoding scope m kind t →
      (kind, t) ∈ namedTypes files := by
    rintro kind t ⟨s, n, hn, f, hf, hx⟩
    exact mem_namedTypes (hn.mem_definedMessages hm) hf hx.1
  exact fun kind kind' t h h' => hone _ (hn kind t h) _ (hn kind' t h') rfl

lemma Reachable.rendered
    (hr : Renders (.ofFiles files) encoding [] [Copy.ofMessage scope m] [root] placed)
    (hone : OneKind files) (hs : (Copy.ofMessage scope m).DefinedIn files)
    (h : Reachable (.ofFiles files) encoding scope m s n) :
    ∃ name b, Rendered (.ofFiles files) (Copy.ofMessage scope m) root ⟨name, s, .message n⟩ b :=
  h.exists_rendered hr ((namedInOneKind hone (hs m rfl)).oneKind hr)

lemma Rendered.defined
    (hr : Renders (.ofFiles files) encoding [] [Copy.ofMessage scope m] [root] placed)
    (hone : OneKind files) (hs : (Copy.ofMessage scope m).DefinedIn files) {c : Copy} {b : Block}
    (h : Rendered (.ofFiles files) (Copy.ofMessage scope m) root c b) {f : Field}
    (hf : f ∈ c.fields) {kind : TypeKind} {t : String}
    (ht : Names encoding c.typeName f kind t) :
    ((TypeIndex.ofFiles files).definition? kind t).isSome :=
  h.names_defined hr ((namedInOneKind hone (hs m rfl)).oneKind hr) hf ht

end

lemma compile_eq_shape {options : Options} {file : ProtoFile} (h : file.messages.length ≠ 1) :
    compile index options file = .error (.shape file.name file.messages.length) := by
  rw [compile]
  split
  · next m hm => simp [hm] at h
  · rfl

lemma compile_ends (index : TypeIndex) (options : Options) {file : ProtoFile} {m : Message}
    (hm : file.messages = [m]) :
    Ends (Undefined index options.encoding file.scope m) (fun _ => True)
      (compile index options file) := by
  rw [compile, hm]
  exact (rootBlock_ends index options.encoding file.scope m).bind fun _ _ => trivial

lemma compile_error {options : Options} {file : ProtoFile} {e : CompileError}
    (h : compile index options file = .error e) :
    (∃ t, e = .unresolvedType t) ∨
      file.messages.length ≠ 1 ∧ e = .shape file.name file.messages.length := by
  by_cases hl : file.messages.length = 1
  · obtain ⟨m, hm⟩ := List.length_eq_one_iff.mp hl
    have he := compile_ends index options hm
    rw [h] at he
    obtain ⟨t, _, rfl⟩ := he
    exact Or.inl ⟨t, rfl⟩
  · rw [compile_eq_shape hl] at h
    cases h
    exact Or.inr ⟨hl, rfl⟩

section

variable {options : Options} {file : ProtoFile} {m : Message}

lemma IsSchema.renders_message {text : String} (hs : IsSchema index options file text source root)
    (hm : file.messages = [m]) :
    ∃ placed, Renders index options.encoding [] [Copy.ofMessage file.scope m] [root] placed := by
  obtain ⟨m', placed, hm', rfl, hr, _⟩ := hs
  obtain rfl : m' = m := by simpa [hm'] using hm
  exact ⟨placed, rootBlock_renders hr⟩

lemma NamedInOneKind.accepted_iff (h : NamedInOneKind index options.encoding file.scope m)
    (hm : file.messages = [m]) :
    (∃ text, compile index options file = .ok text) ↔
      ∀ t, ¬ Undefined index options.encoding file.scope m t := by
  constructor
  · rintro ⟨text, hc⟩ t ⟨s, n, hn, f, hf, kind, ht, hu⟩
    obtain ⟨source, root, hs⟩ := exists_isSchema hc
    obtain ⟨placed, hr⟩ := hs.renders_message hm
    have hone : root.OneKind := h.oneKind hr
    obtain ⟨name, b, hb⟩ := hn.exists_rendered hr hone
    have hd := hb.names_defined hr hone hf ht
    simp [hu] at hd
  · intro hd
    have he := compile_ends index options hm
    cases hc : compile index options file with
    | ok text => exact ⟨text, rfl⟩
    | error e =>
      rw [hc] at he
      obtain ⟨t, ht, _⟩ := he
      exact absurd ht (hd t)

lemma NamedInOneKind.flattened_iff (h : NamedInOneKind index options.encoding file.scope m)
    (hm : file.messages = [m]) {text : String}
    (hs : IsSchema index options file text source root) {t : String} :
    t ∈ root.definitions.map (·.typeName) ↔
      ∃ kind, Mentions index options.encoding file.scope m kind t := by
  obtain ⟨placed, hr⟩ := hs.renders_message hm
  rw [mem_definitions_typeNames hr, List.mem_map]
  constructor
  · rintro ⟨⟨kind, t⟩, ht, rfl⟩
    exact ⟨kind, mentions_of_reference hr ht⟩
  · rintro ⟨kind, s, n, hn, f, hf, hx⟩
    obtain ⟨name, b, hc⟩ := hn.exists_rendered hr (h.oneKind hr)
    exact ⟨(kind, t), (reference_mem_iff hr).mpr ⟨_, b, hc, f, hf, hx⟩, rfl⟩

end

theorem compile_succeeds_iff (hone : OneKind files) (options : Options) {file : ProtoFile}
    (hf : file ∈ files) :
    (∀ m, file.messages = [m] →
      ((∃ text, compile (.ofFiles files) options file = .ok text) ↔
        ∀ s n, Reachable (.ofFiles files) options.encoding file.scope m s n →
          ∀ f ∈ n.fields, ∀ kind t, Names options.encoding s f kind t →
            ((TypeIndex.ofFiles files).definition? kind t).isSome) ∧
      ∀ e, compile (.ofFiles files) options file = .error e →
        ∃ t, e = .unresolvedType t ∧
          Undefined (.ofFiles files) options.encoding file.scope m t) ∧
    (file.messages.length ≠ 1 → ∀ index,
      compile index options file = .error (.shape file.name file.messages.length)) := by
  refine ⟨fun m hm => ⟨⟨?_, ?_⟩, ?_⟩, fun h index => compile_eq_shape h⟩
  · rintro ⟨text, h⟩ s n hn f hff kind t ht
    obtain ⟨source, root, hs⟩ := exists_isSchema h
    obtain ⟨placed, hr⟩ := hs.renders
    obtain ⟨m', _, hm', rfl, _⟩ := hs
    obtain rfl : m' = m := by simpa [hm'] using hm
    have hd : (Copy.ofMessage file.scope m').DefinedIn files :=
      definedIn_ofMessage hf (by simp [hm'])
    obtain ⟨name, b, hc⟩ := hn.rendered hr hone hd
    exact hc.defined hr hone hd hff ht
  · intro hd
    have he := compile_ends (.ofFiles files) options hm
    cases hc : compile (.ofFiles files) options file with
    | ok text => exact ⟨text, rfl⟩
    | error e =>
      rw [hc] at he
      obtain ⟨t, ⟨s, n, hn, f, hff, kind, ht, hu⟩, _⟩ := he
      have := hd s n hn f hff kind t ht
      simp [hu] at this
  · intro e hc
    have he := compile_ends (.ofFiles files) options hm
    rw [hc] at he
    obtain ⟨t, ht, rfl⟩ := he
    exact ⟨t, rfl, ht⟩

def goneFiles : List ProtoFile :=
  [⟨"a.proto", "p", [⟨"A", [⟨"b", 1, .optional, .named .message ".p.B"⟩], [], []⟩], []⟩,
    ⟨"b.proto", "p",
      [⟨"B", [⟨"gone", 1, .optional, .named .message ".q.Gone"⟩], [], []⟩, ⟨"C", [], [], []⟩], []⟩]

theorem compile_succeeds_iff_gone :
    OneKind goneFiles ∧ ∃ file ∈ goneFiles, ∃ m, file.messages = [m] ∧
      compile (.ofFiles goneFiles) {} file = .error (.unresolvedType ".q.Gone") ∧
      ((∃ text, compile (.ofFiles goneFiles) {} file = .ok text) ↔
        ∀ s n, Reachable (.ofFiles goneFiles) .binary file.scope m s n →
          ∀ f ∈ n.fields, ∀ kind t, Names .binary s f kind t →
            ((TypeIndex.ofFiles goneFiles).definition? kind t).isSome) ∧
      ∃ t, CompileError.unresolvedType ".q.Gone" = .unresolvedType t ∧
        Undefined (.ofFiles goneFiles) .binary file.scope m t := by
  have hone : OneKind goneFiles := by decide +kernel
  have hf : goneFiles.head! ∈ goneFiles := List.mem_cons_self
  have h := (compile_succeeds_iff hone {} hf).1 _ rfl
  exact ⟨hone, _, hf, _, rfl, rfl, h.1, h.2 _ rfl⟩

end Schema

end TopicSchema
