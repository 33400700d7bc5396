import TopicSchema.Proofs.Definitions
import TopicSchema.Proofs.Schema.Closure

/-! What a name written in a field line stands for when it is searched from the block of the line
outwards, and when it stands for the type that the field names. -/

namespace TopicSchema.Schema

def resolve (scopes : List Block) (name : String) : Option Block :=
  scopes.findSome? fun b => b.children.find? (·.name = name)

def SelfContained (root : Block) : Prop :=
  ∀ outer b, Within root outer b → ∀ line ∈ b.fields, ∀ kind written t,
    line.type = .named kind written t → (resolve (b :: outer) written).isSome

def NoCapture (root : Block) : Prop :=
  ∀ outer b, Within root outer b → ∀ line ∈ b.fields, ∀ kind written t,
    line.type = .named kind written t →
      ∀ d, resolve (b :: outer) written = some d → d.typeName = t

/-- The block of a message declares the types nested in the message, and the types from elsewhere
that its own fields are the first in the text to refer to. -/
inductive Declares (index : TypeIndex) (source : Copy) (root a : Block) : String → String → Prop
  | nested {c d : Copy} : Rendered index source root c a → d ∈ c.nested →
      Declares index source root a d.name d.typeName
  | flattened {t : String} : FirstReference root a t →
      Declares index source root a (TypeName.flattened t) t

lemma resolve_append (inner outer : List Block) (name : String) :
    resolve (inner ++ outer) name = (resolve inner name).or (resolve outer name) :=
  List.findSome?_append

lemma resolve_cons (a : Block) (outer : List Block) (name : String) :
    resolve (a :: outer) name = (a.children.find? (·.name = name)).or (resolve outer name) := by
  rw [resolve, List.findSome?_cons]
  cases a.children.find? (·.name = name) <;> rfl

lemma resolve_eq_some {scopes : List Block} {name : String} {d : Block}
    (h : resolve scopes name = some d) :
    ∃ inner a outer, scopes = inner ++ a :: outer ∧ resolve inner name = none ∧
      a.children.find? (·.name = name) = some d := by
  obtain ⟨inner, a, outer, hs, ha, hi⟩ := List.findSome?_eq_some_iff.mp h
  exact ⟨inner, a, outer, hs, List.findSome?_eq_none_iff.mpr hi, ha⟩

lemma resolve_isSome {scopes : List Block} {name : String} :
    (resolve scopes name).isSome ↔ ∃ a ∈ scopes, ∃ d ∈ a.children, d.name = name := by
  simp [resolve]

lemma Within.of_append {root a b : Block} {outer inner rest : List Block}
    (h : Within root outer b) (hs : b :: outer = inner ++ a :: rest) : Within root rest a := by
  induction h generalizing inner with
  | root =>
    cases inner with
    | nil =>
      cases hs
      exact .root
    | cons i inner => simp at hs
  | @child outer b c hb hc ih =>
    cases inner with
    | nil =>
      cases hs
      exact .child hb hc
    | cons i inner =>
      rw [List.cons_append, List.cons.injEq] at hs
      exact ih hs.2

variable {index : TypeIndex} {encoding : Encoding} {placed placed' : List String}
variable {source : Copy} {root : Block}

lemma Renders.nested_typeName {c : Copy} {b e : Block}
    (h : Renders index encoding placed [c] [b] placed') (he : e ∈ b.nested) :
    e.typeName = TypeName.qualify b.typeName e.name := by
  obtain ⟨d, hm, _, _, hd⟩ := h.exists_source he
  obtain ⟨_, hname, htype⟩ := hd.head_eq
  rw [hname, htype, h.head_eq.2.2]
  obtain ⟨name, scope, definition⟩ := c
  cases definition with
  | message m =>
    rcases List.mem_append.mp (List.of_mem_zip hm).1 with hd | hd
    · obtain ⟨n, _, rfl⟩ := List.mem_map.mp hd
      rfl
    · obtain ⟨e, _, rfl⟩ := List.mem_map.mp hd
      rfl
  | enumeration e => cases (List.of_mem_zip hm).1

theorem declares_iff (hr : Renders index encoding [] [source] [root] placed) {a : Block}
    (ha : a ∈ root.all) {name t : String} :
    Declares index source root a name t ↔ ∃ e ∈ a.children, e.name = name ∧ e.typeName = t := by
  obtain ⟨c, hc, _, _, hq⟩ := exists_renders hr ha
  constructor
  · intro h
    cases h with
    | nested hc hd =>
      obtain ⟨e, he, hd⟩ := hc.exists_nested hr hd
      obtain ⟨_, _, hq⟩ := hd.renders hr
      exact ⟨e, List.mem_append_left _ he, hq.head_eq.2⟩
    | flattened hf =>
      obtain ⟨e, he, rfl⟩ := List.mem_map.mp ((mem_flattened_iff hr).mpr hf).2
      exact ⟨e, List.mem_append_right _ he, hq.flattened_name he, rfl⟩
  · rintro ⟨e, he, rfl, rfl⟩
    rcases List.mem_append.mp he with he | he
    · obtain ⟨d, hm, _, _, hd⟩ := hq.exists_source he
      obtain ⟨_, hname, htype⟩ := hd.head_eq
      rw [hname, htype]
      exact .nested hc (List.of_mem_zip hm).1
    · rw [hq.flattened_name he]
      exact .flattened ((mem_flattened_iff hr).mp ⟨ha, List.mem_map_of_mem he⟩)

lemma Within.mem_scopes {b : Block} {outer : List Block} (h : Within root outer b) :
    ∀ a ∈ b :: outer, a ∈ root.all := by
  intro a ha
  rcases List.mem_cons.mp ha with rfl | ha
  · exact h.mem_all
  · exact h.outer_mem_all ha

lemma resolve_isSome_iff (hr : Renders index encoding [] [source] [root] placed)
    {scopes : List Block} (hs : ∀ a ∈ scopes, a ∈ root.all) {name : String} :
    (resolve scopes name).isSome ↔ ∃ a ∈ scopes, ∃ t, Declares index source root a name t := by
  rw [resolve_isSome]
  constructor
  · rintro ⟨a, ha, d, hd, hn⟩
    exact ⟨a, ha, d.typeName, (declares_iff hr (hs a ha)).mpr ⟨d, hd, hn, rfl⟩⟩
  · rintro ⟨a, ha, t, ht⟩
    obtain ⟨d, hd, hn, _⟩ := (declares_iff hr (hs a ha)).mp ht
    exact ⟨a, ha, d, hd, hn⟩

lemma resolve_declares (hr : Renders index encoding [] [source] [root] placed)
    {scopes : List Block} (hs : ∀ a ∈ scopes, a ∈ root.all) {name : String} {d : Block}
    (h : resolve scopes name = some d) :
    ∃ inner a rest, scopes = inner ++ a :: rest ∧ resolve inner name = none ∧
      Declares index source root a name d.typeName := by
  obtain ⟨inner, a, rest, rfl, hi, hf⟩ := resolve_eq_some h
  have hname : d.name = name := by simpa using List.find?_some hf
  exact ⟨inner, a, rest, rfl, hi,
    (declares_iff hr (hs a (by simp))).mpr ⟨d, List.mem_of_find?_eq_some hf, hname, rfl⟩⟩

theorem selfContained_iff {options : Options} {file : ProtoFile} {text : String}
    (h : compile index options file = .ok text) :
    ∃ source root, IsSchema index options file text source root ∧
      (SelfContained root ↔ ∀ outer b, Within root outer b → ∀ line ∈ b.fields,
        ∀ kind written t, line.type = .named kind written t →
          ∃ a ∈ b :: outer, ∃ t', Declares index source root a written t') := by
  obtain ⟨source, root, hs⟩ := exists_isSchema h
  obtain ⟨placed, hr⟩ := hs.renders
  refine ⟨source, root, hs, ?_⟩
  constructor
  · intro hc outer b hw line hl kind written t ht
    exact (resolve_isSome_iff hr hw.mem_scopes).mp (hc outer b hw line hl kind written t ht)
  · intro hd outer b hw line hl kind written t ht
    exact (resolve_isSome_iff hr hw.mem_scopes).mpr (hd outer b hw line hl kind written t ht)

def siblingFiles : List ProtoFile :=
  [⟨"m.proto", "p",
    [⟨"M", [], [⟨"A", [⟨"x", 1, .optional, .named .message ".e.T"⟩], [], []⟩,
      ⟨"B", [⟨"y", 1, .optional, .named .message ".e.T"⟩], [], []⟩], []⟩], []⟩,
    ⟨"e.proto", "e", [⟨"T", [], [], []⟩], []⟩]

def siblingSchema : Block :=
  .message "M" ".p.M" []
    [.message "A" ".p.M.A" [⟨.optional, .named .message "ET" ".e.T", "x", 1⟩] []
        [.message "ET" ".e.T" [] [] []],
      .message "B" ".p.M.B" [⟨.optional, .named .message "ET" ".e.T", "y", 1⟩] [] []]
    []

theorem selfContained_iff_siblings :
    ∃ file ∈ siblingFiles, ∃ text, compile (.ofFiles siblingFiles) {} file = .ok text ∧
      ∃ source root, IsSchema (.ofFiles siblingFiles) {} file text source root ∧
        (SelfContained root ↔ ∀ outer b, Within root outer b → ∀ line ∈ b.fields,
          ∀ kind written t, line.type = .named kind written t →
            ∃ a ∈ b :: outer, ∃ t', Declares (.ofFiles siblingFiles) source root a written t') :=
  ⟨_, List.mem_cons_self, _, rfl, selfContained_iff rfl⟩

theorem siblings_not_selfContained :
    UniqueNames siblingFiles ∧ AllDefined siblingFiles ∧
      ∃ file ∈ siblingFiles, ∃ text source, compile (.ofFiles siblingFiles) {} file = .ok text ∧
        IsSchema (.ofFiles siblingFiles) {} file text source siblingSchema ∧
        ¬ SelfContained siblingSchema := by
  refine ⟨by decide +kernel, by decide +kernel, _, List.mem_cons_self, _, _, rfl,
    ⟨_, _, rfl, rfl, rfl, rfl⟩, ?_⟩
  intro h
  have hb : Within siblingSchema [siblingSchema]
      (.message "B" ".p.M.B" [⟨.optional, .named .message "ET" ".e.T", "y", 1⟩] [] []) :=
    .child .root (by simp [siblingSchema, Block.children, Block.nested])
  have hr := h _ _ hb _ List.mem_cons_self .message "ET" ".e.T" rfl
  exact absurd hr (by decide)

lemma exists_line (hr : Renders index encoding [] [source] [root] placed) {a e : Block}
    (ha : a ∈ root.all) (he : e ∈ a.flattened) :
    ∃ line ∈ a.fields, ∃ kind, line.type = .named kind e.name e.typeName := by
  obtain ⟨c, hc, _, _, hq⟩ := exists_renders hr ha
  obtain ⟨_, _, _, _, hm⟩ := (mem_flattened_iff hr).mp ⟨ha, List.mem_map_of_mem he⟩
  obtain ⟨⟨kind, t⟩, hm, rfl : t = e.typeName⟩ := List.mem_map.mp hm
  obtain ⟨f, hf, hx⟩ := hq.mem_references.mp hm
  have hl : writtenLine encoding c.typeName f ∈ a.fields := by
    rw [hq.fields_eq]
    exact List.mem_map_of_mem hf
  refine ⟨_, hl, kind, ?_⟩
  rw [hq.flattened_name he, writtenLine, reference_eq_external.mpr hx]
  rfl

lemma NoCapture.finds (hn : NoCapture root)
    (hr : Renders index encoding [] [source] [root] placed) {a : Block} {outer : List Block}
    (hw : Within root outer a) {name t : String} (ht : Declares index source root a name t) :
    ∃ d, a.children.find? (·.name = name) = some d ∧ d.typeName = t := by
  obtain ⟨c, _, _, _, hq⟩ := exists_renders hr hw.mem_all
  obtain ⟨e, he, rfl, rfl⟩ := (declares_iff hr hw.mem_all).mp ht
  have hsome : (a.children.find? (·.name = e.name)).isSome :=
    List.find?_isSome.mpr ⟨e, he, by simp⟩
  obtain ⟨d, hd⟩ := Option.isSome_iff_exists.mp hsome
  refine ⟨d, hd, ?_⟩
  rcases List.mem_append.mp he with he | he
  · -- the nested types come first, and two of them with one name are the same type
    have hf : (a.nested.find? (·.name = e.name)).isSome :=
      List.find?_isSome.mpr ⟨e, he, by simp⟩
    rw [Block.children, List.find?_append, Option.or_of_isSome hf] at hd
    have hname : d.name = e.name := by simpa using List.find?_some hd
    rw [hq.nested_typeName (List.mem_of_find?_eq_some hd), hname, hq.nested_typeName he]
  · -- one of the lines of the block itself names the flattened type
    obtain ⟨line, hl, kind, hk⟩ := exists_line hr hw.mem_all he
    refine hn outer a hw line hl kind _ _ hk d ?_
    rw [resolve_cons, hd, Option.some_or]

theorem noCapture_iff {options : Options} {file : ProtoFile} {text : String}
    (h : compile index options file = .ok text) :
    ∃ source root, IsSchema index options file text source root ∧
      (NoCapture root ↔ ∀ outer b, Within root outer b → ∀ line ∈ b.fields,
        ∀ kind written t, line.type = .named kind written t →
          ∀ inner a rest, b :: outer = inner ++ a :: rest →
            ∀ t', Declares index source root a written t' →
              t' = t ∨ ∃ i ∈ inner, Declares index source root i written t) := by
  obtain ⟨source, root, hs⟩ := exists_isSchema h
  obtain ⟨placed, hr⟩ := hs.renders
  refine ⟨source, root, hs, ?_⟩
  constructor
  · intro hn outer b hw line hl kind written t ht inner a rest hsplit t' ha
    have hfound := hn outer b hw line hl kind written t ht
    rw [hsplit, resolve_append] at hfound
    cases hi : resolve inner written with
    | some d =>
      have hs : ∀ i ∈ inner, i ∈ root.all := fun i hi =>
        hw.mem_scopes i (hsplit ▸ List.mem_append_left _ hi)
      rw [hi] at hfound
      obtain ⟨inner', i, rest', hsplit', _, hdi⟩ := resolve_declares hr hs hi
      rw [hfound d rfl] at hdi
      exact Or.inr ⟨i, by simp [hsplit'], hdi⟩
    | none =>
      obtain ⟨d, hd, rfl⟩ := hn.finds hr (hw.of_append hsplit) ha
      rw [hi, Option.none_or, resolve_cons, hd, Option.some_or] at hfound
      exact Or.inl (hfound d rfl)
  · intro hd outer b hw line hl kind written t ht d hfound
    obtain ⟨inner, a, rest, hsplit, hi, ha⟩ := resolve_declares hr hw.mem_scopes hfound
    rcases hd outer b hw line hl kind written t ht inner a rest hsplit _ ha with
      he | ⟨i, him, hdi⟩
    · exact he
    · -- then the name would have been found before `a`
      have hs : ∀ i ∈ inner, i ∈ root.all := fun i hi =>
        hw.mem_scopes i (hsplit ▸ List.mem_append_left _ hi)
      have hsome := (resolve_isSome_iff hr hs).mpr ⟨i, him, t, hdi⟩
      rw [hi] at hsome
      cases hsome

def shadowFiles : List ProtoFile :=
  [⟨"m.proto", "", [⟨"M", [⟨"x", 1, .optional, .named .message ".Foo"⟩], [],
      [⟨"Foo", [⟨"BAR", 0⟩]⟩]⟩], []⟩,
    ⟨"foo.proto", "", [⟨"Foo", [], [], []⟩], []⟩]

def shadowSchema : Block :=
  .message "M" ".M" [⟨.optional, .named .message "Foo" ".Foo", "x", 1⟩]
    [.enumeration "Foo" ".M.Foo" [⟨"BAR", 0⟩]] [.message "Foo" ".Foo" [] [] []]

theorem noCapture_iff_shadow :
    ∃ file ∈ shadowFiles, ∃ text, compile (.ofFiles shadowFiles) {} file = .ok text ∧
      ∃ source root, IsSchema (.ofFiles shadowFiles) {} file text source root ∧
        (NoCapture root ↔ ∀ outer b, Within root outer b → ∀ line ∈ b.fields,
          ∀ kind written t, line.type = .named kind written t →
            ∀ inner a rest, b :: outer = inner ++ a :: rest →
              ∀ t', Declares (.ofFiles shadowFiles) source root a written t' →
                t' = t ∨
                  ∃ i ∈ inner, Declares (.ofFiles shadowFiles) source root i written t) :=
  ⟨_, List.mem_cons_self, _, rfl, noCapture_iff rfl⟩

theorem shadow_captures :
    UniqueNames shadowFiles ∧
      ∃ file ∈ shadowFiles, ∃ text source, compile (.ofFiles shadowFiles) {} file = .ok text ∧
        IsSchema (.ofFiles shadowFiles) {} file text source shadowSchema ∧
        (shadowSchema.definitions.map (·.name)).Nodup ∧ ¬ NoCapture shadowSchema := by
  refine ⟨by decide +kernel, _, List.mem_cons_self, _, _, rfl,
    ⟨_, _, rfl, rfl, rfl, rfl⟩, by decide +kernel, ?_⟩
  intro h
  have hd := h _ _ .root _ List.mem_cons_self .message "Foo" ".Foo" rfl _ rfl
  exact absurd hd (by decide)

end TopicSchema.Schema
