import TopicSchema.Proofs.Schema.ShownText

namespace TopicSchema.Schema

namespace Block

mutual

def bare : Block → Block
  | message name typeName fields nested _ => message name typeName fields (bareOf nested) []
  | enumeration name typeName values => enumeration name typeName values

def bareOf : List Block → List Block
  | [] => []
  | b :: bs => b.bare :: bareOf bs

end

def rename (name : String) : Block → Block
  | message _ typeName fields nested flattened => message name typeName fields nested flattened
  | enumeration _ typeName values => enumeration name typeName values

lemma bare_rename (name : String) (b : Block) : (b.rename name).bare = b.bare.rename name := by
  cases b <;> rfl

lemma bareOf_eq_map (bs : List Block) : bareOf bs = bs.map bare := by
  induction bs with
  | nil => rfl
  | cons b bs ih => rw [bareOf, ih, List.map_cons]

lemma bare_fields (b : Block) : b.bare.fields = b.fields := by
  cases b <;> rfl

lemma bare_values (b : Block) : b.bare.values = b.values := by
  cases b <;> rfl

lemma bare_flattened (b : Block) : b.bare.flattened = [] := by
  cases b <;> rfl

lemma bare_nested (b : Block) : b.bare.nested = b.nested.map bare := by
  cases b with
  | message name typeName fields nested flattened => exact bareOf_eq_map nested
  | enumeration name typeName values => rfl

lemma bare_openingText (b : Block) : b.bare.openingText = b.openingText := by
  cases b <;> rfl

lemma shown_bare (dialect : Dialect) (depth : Nat) (b : Block) :
    b.bare.shown dialect depth =
      (blanks depth ++ b.openingText.toList) ::
        b.fields.map (fun f => blanks (depth + 1) ++
          (statement dialect f.label f.type.word f.name f.number).toList) ++
        b.values.map (fun v => blanks (depth + 1) ++
          (v.name ++ " = " ++ toString v.number ++ ";").toList) ++
        b.nested.flatMap (·.bare.shown dialect (depth + 1)) ++
        [blanks depth ++ ['\x7d']] := by
  rw [shown_eq, bare_openingText, bare_fields, bare_values, bare_nested, bare_flattened]
  simp [List.flatMap_map]

lemma shown_bare_add (dialect : Dialect) (n depth : Nat) (b : Block) :
    b.bare.shown dialect (n + depth) = (b.bare.shown dialect depth).map (blanks n ++ ·) := by
  induction b using children_induction generalizing depth with
  | h b ih =>
    have hn : b.nested.flatMap (·.bare.shown dialect (n + depth + 1)) =
        (b.nested.flatMap (·.bare.shown dialect (depth + 1))).map (blanks n ++ ·) := by
      rw [List.map_flatMap]
      exact List.flatMap_congr fun c hc => ih c (List.mem_append_left _ hc) (depth + 1)
    rw [shown_bare, shown_bare, hn]
    simp [blanks_add, Nat.add_assoc, Function.comp_def]

lemma shown_rename (dialect : Dialect) (depth : Nat) (name : String) (b : Block) :
    ((b.rename name).shown dialect depth).tail = (b.shown dialect depth).tail := by
  rw [shown_eq, shown_eq]
  cases b <;> rfl

end Block

variable {index : TypeIndex} {options : Options} {encoding : Encoding}

lemma Renders.bareOf_eq {placed placed' q q' : List String} {copies : List Copy}
    {blocks blocks' : List Block} (h : Renders index encoding placed copies blocks placed')
    (h' : Renders index encoding q copies blocks' q') :
    Block.bareOf blocks = Block.bareOf blocks' := by
  induction h generalizing q blocks' q' with
  | nil =>
    cases h'
    rfl
  | enumeration _ ih =>
    cases h' with
    | enumeration h' => simp only [Block.bareOf, ih h']
  | message hl _ _ _ ihi _ ih =>
    cases h' with
    | message hl' hi' _ h' =>
      obtain ⟨rfl, _⟩ := fieldLines_eq_ok hl
      obtain ⟨rfl, _⟩ := fieldLines_eq_ok hl'
      simp only [Block.bareOf, Block.bare, ihi hi', ih h']

lemma Renders.rename {placed placed' : List String} {c : Copy} {b : Block}
    (h : Renders index encoding placed [c] [b] placed') (name : String) :
    Renders index encoding placed [⟨name, c.typeName, c.definition⟩] [b.rename name] placed' := by
  obtain ⟨_, typeName, definition⟩ := c
  cases definition with
  | message m =>
    obtain ⟨lines, owed, inner, placed₁, flattened, rfl, hl, hi, hf⟩ := h.of_message
    exact .message hl hi hf .nil
  | enumeration e =>
    cases h with
    | enumeration h => exact .enumeration h

def typeWord (encoding : Encoding) (scope : String) (type : FieldType) : String :=
  match reference encoding scope type with
  | .scalar type => type.keyword
  | .own _ typeName => TypeName.short typeName
  | .external _ typeName => TypeName.flattened typeName

def fieldShown (options : Options) (scope : String) (depth : Nat) (field : Field) : List Char :=
  blanks depth ++ (statement options.dialect field.label
    (typeWord options.encoding scope field.type) field.name field.number).toList

def Faithful (options : Options) (c : Copy) (b : Block) : Prop :=
  match c.definition with
  | .message m =>
    b.nested.map (fun d => (d.kind, d.name, d.typeName)) =
      m.messages.map (fun n => (.message, n.name, TypeName.qualify c.typeName n.name)) ++
        m.enumerations.map (fun e => (.enumeration, e.name, TypeName.qualify c.typeName e.name)) ∧
    ∀ depth, b.shown options.dialect depth =
      (blanks depth ++ ("message " ++ c.name ++ " \x7b").toList) ::
        m.fields.map (fieldShown options c.typeName (depth + 1)) ++
        b.nested.flatMap (·.shown options.dialect (depth + 1)) ++
        b.flattened.flatMap (fun d => [] :: d.shown options.dialect (depth + 1)) ++
        [blanks depth ++ ['\x7d']]
  | .enumeration e =>
    ∀ depth, b.shown options.dialect depth =
      (blanks depth ++ ("enum " ++ c.name ++ " \x7b").toList) ::
        e.values.map
          (fun v => blanks (depth + 1) ++ (v.name ++ " = " ++ toString v.number ++ ";").toList) ++
        [blanks depth ++ ['\x7d']]

lemma word_written (encoding : Encoding) (scope : String) (type : FieldType) :
    (reference encoding scope type).written.word = typeWord encoding scope type := by
  rw [typeWord]
  cases reference encoding scope type <;> rfl

lemma Renders.faithful {placed placed' : List String} {c : Copy} {b : Block}
    (h : Renders index options.encoding placed [c] [b] placed') : Faithful options c b := by
  obtain ⟨name, typeName, definition⟩ := c
  cases definition with
  | message m =>
    obtain ⟨lines, owed, inner, placed₁, flattened, rfl, hl, hi, _⟩ := h.of_message
    obtain ⟨rfl, _⟩ := fieldLines_eq_ok hl
    constructor
    · have hh := hi.heads
      simpa [Copy.nested, Copy.ofMessage, Copy.ofEnumeration, Function.comp_def,
        Definition.kind, Block.nested] using hh
    · intro depth
      have hf : (m.fields.map (writtenLine options.encoding typeName)).map (fun f =>
            blanks (depth + 1) ++
              (statement options.dialect f.label f.type.word f.name f.number).toList) =
          m.fields.map (fieldShown options typeName (depth + 1)) := by
        rw [List.map_map]
        refine List.map_congr_left fun f _ => ?_
        simp only [Function.comp_apply, writtenLine, word_written, fieldShown]
      rw [Block.shown_eq, ← hf]
      simp [Block.values, Block.fields, Block.nested, Block.flattened, Block.openingText]
  | enumeration e =>
    obtain rfl := h.of_enumeration
    intro depth
    rw [Block.shown_eq]
    simp [enumerationBlock, Block.values, Block.fields, Block.nested, Block.flattened,
      Block.openingText]

def SameLines (dialect : Dialect) (b b' : Block) : Prop :=
  ∃ lines : List (List Char), ∀ depth,
    b.bare.shown dialect depth =
      (blanks depth ++ b.openingText.toList) :: lines.map (blanks depth ++ ·) ∧
    b'.bare.shown dialect depth =
      (blanks depth ++ b'.openingText.toList) :: lines.map (blanks depth ++ ·)

lemma shown_bare_eq_cons (dialect : Dialect) (depth : Nat) (b : Block) :
    b.bare.shown dialect depth = (blanks depth ++ b.openingText.toList) ::
      (b.bare.shown dialect 0).tail.map (blanks depth ++ ·) := by
  have hd := Block.shown_bare_add dialect depth 0 b
  rw [Nat.add_zero] at hd
  rw [hd, Block.shown_bare]
  rfl

lemma sameLines {b b' : Block} (h : b.bare = b'.bare.rename b.name) (dialect : Dialect) :
    SameLines dialect b b' := by
  refine ⟨(b.bare.shown dialect 0).tail, fun depth => ⟨shown_bare_eq_cons dialect depth b, ?_⟩⟩
  rw [h, Block.shown_rename]
  exact shown_bare_eq_cons dialect depth b'

theorem blocks_faithful {files : List ProtoFile} {file : ProtoFile} {text : String}
    (h : compile (.ofFiles files) options file = .ok text) :
    ∃ source root, IsSchema (.ofFiles files) options file text source root ∧
      Shows (namesIn (file :: files)) options.dialect text root ∧
      (∀ outer b, Within root outer b →
        b.shown options.dialect outer.length <:+: root.shown options.dialect 0 ∧
          ∃ c, Rendered (.ofFiles files) source root c b) ∧
      (∀ c b, Rendered (.ofFiles files) source root c b → Faithful options c b) ∧
      ∀ c b c' b', Rendered (.ofFiles files) source root c b →
        Rendered (.ofFiles files) source root c' b' →
        c.typeName = c'.typeName → c.definition = c'.definition →
        b.bare = b'.bare.rename b.name ∧ SameLines options.dialect b b' := by
  obtain ⟨source, root, hs⟩ := exists_isSchema h
  obtain ⟨placed, hr⟩ := hs.renders
  refine ⟨source, root, hs, hs.shows, ?_, ?_, ?_⟩
  · intro outer b hw
    exact ⟨hw.shown options.dialect, exists_rendered hr hw.mem_all⟩
  · intro c b hc
    obtain ⟨_, _, hb⟩ := hc.renders hr
    exact hb.faithful
  · intro c b c' b' hc hc' ht hd
    obtain ⟨_, _, hb⟩ := hc.renders hr
    obtain ⟨_, _, hb'⟩ := hc'.renders hr
    have hb' := hb'.rename c.name
    rw [← ht, ← hd] at hb'
    have he := hb.bareOf_eq hb'
    have hbare : b.bare = b'.bare.rename b.name := by
      rw [hb.head_eq.2.1, ← Block.bare_rename]
      simpa [Block.bareOf] using he
    exact ⟨hbare, sameLines hbare options.dialect⟩

theorem blocks_faithful_node :
    ∃ file ∈ nodeFiles, ∃ text, compile (.ofFiles nodeFiles) {} file = .ok text ∧
      ∃ source root, IsSchema (.ofFiles nodeFiles) {} file text source root ∧
        Text.pieces '\n' text.toList = shownLines .proto2 root ++ [[]] ∧
        (∀ outer b, Within root outer b →
          b.shown .proto2 outer.length <:+: root.shown .proto2 0 ∧
            ∃ c, Rendered (.ofFiles nodeFiles) source root c b) ∧
        (∀ c b, Rendered (.ofFiles nodeFiles) source root c b → Faithful {} c b) ∧
        ∀ c b c' b', Rendered (.ofFiles nodeFiles) source root c b →
          Rendered (.ofFiles nodeFiles) source root c' b' →
          c.typeName = c'.typeName → c.definition = c'.definition →
          b.bare = b'.bare.rename b.name ∧ SameLines .proto2 b b' := by
  have hn : ∀ name ∈ namesIn (nodeFiles.head! :: nodeFiles), OneLine name := by decide +kernel
  obtain ⟨source, root, hs, hshows, h⟩ := blocks_faithful
    (show compile (.ofFiles nodeFiles) {} nodeFiles.head! = .ok _ from rfl)
  exact ⟨_, List.mem_cons_self, _, rfl, source, root, hs, hshows.cut hn, h⟩

end TopicSchema.Schema
