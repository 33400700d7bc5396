import TopicSchema.Proofs.Pieces
import TopicSchema.Proofs.Schema.Spelling
import TopicSchema.Proofs.TypeName

namespace TopicSchema

namespace Text

lemma pieces_lines {lines : List (List Char)} (h : ∀ s ∈ lines, '\n' ∉ s) :
    pieces '\n' (lines.flatMap (· ++ ['\n'])) = lines ++ [[]] := by
  induction lines with
  | nil => rfl
  | cons s lines ih =>
    rw [List.flatMap_cons, List.append_assoc, List.singleton_append, pieces_append,
      pieces_of_not_mem (h s List.mem_cons_self), ih fun t ht => h t (List.mem_cons_of_mem _ ht)]
    rfl

end Text

def OneLine (s : String) : Prop :=
  '\n' ∉ s.toList

instance (s : String) : Decidable (OneLine s) :=
  inferInstanceAs (Decidable (_ ∉ _))

lemma OneLine.append {s t : String} (hs : OneLine s) (ht : OneLine t) : OneLine (s ++ t) := by
  rw [OneLine, String.toList_append, List.mem_append, not_or]
  exact ⟨hs, ht⟩

lemma oneLine_toString (n : Int) : OneLine (toString n) := by
  have digits (k : Nat) : OneLine (Nat.repr k) := by
    intro h
    rw [Nat.repr, String.toList_ofList] at h
    have hd := Nat.isDigit_of_mem_toDigits (by decide) (by decide) h
    exact absurd hd (by decide)
  cases n with
  | ofNat k => exact digits k
  | negSucc k =>
    have hm : OneLine "-" := by decide
    exact hm.append (digits (k + 1))

namespace TypeName

lemma oneLine_flattened {name : String} (h : OneLine name) : OneLine (flattened name) := by
  rw [OneLine, flattened, String.toList_ofList]
  exact not_mem_camelCase (by decide) (by decide) h false

lemma oneLine_short {name : String} (h : OneLine name) : OneLine (short name) := by
  rw [short]
  split
  · next hl =>
    rw [OneLine, String.toList_ofList]
    exact fun hm => h (Text.mem_of_cutLast hl hm)
  · exact h

end TypeName

def FieldType.names : FieldType → List String
  | .scalar _ => []
  | .named _ typeName => [typeName]

def namesIn (files : List ProtoFile) : List String :=
  (definedMessages files).flatMap (fun d =>
    d.2.name :: d.2.fields.flatMap fun f => f.name :: f.type.names) ++
  (definedEnumerations files).flatMap fun d => d.2.name :: d.2.values.map (·.name)

variable {files : List ProtoFile}

lemma oneLine_message (hn : ∀ name ∈ namesIn files, OneLine name) {t : String} {m : Message}
    (h : (t, m) ∈ definedMessages files) :
    OneLine m.name ∧ ∀ f ∈ m.fields, OneLine f.name ∧ ∀ name ∈ f.type.names, OneLine name := by
  have hmem {name : String}
      (hm : name ∈ m.name :: m.fields.flatMap fun f => f.name :: f.type.names) : OneLine name :=
    hn name (List.mem_append_left _ (List.mem_flatMap.mpr ⟨_, h, hm⟩))
  refine ⟨hmem List.mem_cons_self, fun f hf => ⟨?_, fun name hname => ?_⟩⟩
  · exact hmem (List.mem_cons_of_mem _ (List.mem_flatMap.mpr ⟨f, hf, List.mem_cons_self⟩))
  · exact hmem (List.mem_cons_of_mem _
      (List.mem_flatMap.mpr ⟨f, hf, List.mem_cons_of_mem _ hname⟩))

lemma oneLine_enumeration (hn : ∀ name ∈ namesIn files, OneLine name) {t : String}
    {e : Enumeration} (h : (t, e) ∈ definedEnumerations files) :
    OneLine e.name ∧ ∀ v ∈ e.values, OneLine v.name := by
  have hmem {name : String} (hm : name ∈ e.name :: e.values.map (·.name)) : OneLine name :=
    hn name (List.mem_append_right _ (List.mem_flatMap.mpr ⟨_, h, hm⟩))
  exact ⟨hmem List.mem_cons_self,
    fun v hv => hmem (List.mem_cons_of_mem _ (List.mem_map_of_mem hv))⟩

namespace Schema

structure Block.Plain (b : Block) : Prop where
  name : OneLine b.name
  fields : ∀ f ∈ b.fields, OneLine f.name ∧ OneLine f.type.text
  values : ∀ v ∈ b.values, OneLine v.name

variable {index : TypeIndex} {encoding : Encoding} {placed : List String}
variable {source : Copy} {root : Block}

lemma oneLine_written {type : FieldType} (ht : ∀ name ∈ type.names, OneLine name)
    (scope : String) : OneLine (reference encoding scope type).written.text := by
  cases hr : reference encoding scope type with
  | scalar type =>
    have hk : ∀ t : ScalarType, OneLine t.keyword := by
      intro t
      cases t <;> decide
    exact hk type
  | own kind t =>
    obtain ⟨rfl, _⟩ := reference_eq_own hr
    exact TypeName.oneLine_short (ht t List.mem_cons_self)
  | external kind t =>
    obtain ⟨rfl, _⟩ := reference_eq_external.mp hr
    exact TypeName.oneLine_flattened (ht t List.mem_cons_self)

lemma Rendered.oneLine_written (hn : ∀ name ∈ namesIn files, OneLine name)
    (hi : index.From files) (hs : source.definition.In files source.typeName) {c : Copy}
    {b : Block} (h : Rendered index source root c b) {f : Field} (hf : f ∈ c.fields) :
    OneLine (reference encoding c.typeName f.type).written.text := by
  have hin := h.in hi hs
  obtain ⟨name, t, definition⟩ := c
  cases definition with
  | message m => exact Schema.oneLine_written ((oneLine_message hn hin).2 f hf).2 t
  | enumeration e => cases hf

lemma oneLine_definition (hn : ∀ name ∈ namesIn files, OneLine name) {t : String}
    {d : Definition} (h : d.In files t) : d.Spelled OneLine := by
  cases d with
  | message m =>
    obtain ⟨hname, hfields⟩ := oneLine_message hn h
    exact ⟨hname, fun f hf => (hfields f hf).1⟩
  | enumeration e => exact oneLine_enumeration hn h

lemma Block.Spelled.plain {b : Block} (h : b.Spelled OneLine) : b.Plain :=
  ⟨h.name, h.fields, h.values⟩

theorem plain_of_from (hn : ∀ name ∈ namesIn files, OneLine name)
    (hr : Renders index encoding [] [source] [root] placed) (hi : index.From files)
    (hs : source.definition.In files source.typeName) (hname : OneLine source.name) {b : Block}
    (hb : b ∈ root.all) : b.Plain := by
  refine (spelled_of_mem_all hr hi hs hname ?_ ?_ hb).plain
  · exact fun t d hd => oneLine_definition hn hd
  · exact fun c b hc f hf => hc.oneLine_written hn hi hs hf

theorem plain_of_mem_all (hn : ∀ name ∈ namesIn files, OneLine name)
    (hr : Renders (.ofFiles files) encoding [] [source] [root] placed)
    (hs : source.DefinedIn files) (hm : ∀ e, source.definition ≠ .enumeration e)
    (hname : OneLine source.name) {b : Block} (hb : b ∈ root.all) : b.Plain := by
  refine plain_of_from hn hr (TypeIndex.ofFiles_from files) ?_ hname hb
  cases hd : source.definition with
  | message m => exact hs m hd
  | enumeration e => exact absurd hd (hm e)

def Line.content : Line → List Char
  | blank => []
  | written depth text => List.replicate (2 * depth) ' ' ++ text.toList

lemma Line.text_eq (line : Line) : line.text.toList = line.content ++ ['\n'] := by
  cases line with
  | blank => rfl
  | written depth text => simp [Line.text, Line.content]

def Row.content (dialect : Dialect) (p : Nat × Row) : List Char :=
  (p.2.line dialect p.1).content

lemma newline_not_mem_written {text : String} (h : OneLine text) (depth : Nat) :
    '\n' ∉ (Line.written depth text).content := by
  rw [Line.content, List.mem_append, not_or]
  refine ⟨fun hm => ?_, h⟩
  exact absurd (List.eq_of_mem_replicate hm) (by decide)

lemma oneLine_fieldText {f : FieldLine} (hname : OneLine f.name) (htype : OneLine f.type.text)
    (dialect : Dialect) : OneLine (f.text dialect) := by
  have hl : OneLine (labelText dialect f.label) := by
    cases dialect <;> cases f.label <;> decide
  have h₁ := ((hl.append htype).append (show OneLine " " by decide)).append hname
  have h₂ := h₁.append (show OneLine " = " by decide)
  exact (h₂.append (oneLine_toString f.number)).append (by decide)

lemma Row.Belongs.newline_not_mem {b : Block} (hb : b.Plain) {p : Nat × Row}
    (h : p.2.Belongs b) (dialect : Dialect) : '\n' ∉ Row.content dialect p := by
  obtain ⟨depth, row⟩ := p
  cases h with
  | opening =>
    have hopen (word : String) (hw : OneLine word) : OneLine (word ++ b.name ++ " \x7b") :=
      (hw.append hb.name).append (by decide)
    cases b with
    | message => exact newline_not_mem_written (hopen "message " (by decide)) _
    | enumeration => exact newline_not_mem_written (hopen "enum " (by decide)) _
  | field hf =>
    obtain ⟨hname, htype⟩ := hb.fields _ hf
    exact newline_not_mem_written (oneLine_fieldText hname htype dialect) _
  | value hv =>
    have hname := (hb.values _ hv).append (show OneLine " = " by decide)
    exact newline_not_mem_written ((hname.append (oneLine_toString _)).append (by decide)) _
  | gap => exact List.not_mem_nil
  | closing => exact newline_not_mem_written (by decide) _

lemma Row.content_eq_nil {dialect : Dialect} {p : Nat × Row} :
    Row.content dialect p = [] ↔ ∃ b d, p.2 = .gap b d := by
  obtain ⟨depth, row⟩ := p
  cases row with
  | opening b =>
    cases b <;> simp [Row.content, Row.line, Line.content]
  | field b f => simp [Row.content, Row.line, Line.content, FieldLine.text]
  | value b v => simp [Row.content, Row.line, Line.content, valueText]
  | gap b d => simp [Row.content, Row.line, Line.content]
  | closing b => simp [Row.content, Row.line, Line.content]

def textLines (dialect : Dialect) (root : Block) : List (List Char) :=
  ("syntax = \"" ++ dialect.text ++ "\";").toList :: [] ::
    (root.rows 0).map (Row.content dialect) ++ [[]]

lemma content_lines (dialect : Dialect) (depth : Nat) (b : Block) :
    (b.lines dialect depth).map Line.content = (b.rows depth).map (Row.content dialect) := by
  rw [Block.lines_eq_rows, List.map_map]
  rfl

lemma toList_schemaText (dialect : Dialect) (root : Block) :
    (schemaText dialect root).toList =
      (("syntax = \"" ++ dialect.text ++ "\";").toList :: [] ::
        (root.rows 0).map (Row.content dialect)).flatMap (· ++ ['\n']) := by
  have hlines : (schemaLines dialect root).map Line.content =
      ("syntax = \"" ++ dialect.text ++ "\";").toList :: [] ::
        (root.rows 0).map (Row.content dialect) := by
    rw [schemaLines, List.map_cons, List.map_cons, content_lines]
    simp [Line.content]
  rw [← hlines, schemaText, String.toList_join, List.flatMap_map, List.flatMap_map]
  simp only [Line.text_eq]

lemma pieces_schemaText (dialect : Dialect) (h : ∀ b ∈ root.all, b.Plain) :
    Text.pieces '\n' (schemaText dialect root).toList = textLines dialect root := by
  rw [toList_schemaText, Text.pieces_lines, textLines]
  intro s hs
  rcases List.mem_cons.mp hs with rfl | hs
  · cases dialect <;> decide
  rcases List.mem_cons.mp hs with rfl | hs
  · exact List.not_mem_nil
  · obtain ⟨p, hp, rfl⟩ := List.mem_map.mp hs
    obtain ⟨b, hb, hbelongs⟩ := exists_belongs hp
    exact hbelongs.newline_not_mem (h b hb) dialect

theorem flattened_arranged {options : Options} {file : ProtoFile} {text : String}
    (hn : ∀ name ∈ namesIn files, OneLine name) (hf : file ∈ files)
    (h : compile (.ofFiles files) options file = .ok text) :
    ∃ source root, IsSchema (.ofFiles files) options file text source root ∧
      Text.pieces '\n' text.toList = textLines options.dialect root ∧
      (∀ p ∈ root.rows 0, Row.content options.dialect p = [] ↔ ∃ b d, p.2 = .gap b d) ∧
      Arranged root := by
  obtain ⟨source, root, hs⟩ := exists_isSchema h
  obtain ⟨placed, hr⟩ := hs.renders
  refine ⟨source, root, hs, ?_, fun p _ => Row.content_eq_nil, arranged hr⟩
  obtain ⟨m, _, hm, rfl, _, rfl⟩ := hs
  have hd : (Copy.ofMessage file.scope m).DefinedIn files :=
    definedIn_ofMessage hf (hm ▸ List.mem_singleton_self m)
  refine pieces_schemaText _ fun b hb => plain_of_mem_all hn hr hd ?_ ?_ hb
  · intro e he
    cases he
  · exact (oneLine_message hn (hd m rfl)).1

def nodeFiles : List ProtoFile :=
  [⟨"node.proto", "p",
    [⟨"Node", [⟨"next", 3, .repeated, .named .message ".p.Node"⟩,
        ⟨"part", 1, .required, .named .message ".p.Node.Part"⟩],
      [⟨"Part", [⟨"unit", 1, .singular, .named .enumeration ".q.Unit"⟩], [], []⟩],
      [⟨"Kind", [⟨"OPEN", 0⟩, ⟨"SHUT", -1⟩]⟩]⟩], []⟩,
    ⟨"unit.proto", "q", [], [⟨"Unit", [⟨"METRE", 0⟩]⟩]⟩]

theorem flattened_arranged_node :
    (∀ name ∈ namesIn nodeFiles, OneLine name) ∧
      ∃ file ∈ nodeFiles, ∃ text, compile (.ofFiles nodeFiles) {} file = .ok text ∧
        ∃ source root, IsSchema (.ofFiles nodeFiles) {} file text source root ∧
          Text.pieces '\n' text.toList = textLines .proto2 root ∧
          (∀ p ∈ root.rows 0, Row.content .proto2 p = [] ↔ ∃ b d, p.2 = .gap b d) ∧
          Arranged root := by
  have hn : ∀ name ∈ namesIn nodeFiles, OneLine name := by decide +kernel
  exact ⟨hn, _, List.mem_cons_self, _, rfl, flattened_arranged hn List.mem_cons_self rfl⟩

/-- The message has no name, so `B` is the short name of `..B` and the flattened one as well. -/
def unnamedFiles : List ProtoFile :=
  [⟨"m.proto", "",
    [⟨"", [⟨"x", 1, .optional, .named .message "..B"⟩],
      [⟨"B", [], [], []⟩, ⟨"C", [⟨"y", 1, .optional, .named .message "..B"⟩], [], []⟩], []⟩],
    []⟩]

def unnamedSchema : Block :=
  .message "" "." [⟨.optional, .named .message "B" "..B", "x", 1⟩]
    [.message "B" "..B" [] [] [],
      .message "C" "..C" [⟨.optional, .named .message "B" "..B", "y", 1⟩] []
        [.message "B" "..B" [] [] []]]
    []

theorem unnamed_not_firstLine :
    UniqueNames unnamedFiles ∧ (∀ name ∈ namesIn unnamedFiles, OneLine name) ∧
      ∃ file ∈ unnamedFiles, ∃ text source,
        compile (.ofFiles unnamedFiles) {} file = .ok text ∧
        IsSchema (.ofFiles unnamedFiles) {} file text source unnamedSchema ∧
        ¬ ∀ b ∈ unnamedSchema.all, ∀ d ∈ b.flattened,
          FirstLine (fun _ => True) unnamedSchema b d.typeName := by
  refine ⟨by decide +kernel, by decide +kernel, _, List.mem_cons_self, _, _, rfl,
    ⟨_, _, rfl, rfl, rfl, rfl⟩, ?_⟩
  intro h
  have hc : Within unnamedSchema [unnamedSchema]
      (.message "C" "..C" [⟨.optional, .named .message "B" "..B", "y", 1⟩] []
        [.message "B" "..B" [] [] []]) :=
    .child .root (by simp [unnamedSchema, Block.children, Block.nested])
  obtain ⟨before, depth, f, rest, hrows, _, _, hfirst⟩ := h _ hc.mem_all _ List.mem_cons_self
  -- the line `optional B x = 1;` comes before
  rw [Block.rows_eq, Block.layout] at hrows
  cases before with
  | nil => cases (List.cons.inj hrows).1
  | cons p before =>
    cases before with
    | nil =>
      have hq := (List.cons.inj (List.cons.inj hrows).2).1
      have hname : "" = "C" := congrArg Block.name (Row.field.inj (Prod.mk.inj hq).2).1
      exact absurd hname (by decide)
    | cons q before =>
      have hq := (List.cons.inj (List.cons.inj hrows).2).1
      refine hfirst 0 unnamedSchema ⟨.optional, .named .message "B" "..B", "x", 1⟩ ?_ trivial
        ⟨.message, rfl⟩
      exact List.mem_cons_of_mem _ (List.mem_cons.mpr (Or.inl hq))

end Schema

end TopicSchema
