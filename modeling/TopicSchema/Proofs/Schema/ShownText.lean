import TopicSchema.Proofs.Schema.Dialects

namespace TopicSchema.Schema

def labelWord (dialect : Dialect) (label : Label) : String :=
  if label = .repeated then "repeated "
  else if dialect = .proto3 then ""
  else if label = .required then "required "
  else "optional "

def statement (dialect : Dialect) (label : Label) (type name : String) (number : Int) : String :=
  labelWord dialect label ++ type ++ " " ++ name ++ " = " ++ toString number ++ ";"

def WrittenType.word : WrittenType → String
  | scalar type => type.keyword
  | named _ written _ => written

def Row.shown (dialect : Dialect) : Nat × Row → List Char
  | (depth, .opening b) => blanks depth ++ b.openingText.toList
  | (depth, .field _ f) =>
    blanks (depth + 1) ++ (statement dialect f.label f.type.word f.name f.number).toList
  | (depth, .value _ v) =>
    blanks (depth + 1) ++ (v.name ++ " = " ++ toString v.number ++ ";").toList
  | (_, .gap ..) => []
  | (depth, .closing _) => blanks depth ++ ['\x7d']

def Block.shown (dialect : Dialect) (depth : Nat) (b : Block) : List (List Char) :=
  (b.rows depth).map (Row.shown dialect)

def header : Dialect → String
  | .proto2 => "syntax = \"proto2\";"
  | .proto3 => "syntax = \"proto3\";"

def shownLines (dialect : Dialect) (root : Block) : List (List Char) :=
  (header dialect).toList :: [] :: root.shown dialect 0

structure Shows (names : List String) (dialect : Dialect) (text : String) (root : Block) :
    Prop where
  joined : text.toList = (shownLines dialect root).flatMap (· ++ ['\n'])
  cut : (∀ name ∈ names, OneLine name) →
    Text.pieces '\n' text.toList = shownLines dialect root ++ [[]]

lemma blanks_add (m n : Nat) : blanks (m + n) = blanks m ++ blanks n := by
  rw [blanks, Nat.mul_add, List.replicate_add, blanks, blanks]

lemma labelText_eq (dialect : Dialect) (label : Label) :
    labelText dialect label = labelWord dialect label := by
  cases dialect <;> cases label <;> rfl

lemma WrittenType.text_eq (type : WrittenType) : type.text = type.word := by
  cases type <;> rfl

lemma Row.content_eq_shown (dialect : Dialect) (p : Nat × Row) :
    Row.content dialect p = Row.shown dialect p := by
  obtain ⟨depth, row⟩ := p
  cases row with
  | opening b => cases b <;> rfl
  | field b f =>
    rw [content_field, labelText_eq, WrittenType.text_eq, Row.shown, statement]
    simp
  | value b v => rfl
  | gap b d => rfl
  | closing b => rfl

lemma content_rows (dialect : Dialect) (depth : Nat) (b : Block) :
    (b.rows depth).map (Row.content dialect) = b.shown dialect depth :=
  List.map_congr_left fun p _ => Row.content_eq_shown dialect p

lemma textLines_eq (dialect : Dialect) (root : Block) :
    textLines dialect root = shownLines dialect root ++ [[]] := by
  rw [textLines, content_rows, shownLines]
  cases dialect <;> rfl

variable {files : List ProtoFile} {index : TypeIndex} {options : Options} {file : ProtoFile}
variable {text : String} {source : Copy} {root : Block}

lemma toList_of_isSchema (h : IsSchema index options file text source root) :
    text.toList = (shownLines options.dialect root).flatMap (· ++ ['\n']) := by
  obtain ⟨_, _, _, _, _, rfl⟩ := h
  have ht := textLines_eq options.dialect root
  rw [toList_schemaText, List.append_cancel_right ht]

theorem IsSchema.shows (h : IsSchema (.ofFiles files) options file text source root) :
    Shows (namesIn (file :: files)) options.dialect text root where
  joined := toList_of_isSchema h
  cut hn := by
    have hi : (TypeIndex.ofFiles files).From (file :: files) :=
      (TypeIndex.ofFiles_from files).cons file
    rw [pieces_of_isSchema hi List.mem_cons_self hn h, textLines_eq]

lemma Row.shown_eq_nil {dialect : Dialect} {p : Nat × Row} :
    Row.shown dialect p = [] ↔ ∃ b d, p.2 = .gap b d := by
  rw [← Row.content_eq_shown, Row.content_eq_nil]

lemma Within.shown {b : Block} {outer : List Block} (h : Within root outer b) (dialect : Dialect) :
    b.shown dialect outer.length <:+: root.shown dialect 0 :=
  h.rows.map _

lemma Block.shown_eq (dialect : Dialect) (depth : Nat) (b : Block) :
    b.shown dialect depth =
      (blanks depth ++ b.openingText.toList) ::
        b.fields.map (fun f => blanks (depth + 1) ++
          (statement dialect f.label f.type.word f.name f.number).toList) ++
        b.values.map (fun v => blanks (depth + 1) ++
          (v.name ++ " = " ++ toString v.number ++ ";").toList) ++
        b.nested.flatMap (·.shown dialect (depth + 1)) ++
        b.flattened.flatMap (fun d => [] :: d.shown dialect (depth + 1)) ++
        [blanks depth ++ ['\x7d']] := by
  rw [Block.shown, Block.rows_eq, Block.layout]
  simp only [List.map_append, List.map_map, List.map_flatMap, List.map_cons, List.map_nil]
  rfl

lemma Block.shown_field {b : Block} {i : Nat} {f : FieldLine} (h : b.fields[i]? = some f)
    (dialect : Dialect) (depth : Nat) :
    (b.shown dialect depth)[i + 1]? = some (blanks (depth + 1) ++
      (statement dialect f.label f.type.word f.name f.number).toList) := by
  have hi : i < b.fields.length := (List.getElem?_eq_some_iff.mp h).1
  rw [Block.shown_eq]
  simp only [List.cons_append, List.append_assoc, List.getElem?_cons_succ]
  rw [List.getElem?_append_left (by simpa using hi), List.getElem?_map, h]
  rfl

end TopicSchema.Schema
