import TopicSchema.Options
import TopicSchema.Schema.Block

/-! The lines of a schema and their text. Each level of nesting indents by two spaces; a blank line
goes before every flattened definition. -/

namespace TopicSchema.Schema

inductive Line where
  | blank
  | written (depth : Nat) (text : String)
deriving DecidableEq, Repr, Inhabited

namespace Line

def text : Line → String
  | blank => "\n"
  | written depth text => String.ofList (List.replicate (2 * depth) ' ') ++ text ++ "\n"

end Line

def labelText : Dialect → Label → String
  | _, .repeated => "repeated "
  | .proto2, .required => "required "
  | .proto2, .optional => "optional "
  | .proto2, .singular => "optional "
  | .proto3, _ => ""

def FieldLine.text (dialect : Dialect) (field : FieldLine) : String :=
  labelText dialect field.label ++ field.type.text ++ " " ++ field.name ++ " = "
    ++ toString field.number ++ ";"

def valueText (value : EnumValue) : String :=
  value.name ++ " = " ++ toString value.number ++ ";"

namespace Block

mutual

def lines (dialect : Dialect) (depth : Nat) : Block → List Line
  | message name _ fields nested flattened =>
    .written depth ("message " ++ name ++ " \x7b")
      :: (fields.map fun f => .written (depth + 1) (f.text dialect))
      ++ nestedLines dialect (depth + 1) nested
      ++ flattenedLines dialect (depth + 1) flattened
      ++ [.written depth "\x7d"]
  | enumeration name _ values =>
    .written depth ("enum " ++ name ++ " \x7b")
      :: (values.map fun v => .written (depth + 1) (valueText v))
      ++ [.written depth "\x7d"]

def nestedLines (dialect : Dialect) (depth : Nat) : List Block → List Line
  | [] => []
  | b :: bs => b.lines dialect depth ++ nestedLines dialect depth bs

def flattenedLines (dialect : Dialect) (depth : Nat) : List Block → List Line
  | [] => []
  | b :: bs => .blank :: b.lines dialect depth ++ flattenedLines dialect depth bs

end

end Block

def schemaLines (dialect : Dialect) (root : Block) : List Line :=
  .written 0 ("syntax = \"" ++ dialect.text ++ "\";") :: .blank :: root.lines dialect 0

def schemaText (dialect : Dialect) (root : Block) : String :=
  String.join ((schemaLines dialect root).map Line.text)

end TopicSchema.Schema
