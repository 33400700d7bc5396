import TopicSchema.Proofs.Schema.LineBreaks
import TopicSchema.Proofs.Schema.Success

namespace TopicSchema.Schema

def blanks (depth : Nat) : List Char :=
  List.replicate (2 * depth) ' '

lemma content_field (dialect : Dialect) (depth : Nat) (b : Block) (f : FieldLine) :
    Row.content dialect (depth, .field b f) =
      blanks (depth + 1) ++ (labelText dialect f.label).toList ++
        (f.type.text ++ " " ++ f.name ++ " = " ++ toString f.number ++ ";").toList := by
  simp [Row.content, Row.line, Line.content, FieldLine.text, blanks]

variable {index : TypeIndex} {options : Options} {file : ProtoFile} {source : Copy} {root : Block}

lemma pieces_of_isSchema {files : List ProtoFile} {dialect : Dialect} {encoding : Encoding}
    {text : String} (hi : index.From files) (hf : file ∈ files)
    (hn : ∀ name ∈ namesIn files, OneLine name)
    (h : IsSchema index ⟨dialect, encoding⟩ file text source root) :
    Text.pieces '\n' text.toList = textLines dialect root := by
  obtain ⟨placed, hr⟩ := h.renders
  obtain ⟨hs, hname⟩ := h.source_in hf
  have hone : OneLine source.name := hname ▸ (oneLine_definition hn hs).name
  obtain ⟨_, _, _, _, _, rfl⟩ := h
  exact pieces_schemaText dialect fun b hb => plain_of_from hn hr hi hs hone hb

end TopicSchema.Schema
