import Mathlib.Data.List.Dedup
import TopicSchema.Proofs.Schema.Agreement

namespace TopicSchema.Schema

variable {index : TypeIndex} {encoding : Encoding} {placed : List String}
variable {source : Copy} {root : Block}

lemma definition_mem_names (hr : Renders index encoding [] [source] [root] placed) {d : Block}
    (hd : d ∈ root.definitions) : d.typeName ∈ index.names := by
  obtain ⟨b, hb, hd⟩ := List.mem_flatMap.mp hd
  obtain ⟨definition, hi, _⟩ := flattened_renders hr hb hd
  exact TypeIndex.mem_names hi

lemma length_definitions_le (hr : Renders index encoding [] [source] [root] placed) :
    root.definitions.length ≤ index.names.dedup.length := by
  have hs : root.definitions.map (·.typeName) ⊆ index.names.dedup := by
    intro t ht
    obtain ⟨d, hd, rfl⟩ := List.mem_map.mp ht
    exact List.mem_dedup.mpr (definition_mem_names hr hd)
  have hl := (List.subperm_of_subset (nodup_definitions hr) hs).length_le
  rwa [List.length_map] at hl

theorem compile_terminates (index : TypeIndex) (options : Options) (file : ProtoFile) :
    ((∃ text source root, compile index options file = .ok text ∧
        IsSchema index options file text source root ∧
        root.definitions.length ≤ index.names.dedup.length) ∨
      (∃ t, compile index options file = .error (.unresolvedType t)) ∨
      file.messages.length ≠ 1 ∧
        compile index options file = .error (.shape file.name file.messages.length)) ∧
    index.names.dedup.length ≤ index.messages.length + index.enumerations.length ∧
    ∀ more m, messageBlock index options.encoding
        (definer index options.encoding (index.size + more)) [] m.name
        (TypeName.qualify file.scope m.name) m =
      rootBlock index options.encoding file.scope m := by
  refine ⟨?_, ?_, fun more m => messageBlock_eq_rootBlock (Nat.le_add_right _ _) file.scope m⟩
  · cases hc : compile index options file with
    | ok text =>
      obtain ⟨source, root, hs⟩ := exists_isSchema hc
      obtain ⟨placed, hr⟩ := hs.renders
      exact Or.inl ⟨text, source, root, rfl, hs, length_definitions_le hr⟩
    | error e =>
      rcases compile_error hc with ⟨t, rfl⟩ | ⟨hl, rfl⟩
      · exact Or.inr (Or.inl ⟨t, rfl⟩)
      · exact Or.inr (Or.inr ⟨hl, rfl⟩)
  · rw [← TypeIndex.size, ← TypeIndex.length_names]
    exact (List.dedup_sublist _).length_le

end TopicSchema.Schema
