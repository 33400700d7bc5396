import Mathlib.Data.List.Nodup
import TopicSchema.Proofs.Batch.FirstFailure

namespace TopicSchema

def Bare (name : String) : Prop :=
  ∀ stem, name ≠ stem ++ ".proto"

variable {name : String} {names : List String}

lemma outputName_suffixed (stem : String) : outputName (stem ++ ".proto") = stem ++ ".pps" := by
  have hl : (stem ++ ".proto").toList = stem.toList ++ ".proto".toList := String.toList_append
  have hs : ".proto".toList.isSuffixOf (stem.toList ++ ".proto".toList) = true :=
    List.isSuffixOf_iff_suffix.mpr (List.suffix_append _ _)
  rw [outputName]
  simp only [hl, hs, if_true, List.length_append, Nat.add_sub_cancel, List.take_left]
  rw [String.ofList_append, String.ofList_toList, String.ofList_toList]

lemma outputName_bare (h : Bare name) : outputName name = name ++ ".pps" := by
  have hs : ¬ ".proto".toList.isSuffixOf name.toList = true := by
    intro hs
    obtain ⟨stem, he⟩ := List.isSuffixOf_iff_suffix.mp hs
    apply h (String.ofList stem)
    rw [← String.toList_inj, String.toList_append, String.toList_ofList, he]
  rw [outputName]
  simp only [if_neg hs]
  rw [String.ofList_append, String.ofList_toList, String.ofList_toList]

lemma bare_or_suffixed (name : String) : Bare name ∨ ∃ stem, name = stem ++ ".proto" := by
  by_cases h : ∃ stem, name = stem ++ ".proto"
  · exact Or.inr h
  · exact Or.inl fun stem hs => h ⟨stem, hs⟩

lemma outputName_inj {name' : String} (h : outputName name = outputName name') :
    name = name' ∨ (Bare name ∧ name' = name ++ ".proto") ∨
      (Bare name' ∧ name = name' ++ ".proto") := by
  rcases bare_or_suffixed name with hb | ⟨stem, rfl⟩
  · rcases bare_or_suffixed name' with hb' | ⟨stem', rfl⟩
    · rw [outputName_bare hb, outputName_bare hb', String.append_left_inj] at h
      exact Or.inl h
    · rw [outputName_bare hb, outputName_suffixed, String.append_left_inj] at h
      exact Or.inr (Or.inl ⟨hb, by rw [h]⟩)
  · rcases bare_or_suffixed name' with hb' | ⟨stem', rfl⟩
    · rw [outputName_bare hb', outputName_suffixed, String.append_left_inj] at h
      exact Or.inr (Or.inr ⟨hb', by rw [h]⟩)
    · rw [outputName_suffixed, outputName_suffixed, String.append_left_inj] at h
      exact Or.inl (by rw [h])

lemma nodup_outputNames_iff (h : names.Nodup) :
    (names.map outputName).Nodup ↔ ∀ name ∈ names, Bare name → name ++ ".proto" ∉ names := by
  rw [List.nodup_map_iff_inj_on h]
  constructor
  · intro hi name hn hb hs
    have ho : outputName name = outputName (name ++ ".proto") := by
      rw [outputName_bare hb, outputName_suffixed]
    exact hb name (hi name hn _ hs ho)
  · intro hs name hn name' hn' ho
    rcases outputName_inj ho with he | ⟨hb, rfl⟩ | ⟨hb, rfl⟩
    · exact he
    · exact absurd hn' (hs name hn hb)
    · exact absurd hn (hs name' hn' hb)

namespace Request

variable {r : Request} {files : List OutputFile}

lemma Writes.unique {f g : OutputFile} (h : r.Writes name f) (h' : r.Writes name g) : f = g := by
  have hs := schema_eq_ok.mpr h
  rw [schema_eq_ok.mpr h'] at hs
  cases hs
  rfl

lemma map_name_eq (h : List.Forall₂ r.Writes names files) :
    files.map OutputFile.name = names.map outputName := by
  induction h with
  | nil => rfl
  | cons hw _ ih => rw [List.map_cons, List.map_cons, hw.1, ih]

end Request

end TopicSchema
