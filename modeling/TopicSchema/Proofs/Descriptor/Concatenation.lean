import TopicSchema.DescriptorSet
import TopicSchema.Proofs.Wire.UnknownFields

namespace TopicSchema

lemma FileDescriptor.definitions_append (fs gs : List FileDescriptor) :
    definitions (fs ++ gs) =
      definitions fs >>= fun xs => (definitions gs).map fun ys => xs ++ ys := by
  induction fs with
  | nil =>
    rw [List.nil_append, definitions]
    cases definitions gs <;> rfl
  | cons f fs ih =>
    rw [List.cons_append, definitions, definitions, ih]
    cases f.definition with
    | error e => rfl
    | ok file =>
      cases definitions fs with
      | error e => rfl
      | ok files => cases definitions gs <;> rfl

lemma FileDescriptor.ofSet_append (xs ys : List Entry) :
    ofSet (xs ++ ys) = ofSet xs ++ ofSet ys := by
  rw [ofSet, List.filterMap_append, List.map_append]
  rfl

namespace DescriptorSet

lemma ofBytes_eq_ok {a : Wire.Bytes} {xs : List ProtoFile} (h : ofBytes a = .ok xs) :
    ∃ entries, Wire.decode .fileDescriptorSet a = .ok entries ∧
      FileDescriptor.definitions (FileDescriptor.ofSet entries) = .ok xs := by
  obtain ⟨entries, he, hd⟩ := bind_eq_ok.mp h
  exact ⟨entries, mapError_eq_ok.mp he, mapError_eq_ok.mp hd⟩

theorem ofBytes_append {a : Wire.Bytes} {xs : List ProtoFile} (h : ofBytes a = .ok xs)
    (b : Wire.Bytes) :
    ofBytes (a ++ b) = (ofBytes b).map (fun ys => xs ++ ys) ∧
      (Wire.UnknownFields .fileDescriptorSet b → ofBytes (a ++ b) = .ok xs) := by
  obtain ⟨entries, he, hd⟩ := ofBytes_eq_ok h
  have happend : ofBytes (a ++ b) = (ofBytes b).map fun ys => xs ++ ys := by
    rw [ofBytes, ofBytes, Wire.decode_append he]
    cases Wire.decode .fileDescriptorSet b with
    | error e => rfl
    | ok more =>
      simp only [Except.map, mapError_ok, bind, Except.bind, definitions,
        FileDescriptor.ofSet_append, FileDescriptor.definitions_append, hd]
      cases FileDescriptor.definitions (FileDescriptor.ofSet more) <;> rfl
  refine ⟨happend, fun hu => ?_⟩
  have hb : ofBytes b = .ok [] := by
    rw [ofBytes, hu.decode]
    rfl
  rw [happend, hb]
  simp [Except.map]

def singleSet : Wire.Bytes :=
  [10, 8, 10, 1, 97, 34, 3, 10, 1, 66]

def unknownGroup : Wire.Bytes :=
  [43, 8, 150, 129, 0, 18, 2, 255, 255, 44]

lemma unknownGroup_unknown : Wire.UnknownFields .fileDescriptorSet unknownGroup := by
  have hfirst : Wire.IsKey 1 .varint [8] :=
    ⟨by decide, by decide, .last rfl (by decide) (by decide)⟩
  have hnumber : Wire.IsPlain .varint [150, 129, 0] :=
    .varint (.more (n := 22) rfl (.more (n := 1) rfl (.last rfl (by decide) (by decide))))
  have hsecond : Wire.IsKey 2 .lengthDelimited [18] :=
    ⟨by decide, by decide, .last rfl (by decide) (by decide)⟩
  have hbytes : Wire.IsPlain .lengthDelimited ([2] ++ [255, 255]) :=
    .lengthDelimited (.last rfl (by decide) (by decide))
  have hstart : Wire.IsKey 5 .startGroup [43] :=
    ⟨by decide, by decide, .last rfl (by decide) (by decide)⟩
  have hclose : Wire.IsKey 5 .endGroup [44] :=
    ⟨by decide, by decide, .last rfl (by decide) (by decide)⟩
  have hinner : Wire.IsFields (fun _ => True) 99 [8, 150, 129, 0, 18, 2, 255, 255] :=
    .plain trivial hfirst hnumber (.plain trivial hsecond hbytes .nil)
  have hunknown : (fun number => Wire.RecordType.field? .fileDescriptorSet number = none) 5 := rfl
  exact .group hunknown hstart hinner hclose .nil

set_option maxRecDepth 20000 in
theorem ofBytes_append_group :
    ∃ xs, ofBytes singleSet = .ok xs ∧ Wire.UnknownFields .fileDescriptorSet unknownGroup ∧
      ofBytes (singleSet ++ unknownGroup) = .ok xs ∧
      ofBytes (singleSet ++ singleSet) = .ok (xs ++ xs) := by
  have h : ofBytes singleSet = .ok [⟨"a", "", [⟨"B", [], [], []⟩], []⟩] := rfl
  refine ⟨_, h, unknownGroup_unknown, (ofBytes_append h _).2 unknownGroup_unknown, ?_⟩
  rw [(ofBytes_append h singleSet).1, h]
  rfl

end DescriptorSet

end TopicSchema
