import TopicSchema.Plugin
import TopicSchema.Proofs.Wire.RoundTrip

namespace TopicSchema

namespace Code

def OnWire : Code → Prop
  | number n => Wire.FitsWord n
  | word _ => False

end Code

structure FieldDescriptor.OnWire (f : FieldDescriptor) : Prop where
  number : ∀ n ∈ f.number, Wire.FitsWord n
  label : ∀ c ∈ f.label, c.OnWire
  type : ∀ c ∈ f.type, c.OnWire

def EnumDescriptor.OnWire (e : EnumDescriptor) : Prop :=
  ∀ v ∈ e.values, ∀ n ∈ v.number, Wire.FitsWord n

inductive MessageDescriptor.OnWire : MessageDescriptor → Prop
  | intro {m : MessageDescriptor} : (∀ f ∈ m.fields, f.OnWire) → (∀ n ∈ m.messages, OnWire n) →
      (∀ e ∈ m.enumerations, e.OnWire) → OnWire m

structure FileDescriptor.OnWire (f : FileDescriptor) : Prop where
  messages : ∀ m ∈ f.messages, m.OnWire
  enumerations : ∀ e ∈ f.enumerations, e.OnWire

lemma Code.OnWire.conforms {c : Code} (h : c.OnWire) {type : Wire.RecordType} {number : Nat}
    {rule : Wire.FieldRule} (hf : type.field? number = some rule) (hr : rule.content = .int32) :
    Wire.Conforms type (c.entry number) := by
  cases c with
  | number n => exact .int32 hf (Or.inl hr) h
  | word s => cases h

lemma FieldDescriptor.OnWire.conforms {f : FieldDescriptor} (h : f.OnWire) :
    ∀ e ∈ f.entries, Wire.Conforms .fieldDescriptor e := by
  intro e he
  simp only [entries, List.mem_append, List.mem_map, Option.mem_toList] at he
  rcases he with (((⟨s, _, rfl⟩ | ⟨n, hn, rfl⟩) | ⟨c, hc, rfl⟩) | ⟨c, hc, rfl⟩) | ⟨s, _, rfl⟩
  · exact .text rfl rfl
  · exact .int32 rfl (Or.inl rfl) (h.number n hn)
  · exact (h.label c hc).conforms rfl rfl
  · exact (h.type c hc).conforms rfl rfl
  · exact .text rfl rfl

lemma ValueDescriptor.conforms {v : ValueDescriptor} (h : ∀ n ∈ v.number, Wire.FitsWord n) :
    ∀ e ∈ v.entries, Wire.Conforms .enumValueDescriptor e := by
  intro e he
  simp only [entries, List.mem_append, List.mem_map, Option.mem_toList] at he
  rcases he with ⟨s, _, rfl⟩ | ⟨n, hn, rfl⟩
  · exact .text rfl rfl
  · exact .int32 rfl (Or.inl rfl) (h n hn)

lemma EnumDescriptor.OnWire.conforms {d : EnumDescriptor} (h : d.OnWire) :
    ∀ e ∈ d.entries, Wire.Conforms .enumDescriptor e := by
  intro e he
  simp only [entries, List.mem_append, List.mem_map, Option.mem_toList] at he
  rcases he with ⟨s, _, rfl⟩ | ⟨v, hv, rfl⟩
  · exact .text rfl rfl
  · exact .record rfl rfl (ValueDescriptor.conforms (h v hv))

lemma MessageDescriptor.nestedEntries_eq (ms : List MessageDescriptor) :
    nestedEntries ms = ms.map fun m => .record 3 m.entries := by
  induction ms with
  | nil => rfl
  | cons m ms ih => rw [nestedEntries, ih, List.map_cons]

lemma MessageDescriptor.OnWire.conforms {m : MessageDescriptor} (h : m.OnWire) :
    ∀ e ∈ m.entries, Wire.Conforms .descriptor e := by
  induction h with
  | @intro m hf _ he ih =>
    intro e hm
    obtain ⟨name, fields, messages, enumerations⟩ := m
    simp only [entries, nestedEntries_eq, List.mem_append, List.mem_map,
      Option.mem_toList] at hm
    rcases hm with ((⟨s, _, rfl⟩ | ⟨f, hm, rfl⟩) | ⟨n, hm, rfl⟩) | ⟨d, hm, rfl⟩
    · exact .text rfl rfl
    · exact .record rfl rfl (hf f hm).conforms
    · exact .record rfl rfl (ih n hm)
    · exact .record rfl rfl (he d hm).conforms

lemma FileDescriptor.OnWire.conforms {f : FileDescriptor} (h : f.OnWire) :
    ∀ e ∈ f.entries, Wire.Conforms .fileDescriptor e := by
  intro e he
  simp only [entries, List.mem_append, List.mem_map, Option.mem_toList] at he
  rcases he with ((⟨s, _, rfl⟩ | ⟨s, _, rfl⟩) | ⟨m, hm, rfl⟩) | ⟨d, hd, rfl⟩
  · exact .text rfl rfl
  · exact .text rfl rfl
  · exact .record rfl rfl (h.messages m hm).conforms
  · exact .record rfl rfl (h.enumerations d hd).conforms

namespace GeneratorRequest

lemma conforms {r : GeneratorRequest} (h : ∀ f ∈ r.files, f.OnWire) :
    ∀ e ∈ r.entries, Wire.Conforms .generatorRequest e := by
  intro e he
  simp only [entries, List.mem_append, List.mem_map, Option.mem_toList] at he
  rcases he with (⟨s, _, rfl⟩ | ⟨s, _, rfl⟩) | ⟨f, hf, rfl⟩
  · exact .text rfl rfl
  · exact .text rfl rfl
  · exact .record rfl rfl (h f hf).conforms

end GeneratorRequest

namespace Response

lemma conforms (r : Response) : ∀ e ∈ r.entries, Wire.Conforms .generatorResponse e := by
  intro e he
  simp only [entries, List.mem_append, List.mem_map, Option.mem_toList] at he
  rcases he with ⟨s, _, rfl⟩ | ⟨f, _, rfl⟩
  · exact .text rfl rfl
  · refine .record rfl rfl ?_
    intro e he
    simp only [OutputFile.entries, List.mem_cons, List.not_mem_nil, or_false] at he
    rcases he with rfl | rfl
    · exact .text rfl rfl
    · exact .text rfl rfl

lemma depth_le (r : Response) : Entry.depthOf r.entries ≤ Wire.depthLimit := by
  refine Nat.le_trans (Entry.depthOf_le (n := 1) ?_) (by decide)
  intro e he
  simp only [entries, List.mem_append, List.mem_map] at he
  rcases he with ⟨s, _, rfl⟩ | ⟨f, _, rfl⟩
  · exact Nat.zero_le 1
  · exact Nat.le_refl 1

lemma decode_encode {r : Response} (h : (Wire.encode r.entries).length < Wire.longRange) :
    Wire.decode .generatorResponse (Wire.encode r.entries) = .ok r.entries :=
  Wire.decode_encode r.conforms r.depth_le h

end Response

theorem generate_encode {r : GeneratorRequest} (hf : ∀ f ∈ r.files, f.OnWire)
    (hd : Entry.depthOf r.entries ≤ Wire.depthLimit)
    (hs : (Wire.encode r.entries).length < Wire.longRange) :
    (∀ e, r.respond = .error e → generate (Wire.encode r.entries) = .error e) ∧
      ∀ response, r.respond = .ok response →
        generate (Wire.encode r.entries) = .ok (Wire.encode response.entries) ∧
          ((Wire.encode response.entries).length < Wire.longRange →
            Wire.decode .generatorResponse (Wire.encode response.entries) = .ok response.entries ∧
              Response.ofEntries response.entries = response) := by
  have hr : generate (Wire.encode r.entries) =
      r.respond >>= fun response => .ok (Wire.encode response.entries) := by
    rw [generate, Wire.decode_encode (GeneratorRequest.conforms hf) hd hs]
    change (GeneratorRequest.ofEntries r.entries).respond >>= _ = _
    rw [GeneratorRequest.ofEntries_entries]
  refine ⟨fun e he => ?_, fun response ho => ⟨?_, fun hl => ?_⟩⟩
  · rw [hr, he]
    rfl
  · rw [hr, ho]
    rfl
  · exact ⟨Response.decode_encode hl, Response.ofEntries_entries response⟩

def chainRequest : GeneratorRequest where
  requested := ["chain.proto"]
  parameter := "schema-syntax=proto3"
  files :=
    [{ name := "chain.proto"
       package := "p"
       messages :=
        [{ name := "Link"
           fields :=
            [{ name := "next", number := some 1, label := some (.number 1)
               type := some (.number 11), typeName := ".p.Link" },
             { name := "side", number := some 2, label := some (.number 3)
               type := some (.number 14), typeName := ".p.Link.Side" }]
           enumerations :=
            [{ name := "Side", values := [{ name := "LEFT", number := some (-1) }] }] }] }]

def chainResponse : Response where
  files :=
    [⟨"chain.pps",
      "syntax = \"proto3\";\n\nmessage Link \x7b\n  PLink next = 1;\n  repeated Side side = 2;\n"
        ++ "  enum Side \x7b\n    LEFT = -1;\n  \x7d\n\n  message PLink \x7b\n"
        ++ "    PLink next = 1;\n    repeated Side side = 2;\n    enum Side \x7b\n"
        ++ "      LEFT = -1;\n    \x7d\n  \x7d\n\x7d\n"⟩]

lemma chainRequest_onWire : ∀ f ∈ chainRequest.files, f.OnWire := by
  have hfields : ∀ f ∈ (chainRequest.files.flatMap (·.messages)).flatMap (·.fields), f.OnWire := by
    intro f hf
    simp only [chainRequest, List.flatMap_cons, List.flatMap_nil, List.append_nil, List.mem_cons,
      List.not_mem_nil, or_false] at hf
    rcases hf with rfl | rfl <;> constructor <;>
      simp [Code.OnWire, Wire.FitsWord]
  intro f hf
  obtain rfl := List.mem_singleton.mp hf
  refine ⟨fun m hm => ?_, fun e he => by cases he⟩
  obtain rfl := List.mem_singleton.mp hm
  refine .intro hfields (fun n hn => by cases hn) fun e he => ?_
  obtain rfl := List.mem_singleton.mp he
  intro v hv
  obtain rfl := List.mem_singleton.mp hv
  simp [Wire.FitsWord]

set_option maxRecDepth 20000 in
theorem generate_encode_chain :
    (∀ f ∈ chainRequest.files, f.OnWire) ∧
      Entry.depthOf chainRequest.entries ≤ Wire.depthLimit ∧
      (Wire.encode chainRequest.entries).length < Wire.longRange ∧
      chainRequest.respond = .ok chainResponse ∧
      generate (Wire.encode chainRequest.entries) = .ok (Wire.encode chainResponse.entries) ∧
      (Wire.encode chainResponse.entries).length < Wire.longRange ∧
      Wire.decode .generatorResponse (Wire.encode chainResponse.entries) =
        .ok chainResponse.entries ∧
      Response.ofEntries chainResponse.entries = chainResponse := by
  have hd : Entry.depthOf chainRequest.entries ≤ Wire.depthLimit := by decide
  have hs : (Wire.encode chainRequest.entries).length < Wire.longRange := by decide +kernel
  have hr : chainRequest.respond = .ok chainResponse := rfl
  have hl : (Wire.encode chainResponse.entries).length < Wire.longRange := by decide +kernel
  obtain ⟨hg, hback⟩ := (generate_encode chainRequest_onWire hd hs).2 _ hr
  exact ⟨chainRequest_onWire, hd, hs, hr, hg, hl, hback hl⟩

end TopicSchema
