import TopicSchema.Proofs.Batch.FirstFailure
import TopicSchema.Proofs.Schema.Agreement

namespace TopicSchema

lemma TypeIndex.definition?_append {files : List ProtoFile} (extra : List ProtoFile)
    {kind : TypeKind} {t : String} {d : Definition}
    (h : (ofFiles files).definition? kind t = some d) :
    (ofFiles (files ++ extra)).definition? kind t = some d := by
  cases kind with
  | message =>
    obtain ⟨m, hm, rfl⟩ := Option.map_eq_some_iff.mp h
    rw [message?_ofFiles] at hm
    rw [definition?, message?_ofFiles, definedMessages, List.flatMap_append, List.lookup_append,
      ← definedMessages, hm]
    rfl
  | enumeration =>
    obtain ⟨e, he, rfl⟩ := Option.map_eq_some_iff.mp h
    rw [enumeration?_ofFiles] at he
    rw [definition?, enumeration?_ofFiles, definedEnumerations, List.flatMap_append,
      List.lookup_append, ← definedEnumerations, he]
    rfl

namespace Request

variable {r : Request} {extra : List ProtoFile} {name : String}

lemma file?_append :
    { r with files := r.files ++ extra }.file? name =
      ({ r with files := extra }.file? name).or (r.file? name) := by
  simp [file?, List.find?_append]

lemma writes_append_iff {file : OutputFile} (h : r.Writes name file) :
    { r with files := r.files ++ extra }.Writes name file ↔
      ∀ f g, r.file? name = some f → { r with files := extra }.file? name = some g →
        compile (.ofFiles (r.files ++ extra)) r.options g =
          compile (.ofFiles r.files) r.options f := by
  obtain ⟨hn, f, hf, hc⟩ := h
  rw [Writes, file?_append, hf]
  cases hg : { r with files := extra }.file? name with
  | none =>
    have hc' : compile (.ofFiles (r.files ++ extra)) r.options f = .ok file.content :=
      Schema.compile_of_extends (fun _ _ _ => TypeIndex.definition?_append extra) hc
    simp [hn, hc']
  | some g => simp [hn, hc]

lemma forall₂_iff {α β : Type} {p q : α → β → Prop} {c : α → Prop} {l : List α} {l' : List β}
    (h : List.Forall₂ p l l') (hq : ∀ a b, p a b → (q a b ↔ c a)) :
    List.Forall₂ q l l' ↔ ∀ a ∈ l, c a := by
  induction h with
  | nil => simp
  | cons hp _ ih => rw [List.forall₂_cons, hq _ _ hp, ih, List.forall_mem_cons]

theorem assemble_append_iff {response : Response} (h : r.assemble = .ok response)
    (he : response.error = none) (extra : List ProtoFile) :
    { r with files := r.files ++ extra }.assemble = .ok response ↔
      ∀ name ∈ r.requested, ∀ f g, r.file? name = some f →
        { r with files := extra }.file? name = some g →
        compile (.ofFiles (r.files ++ extra)) r.options g =
          compile (.ofFiles r.files) r.options f := by
  obtain ⟨files, error⟩ := response
  obtain rfl : error = none := he
  rw [assemble_eq_ok_iff] at h ⊢
  exact forall₂_iff h fun _ _ => writes_append_iff

def nestedRequest : Request where
  files := [⟨"a.proto", "p",
    [⟨"A", [⟨"n", 1, .optional, .named .message ".p.A.N"⟩],
      [⟨"N", [⟨"id", 1, .optional, .scalar .int32⟩], [], []⟩], []⟩], []⟩]
  requested := ["a.proto"]

def bareFile (name : String) : ProtoFile :=
  ⟨name, "p", [⟨"A", [⟨"n", 1, .optional, .named .message ".p.A.N"⟩], [], []⟩], []⟩

theorem assemble_append_iff_bare :
    ∃ response, nestedRequest.assemble = .ok response ∧ response.error = none ∧
      { nestedRequest with files := nestedRequest.files ++ [bareFile "b.proto"] }.assemble =
        .ok response := by
  refine ⟨_, rfl, rfl, (assemble_append_iff rfl rfl [bareFile "b.proto"]).mpr ?_⟩
  intro name hn f g _ hg
  obtain rfl : name = "a.proto" := by simpa [nestedRequest] using hn
  cases hg

theorem bareFile_replaces :
    ∃ before after, before ≠ after ∧
      nestedRequest.assemble = .ok { files := [⟨"a.pps", before⟩], error := none } ∧
      { nestedRequest with files := nestedRequest.files ++ [bareFile "a.proto"] }.assemble =
        .ok { files := [⟨"a.pps", after⟩], error := none } := by
  refine ⟨_, _, ?_, rfl, rfl⟩
  decide +kernel

end Request

theorem compile_append {files : List ProtoFile} {options : Options} {file : ProtoFile}
    {text : String} (h : compile (.ofFiles files) options file = .ok text)
    (extra : List ProtoFile) : compile (.ofFiles (files ++ extra)) options file = .ok text :=
  Schema.compile_of_extends (fun _ _ _ => TypeIndex.definition?_append extra) h

theorem compile_append_bare :
    ∃ file ∈ Request.nestedRequest.files, ∃ text,
      compile (.ofFiles Request.nestedRequest.files) {} file = .ok text ∧
      compile (.ofFiles (Request.nestedRequest.files ++ [Request.bareFile "a.proto"])) {} file =
        .ok text :=
  ⟨_, List.mem_cons_self, _, rfl, compile_append rfl _⟩

end TopicSchema
