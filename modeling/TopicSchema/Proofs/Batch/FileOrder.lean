import Mathlib.Data.List.Nodup
import TopicSchema.Proofs.Batch.FirstFailure
import TopicSchema.Proofs.Schema.Agreement

namespace TopicSchema

variable {files files' : List ProtoFile}

lemma definedMessages_perm (h : files'.Perm files) :
    (definedMessages files').Perm (definedMessages files) :=
  h.flatMap_right _

lemma definedEnumerations_perm (h : files'.Perm files) :
    (definedEnumerations files').Perm (definedEnumerations files) :=
  h.flatMap_right _

lemma TypeIndex.definition?_of_perm (hp : files'.Perm files)
    (hm : ((definedMessages files).map Prod.fst).Nodup)
    (he : ((definedEnumerations files).map Prod.fst).Nodup) (kind : TypeKind) (t : String) :
    (ofFiles files').definition? kind t = (ofFiles files).definition? kind t := by
  cases kind with
  | message =>
    rw [definition?, definition?, message?_ofFiles, message?_ofFiles,
      lookup_eq_of_perm (definedMessages_perm hp) hm]
  | enumeration =>
    rw [definition?, definition?, enumeration?_ofFiles, enumeration?_ofFiles,
      lookup_eq_of_perm (definedEnumerations_perm hp) he]

namespace Request

variable {r r' : Request} {index index' : TypeIndex} {names : List String}

lemma file?_eq_some_iff (hn : (r.files.map (·.name)).Nodup) {name : String} {f : ProtoFile} :
    r.file? name = some f ↔ f ∈ r.files ∧ f.name = name := by
  constructor
  · intro h
    have hm := List.mem_of_find?_eq_some h
    have hp := List.find?_some h
    exact ⟨List.mem_reverse.mp hm, by simpa using hp⟩
  · rintro ⟨hf, rfl⟩
    cases hg : r.file? f.name with
    | none => exact absurd rfl (file?_eq_none.mp hg f hf)
    | some g =>
      have hm := List.mem_reverse.mp (List.mem_of_find?_eq_some hg)
      have hp : g.name = f.name := by simpa using List.find?_some hg
      rw [List.inj_on_of_nodup_map hn hm hf hp]

lemma file?_of_perm (hp : files'.Perm r.files) (hn : (r.files.map (·.name)).Nodup)
    (name : String) : { r with files := files' }.file? name = r.file? name := by
  have hn' : (files'.map (·.name)).Nodup := (hp.map _).nodup_iff.mpr hn
  refine Option.ext fun f => ?_
  rw [file?_eq_some_iff hn, file?_eq_some_iff hn', hp.mem_iff]

lemma schema_congr {name : String} (hf : r'.file? name = r.file? name)
    (ho : r'.options = r.options)
    (hc : ∀ f, compile index' r.options f = compile index r.options f) :
    r'.schema index' name = r.schema index name := by
  cases h : r.file? name with
  | none => rw [schema_of_missing h, schema_of_missing (hf.trans h)]
  | some f => rw [schema_of_file h, schema_of_file (hf.trans h), ho, hc]

lemma schemas_congr (h : ∀ n ∈ names, r'.schema index' n = r.schema index n) :
    r'.schemas index' names = r.schemas index names := by
  induction names with
  | nil => rfl
  | cons n names ih =>
    rw [schemas, schemas, h n List.mem_cons_self,
      ih fun k hk => h k (List.mem_cons_of_mem n hk)]

theorem assemble_perm (r : Request) (hf : (r.files.map (·.name)).Nodup)
    (hm : ((definedMessages r.files).map Prod.fst).Nodup)
    (he : ((definedEnumerations r.files).map Prod.fst).Nodup) (hp : files'.Perm r.files) :
    { r with files := files' }.assemble = r.assemble := by
  have hc (f : ProtoFile) : compile (.ofFiles files') r.options f =
      compile (.ofFiles r.files) r.options f :=
    Schema.compile_congr (TypeIndex.definition?_of_perm hp hm he) r.options f
  have hs : { r with files := files' }.schemas (.ofFiles files') r.requested =
      r.schemas (.ofFiles r.files) r.requested :=
    schemas_congr fun n _ => schema_congr (file?_of_perm hp hf n) rfl hc
  simp only [assemble]
  rw [hs]

def mutualRequest : Request where
  files := [⟨"a.proto", "p", [⟨"A", [⟨"b", 1, .optional, .named .message ".q.B"⟩], [], []⟩], []⟩,
    ⟨"b.proto", "q", [⟨"B", [⟨"a", 1, .repeated, .named .message ".p.A"⟩], [], []⟩], []⟩]
  requested := ["b.proto", "a.proto"]

theorem assemble_perm_mutual :
    (mutualRequest.files.map (·.name)).Nodup ∧
      ((definedMessages mutualRequest.files).map Prod.fst).Nodup ∧
      ((definedEnumerations mutualRequest.files).map Prod.fst).Nodup ∧
      mutualRequest.files.reverse.Perm mutualRequest.files ∧
      ∃ b a, mutualRequest.assemble = .ok { files := [⟨"b.pps", b⟩, ⟨"a.pps", a⟩] } ∧
        { mutualRequest with files := mutualRequest.files.reverse }.assemble =
          .ok { files := [⟨"b.pps", b⟩, ⟨"a.pps", a⟩] } := by
  have hf : (mutualRequest.files.map (·.name)).Nodup := by decide
  have hm : ((definedMessages mutualRequest.files).map Prod.fst).Nodup := by decide +kernel
  have he : ((definedEnumerations mutualRequest.files).map Prod.fst).Nodup := by decide +kernel
  have hp := List.reverse_perm mutualRequest.files
  have h := assemble_perm mutualRequest hf hm he hp
  exact ⟨hf, hm, he, hp, _, _, rfl, h.trans rfl⟩

end Request

end TopicSchema
