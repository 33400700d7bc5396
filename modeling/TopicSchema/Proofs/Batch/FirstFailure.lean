import Mathlib.Data.List.Forall2
import TopicSchema.Batch
import TopicSchema.Proofs.Schema.Success

namespace TopicSchema.Request

inductive Fails (r : Request) (name : String) : CompileError → Prop
  | missing : (∀ f ∈ r.files, f.name ≠ name) → Fails r name (.unknownFile name)
  | compile {f : ProtoFile} {e : CompileError} : r.file? name = some f →
      compile (.ofFiles r.files) r.options f = .error e → Fails r name e

def Writes (r : Request) (name : String) (file : OutputFile) : Prop :=
  file.name = outputName name ∧
    ∃ f, r.file? name = some f ∧ compile (.ofFiles r.files) r.options f = .ok file.content

inductive Answers : CompileError → Except CompileError Response → Prop
  | unknownFile (name : String) : Answers (.unknownFile name) (.error (.unknownFile name))
  | unresolvedType (t : String) : Answers (.unresolvedType t) (.error (.unresolvedType t))
  | shape (file : String) (found : Nat) : Answers (.shape file found)
      (.ok { files := [], error := some (CompileError.shape file found).message })

variable {r : Request} {index : TypeIndex} {name : String} {f : ProtoFile} {e : CompileError}
variable {names : List String} {files : List OutputFile}

lemma file?_eq_none : r.file? name = none ↔ ∀ f ∈ r.files, f.name ≠ name := by
  simp [file?]

lemma schema_of_file (h : r.file? name = some f) :
    r.schema index name =
      (compile index r.options f).map fun content => ⟨outputName name, content⟩ := by
  rw [schema, h]
  dsimp only
  cases compile index r.options f <;> rfl

lemma schema_of_missing (h : r.file? name = none) :
    r.schema index name = .error (.unknownFile name) := by
  rw [schema, h]

lemma schema_eq_ok {file : OutputFile} :
    r.schema (.ofFiles r.files) name = .ok file ↔ r.Writes name file := by
  obtain ⟨n, content⟩ := file
  cases hf : r.file? name with
  | none => simp [schema_of_missing hf, Writes, hf]
  | some f =>
    rw [schema_of_file hf, Writes, hf]
    cases hc : compile (.ofFiles r.files) r.options f with
    | ok text => simp [Except.map, hc, eq_comm]
    | error e => simp [Except.map, hc]

lemma schema_eq_error : r.schema (.ofFiles r.files) name = .error e ↔ r.Fails name e := by
  constructor
  · intro h
    cases hf : r.file? name with
    | none =>
      rw [schema_of_missing hf] at h
      cases h
      exact .missing (file?_eq_none.mp hf)
    | some f =>
      rw [schema_of_file hf] at h
      cases hc : compile (.ofFiles r.files) r.options f with
      | ok text =>
        rw [hc] at h
        cases h
      | error e' =>
        rw [hc] at h
        cases h
        exact .compile hf hc
  · intro h
    cases h with
    | missing hn => exact schema_of_missing (file?_eq_none.mpr hn)
    | compile hf hc =>
      rw [schema_of_file hf, hc]
      rfl

lemma exists_writes (h : ∀ e, ¬ r.Fails name e) : ∃ file, r.Writes name file := by
  cases hs : r.schema (.ofFiles r.files) name with
  | ok file => exact ⟨file, schema_eq_ok.mp hs⟩
  | error e => exact absurd (schema_eq_error.mp hs) (h e)

lemma schemas_eq_ok :
    r.schemas index names = .ok files ↔
      List.Forall₂ (fun name file => r.schema index name = .ok file) names files := by
  induction names generalizing files with
  | nil => simp [schemas, eq_comm]
  | cons name names ih =>
    rw [schemas, List.forall₂_cons_left_iff, bind_eq_ok]
    constructor
    · rintro ⟨file, hf, h⟩
      obtain ⟨rest, hr, h⟩ := bind_eq_ok.mp h
      cases h
      exact ⟨file, rest, hf, ih.mp hr, rfl⟩
    · rintro ⟨file, rest, hf, hr, rfl⟩
      exact ⟨file, hf, bind_eq_ok.mpr ⟨rest, ih.mpr hr, rfl⟩⟩

lemma exists_schemas (h : ∀ n ∈ names, ∀ e, ¬ r.Fails n e) :
    ∃ files, List.Forall₂ r.Writes names files := by
  induction names with
  | nil => exact ⟨[], .nil⟩
  | cons n names ih =>
    obtain ⟨file, hf⟩ := exists_writes (h n List.mem_cons_self)
    obtain ⟨files, hfs⟩ := ih fun k hk => h k (List.mem_cons_of_mem n hk)
    exact ⟨file :: files, .cons hf hfs⟩

lemma schemas_of_first_failure {before after : List String}
    (hb : ∀ n ∈ before, ∀ e, ¬ r.Fails n e) (he : r.Fails name e) :
    r.schemas (.ofFiles r.files) (before ++ name :: after) = .error e := by
  induction before with
  | nil =>
    rw [List.nil_append, schemas, schema_eq_error.mpr he]
    rfl
  | cons n before ih =>
    obtain ⟨file, hf⟩ := exists_writes (hb n List.mem_cons_self)
    have hr := ih fun k hk => hb k (List.mem_cons_of_mem n hk)
    rw [List.cons_append, schemas, schema_eq_ok.mpr hf, hr]
    rfl

lemma assemble_eq_ok_iff :
    r.assemble = .ok ⟨files, none⟩ ↔ List.Forall₂ r.Writes r.requested files := by
  have hs : r.schemas (.ofFiles r.files) r.requested = .ok files ↔
      List.Forall₂ r.Writes r.requested files := by
    rw [schemas_eq_ok]
    simp only [schema_eq_ok]
  rw [assemble, ← hs]
  cases r.schemas (.ofFiles r.files) r.requested with
  | ok files' => simp
  | error e => cases hi : e.isIntegrity <;> simp [hi]

lemma Fails.with_requested (names : List String) (h : r.Fails name e) :
    { r with requested := names }.Fails name e := by
  cases h with
  | missing hm => exact .missing hm
  | compile hf hc => exact .compile hf hc

lemma Fails.answers (h : r.Fails name e)
    (hs : r.schemas (.ofFiles r.files) r.requested = .error e) : Answers e r.assemble := by
  rw [assemble, hs]
  cases h with
  | missing _ => exact .unknownFile name
  | compile _ hc =>
    rcases Schema.compile_error hc with ⟨t, rfl⟩ | ⟨_, rfl⟩
    · exact .unresolvedType t
    · exact .shape _ _

lemma not_both {response : Response} (h : r.assemble = .ok response) :
    response.files = [] ∨ response.error = none := by
  rw [assemble] at h
  split at h
  · cases h
    exact Or.inr rfl
  · split at h
    · cases h
    · cases h
      exact Or.inl rfl

lemma isIntegrity_of_assemble (h : r.assemble = .error e) : e.isIntegrity = true := by
  rw [assemble] at h
  split at h
  · cases h
  · split at h
    · next hi =>
      cases h
      exact hi
    · cases h

theorem assemble_first_failure (r : Request) :
    ((∀ n ∈ r.requested, ∀ e, ¬ r.Fails n e) →
      ∃ files, List.Forall₂ r.Writes r.requested files ∧
        r.assemble = .ok { files, error := none }) ∧
    (∀ before name after e, r.requested = before ++ name :: after →
      (∀ n ∈ before, ∀ e, ¬ r.Fails n e) → r.Fails name e →
      ∀ after', Answers e { r with requested := before ++ name :: after' }.assemble) ∧
    (∀ response, r.assemble = .ok response → response.files = [] ∨ response.error = none) ∧
    ∀ e, r.assemble = .error e → ∀ file found, e ≠ .shape file found := by
  refine ⟨fun h => ?_, ?_, fun response h => not_both h, ?_⟩
  · obtain ⟨files, hf⟩ := exists_schemas h
    exact ⟨files, hf, assemble_eq_ok_iff.mpr hf⟩
  · intro before name after e _ hb he after'
    let r' : Request := { r with requested := before ++ name :: after' }
    have hb' : ∀ n ∈ before, ∀ e, ¬ r'.Fails n e :=
      fun n hn e h => hb n hn e (h.with_requested r.requested)
    have he' : r'.Fails name e := he.with_requested _
    exact he'.answers (schemas_of_first_failure hb' he')
  · rintro e h file found rfl
    have hi := isIntegrity_of_assemble h
    cases hi

def mixedRequest : Request where
  files := [⟨"a.proto", "p", [⟨"A", [⟨"id", 1, .optional, .scalar .int64⟩], [], []⟩], []⟩,
    ⟨"two.proto", "p", [⟨"B", [], [], []⟩, ⟨"C", [], [], []⟩], []⟩]
  requested := ["a.proto", "a.proto", "two.proto", "gone.proto"]

theorem assemble_first_failure_mixed :
    (∀ n ∈ ["a.proto", "a.proto"], ∀ e, ¬ mixedRequest.Fails n e) ∧
      mixedRequest.Fails "two.proto" (.shape "two.proto" 2) ∧
      mixedRequest.Fails "gone.proto" (.unknownFile "gone.proto") ∧
      Answers (.shape "two.proto" 2) mixedRequest.assemble ∧
      ∃ files, List.Forall₂ mixedRequest.Writes ["a.proto", "a.proto"] files ∧
        { mixedRequest with requested := ["a.proto", "a.proto"] }.assemble =
          .ok { files, error := none } := by
  have ha : ∀ n ∈ ["a.proto", "a.proto"], ∀ e, ¬ mixedRequest.Fails n e := by
    intro n hn e h
    obtain rfl : n = "a.proto" := by simpa using hn
    cases schema_eq_error.mpr h
  have ht : mixedRequest.Fails "two.proto" (.shape "two.proto" 2) := schema_eq_error.mp rfl
  have hg : mixedRequest.Fails "gone.proto" (.unknownFile "gone.proto") := schema_eq_error.mp rfl
  have h := (assemble_first_failure mixedRequest).2.1 _ _ ["gone.proto"] _ rfl ha ht ["gone.proto"]
  let r : Request := { mixedRequest with requested := ["a.proto", "a.proto"] }
  have hr : ∀ n ∈ r.requested, ∀ e, ¬ r.Fails n e :=
    fun n hn e h => ha n hn e (h.with_requested mixedRequest.requested)
  obtain ⟨files, hf, hs⟩ := (assemble_first_failure r).1 hr
  exact ⟨ha, ht, hg, h, files, hf, hs⟩

end TopicSchema.Request
