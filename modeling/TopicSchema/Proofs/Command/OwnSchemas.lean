import TopicSchema.Proofs.Batch.OutputNames
import TopicSchema.Proofs.Command.Location
import TopicSchema.Proofs.Command.PluginAgreement

namespace TopicSchema.Command

open TopicSchema.Path (place)

def HasOwnSchemas (r : Request) (out : String) (disk : Disk) : Prop :=
  ∀ name ∈ r.requested, ∃ f, r.Writes name f ∧
    disk.readFile (Path.join out f.name) = .ok (bytesOf f.content)

def KeepsApart (r : Request) (out : String) (workingDirectory : Location) : Prop :=
  ∀ name ∈ r.requested, ∀ name' ∈ r.requested, ∀ f f', r.Writes name f → r.Writes name' f' →
    place workingDirectory (Path.join out f.name) =
      place workingDirectory (Path.join out f'.name) → f.content = f'.content

variable {disk disk' : Disk} {out : String} {files : List OutputFile} {r : Request}

lemma bytesOf_inj {s t : String} (h : bytesOf s = bytesOf t) : s = t := by
  apply String.toByteArray_inj.mp
  apply ByteArray.ext
  exact Array.toList_inj.mp h

lemma Stored.own_iff (hs : Stored out files disk disk') :
    (∀ f ∈ files, disk'.readFile (Path.join out f.name) = .ok (bytesOf f.content)) ↔
      ∀ f ∈ files, ∀ g ∈ files, place disk'.workingDirectory (Path.join out f.name) =
        place disk'.workingDirectory (Path.join out g.name) → f.content = g.content := by
  constructor
  · intro hr f hf g hg hp
    obtain ⟨l, _, _, _, hl, _⟩ := hs.written f hf
    obtain ⟨k, _, _, _, hk, _⟩ := hs.written g hg
    obtain rfl : l = k := hl.eq_place.trans (hp.trans hk.eq_place.symm)
    have hfc := (Disk.readFile_eq_ok hl).mp (hr f hf)
    rw [(Disk.readFile_eq_ok hk).mp (hr g hg), Option.some.injEq] at hfc
    exact bytesOf_inj hfc.symm
  · intro hp f hf
    obtain ⟨l, before, g, after, hl, rfl, hg, _, hr⟩ := hs.written f hf
    have hc := hp f hf g (by simp) (hl.eq_place.symm.trans hg.eq_place)
    rw [hr, hc]

lemma hasOwnSchemas_iff (hw : List.Forall₂ r.Writes r.requested files) :
    HasOwnSchemas r out disk ↔
      ∀ f ∈ files, disk.readFile (Path.join out f.name) = .ok (bytesOf f.content) := by
  constructor
  · intro h f hf
    obtain ⟨name, hn, hwf⟩ := exists_of_forall₂ hw.flip hf
    obtain ⟨g, hg, hr⟩ := h name hn
    rwa [Request.Writes.unique hwf hg]
  · intro h name hn
    obtain ⟨f, hf, hwf⟩ := exists_of_forall₂ hw hn
    exact ⟨f, hwf, h f hf⟩

lemma keepsApart_iff (hw : List.Forall₂ r.Writes r.requested files) (w : Location) :
    KeepsApart r out w ↔ ∀ f ∈ files, ∀ g ∈ files,
      place w (Path.join out f.name) = place w (Path.join out g.name) →
        f.content = g.content := by
  constructor
  · intro h f hf g hg
    obtain ⟨name, hn, hwf⟩ := exists_of_forall₂ hw.flip hf
    obtain ⟨name', hn', hwg⟩ := exists_of_forall₂ hw.flip hg
    exact h name hn name' hn' f g hwf hwg
  · intro h name hn name' hn' f f' hwf hwf'
    obtain ⟨g, hg, hwg⟩ := exists_of_forall₂ hw hn
    obtain ⟨g', hg', hwg'⟩ := exists_of_forall₂ hw hn'
    rw [hwf.unique hwg, hwf'.unique hwg']
    exact h g hg g' hg'

lemma stored_of_compile {a : CompileArguments} (h : (compile disk a).exitCode = 0) :
    ∃ files schemas, definitions a.descriptorSet (disk.readFile a.descriptorSet) = .ok files ∧
      (a.request files).assemble = .ok { files := schemas, error := none } ∧
      (compile disk a).disk.workingDirectory = disk.workingDirectory ∧
      Stored a.out schemas disk (compile disk a).disk := by
  rw [compile] at h ⊢
  split at h
  · next taken hs =>
    obtain ⟨files, schemas, hf, hr, rfl⟩ := steps_eq_ok.mp hs
    obtain ⟨hg, hst⟩ := (performs_of_exitCode h).stored
    exact ⟨files, schemas, hf, hr, hg.workingDirectory, hst⟩
  · cases h

theorem schemas_kept_apart_iff (r : Request) (schemas : List OutputFile) (disk : Disk)
    (arguments : List String) (input : List UInt8) (a : CompileArguments) :
    (r.requested.Nodup → r.assemble = .ok { files := schemas, error := none } →
      ((schemas.map OutputFile.name).Nodup ↔
        ∀ name ∈ r.requested, Bare name → name ++ ".proto" ∉ r.requested)) ∧
    (Invocation.ofArguments arguments = .compile a → (run disk arguments input).exitCode = 0 →
      ∃ files, definitions a.descriptorSet (disk.readFile a.descriptorSet) = .ok files ∧
        (HasOwnSchemas (a.request files) a.out (run disk arguments input).disk ↔
          KeepsApart (a.request files) a.out disk.workingDirectory)) := by
  constructor
  · intro hn hr
    rw [Request.map_name_eq (Request.assemble_eq_ok_iff.mp hr), nodup_outputNames_iff hn]
  · intro ha h
    have hc : run disk arguments input = compile disk a := by
      simp only [run, ha]
    rw [hc] at h ⊢
    obtain ⟨files, schemas, hf, hr, hd, hs⟩ := stored_of_compile h
    have hw := Request.assemble_eq_ok_iff.mp hr
    refine ⟨files, hf, ?_⟩
    rw [hasOwnSchemas_iff hw, keepsApart_iff hw, hs.own_iff, hd]

def twinProtoFiles : List ProtoFile :=
  [⟨"a.proto", "", [⟨"A", [], [], []⟩], []⟩, ⟨"a", "", [⟨"B", [], [], []⟩], []⟩]

def twinSchemas : List OutputFile :=
  [⟨"a.pps", "syntax = \"proto3\";\n\nmessage A \x7b\n\x7d\n"⟩,
    ⟨"a.pps", "syntax = \"proto3\";\n\nmessage B \x7b\n\x7d\n"⟩]

lemma definitions_twin : definitions twinArguments.descriptorSet
    (twinDisk.readFile twinArguments.descriptorSet) = .ok twinProtoFiles := by
  have hb : twinDisk.readFile twinArguments.descriptorSet = .ok twinBytes := rfl
  rw [hb, definitions_of_decode (by decide +kernel) decode_twinBytes]
  rfl

lemma assemble_twin : (twinArguments.request twinProtoFiles).assemble =
    .ok { files := twinSchemas, error := none } := by
  decide +kernel

lemma ofArguments_twin :
    Invocation.ofArguments twinArguments.commandLine = .compile twinArguments :=
  ofArguments_commandLine _ (by decide) (by decide) (by decide)

lemma exitCode_twin : (run twinDisk twinArguments.commandLine []).exitCode = 0 := by
  have hs := steps_eq_ok.mpr ⟨_, _, definitions_twin, assemble_twin, rfl⟩
  have hp := compile_of_performs hs
    (.cons rfl (.cons rfl (.cons rfl (.cons rfl (.cons rfl (.cons rfl .nil))))))
  simp only [run, ofArguments_twin]
  exact hp.1

theorem schemas_kept_apart_iff_twin :
    ((twinSchemas.map OutputFile.name).Nodup ↔
      ∀ name ∈ twinArguments.files, Bare name → name ++ ".proto" ∉ twinArguments.files) ∧
    (run twinDisk twinArguments.commandLine []).exitCode = 0 ∧
    ∃ files, definitions twinArguments.descriptorSet
        (twinDisk.readFile twinArguments.descriptorSet) = .ok files ∧
      (HasOwnSchemas (twinArguments.request files) "out"
          (run twinDisk twinArguments.commandLine []).disk ↔
        KeepsApart (twinArguments.request files) "out" ["w"]) := by
  have hn : (twinArguments.request twinProtoFiles).requested.Nodup := by decide
  have h := schemas_kept_apart_iff (twinArguments.request twinProtoFiles) twinSchemas twinDisk
    twinArguments.commandLine [] twinArguments
  exact ⟨h.1 hn assemble_twin, exitCode_twin, h.2 ofArguments_twin exitCode_twin⟩

theorem twin_not_kept_apart :
    twinArguments.files.Nodup ∧
      (twinArguments.request twinProtoFiles).assemble =
        .ok { files := twinSchemas, error := none } ∧
      ¬ (twinSchemas.map OutputFile.name).Nodup ∧
      definitions twinArguments.descriptorSet
        (twinDisk.readFile twinArguments.descriptorSet) = .ok twinProtoFiles ∧
      (run twinDisk twinArguments.commandLine []).exitCode = 0 ∧
      ¬ HasOwnSchemas (twinArguments.request twinProtoFiles) "out"
        (run twinDisk twinArguments.commandLine []).disk := by
  refine ⟨by decide, assemble_twin, by decide, definitions_twin, exitCode_twin, fun h => ?_⟩
  have hr := (hasOwnSchemas_iff (Request.assemble_eq_ok_iff.mp assemble_twin)).mp h
  have ha := hr _ List.mem_cons_self
  rw [hr _ (List.mem_cons_of_mem _ List.mem_cons_self), Except.ok.injEq] at ha
  exact absurd (bytesOf_inj ha) (by decide)

end TopicSchema.Command
