import TopicSchema.Proofs.Command.CommandLine
import TopicSchema.Proofs.Command.Storing

/-! The subcommand and the plugin: asked for the same files of the same descriptors, the one stores
on the disk what the other puts in its response. -/

namespace TopicSchema

namespace Options

def parameter (options : Options) : String :=
  Dialect.key ++ "=" ++ options.dialect.text ++ "," ++ Encoding.key ++ "=" ++ options.encoding.text

lemma ofParameter_parameter (options : Options) : ofParameter options.parameter = .ok options := by
  obtain ⟨dialect, encoding⟩ := options
  cases dialect <;> cases encoding <;> rfl

end Options

namespace Command

def stepsOfAnswer (out : String) : Except GeneratorError Response → Except Failure (List Step)
  | .ok ⟨files, none⟩ => .ok (files.flatMap (stepsFor out))
  | .ok ⟨_, some text⟩ => .error ⟨text, none⟩
  | .error e => .error ⟨e.message, none⟩

variable {a : CompileArguments} {bytes : List UInt8} {files : List FileDescriptor}

lemma definitions_of_decode (hj : isJson a.descriptorSet = false)
    (hd : (Wire.decode .fileDescriptorSet bytes).map FileDescriptor.ofSet = .ok files) :
    definitions a.descriptorSet (.ok bytes) =
      (FileDescriptor.definitions files).mapError fun e => ⟨e.message, none⟩ := by
  cases hw : Wire.decode .fileDescriptorSet bytes with
  | error e =>
    rw [hw] at hd
    cases hd
  | ok entries =>
    rw [hw] at hd
    cases hd
    have hb : DescriptorSet.ofBytes bytes =
        DescriptorSet.definitions (FileDescriptor.ofSet entries) := by
      rw [DescriptorSet.ofBytes, hw]
      rfl
    simp only [definitions, hj, hb, DescriptorSet.definitions, Bool.false_eq_true, if_false]
    cases FileDescriptor.definitions (FileDescriptor.ofSet entries) <;> rfl

lemma steps_eq (hj : isJson a.descriptorSet = false)
    (hd : (Wire.decode .fileDescriptorSet bytes).map FileDescriptor.ofSet = .ok files) :
    steps a (.ok bytes) =
      stepsOfAnswer a.out
        (GeneratorRequest.respond ⟨a.files, some a.options.parameter, files⟩) := by
  rw [steps, definitions_of_decode hj hd]
  simp only [GeneratorRequest.respond, Option.getD_some, Options.ofParameter_parameter]
  cases FileDescriptor.definitions files with
  | error e => rfl
  | ok defined =>
    simp only [Except.mapError, bind, Except.bind]
    cases Request.assemble ⟨defined, a.files, a.options⟩ with
    | error e => rfl
    | ok response =>
      obtain ⟨files, error⟩ := response
      cases error <;> rfl

lemma report_of_message (text : String) :
    Failure.report ⟨text, none⟩ = "Error: " ++ text ++ "\n" := by
  simp [Failure.report]

def Outcome.Reports (outcome : Outcome) (disk : Disk) (text : String) : Prop :=
  outcome.exitCode = 1 ∧ outcome.errors = "Error: " ++ text ++ "\n" ∧ outcome.disk = disk

lemma compile_of_error {disk : Disk} {text : String}
    (h : steps a (disk.readFile a.descriptorSet) = .error ⟨text, none⟩) :
    (compile disk a).Reports disk text := by
  rw [compile, h]
  exact ⟨rfl, report_of_message text, rfl⟩

lemma compile_of_performs {disk disk' : Disk} {taken : List Step}
    (h : steps a (disk.readFile a.descriptorSet) = .ok taken)
    (hp : Performs disk taken disk') :
    (compile disk a).exitCode = 0 ∧ (compile disk a).errors = "" ∧
      (compile disk a).disk = disk' := by
  obtain ⟨more, hm⟩ := hp.performAll (lineBytes (opening a))
  rw [compile, h]
  dsimp only
  rw [hm]
  exact ⟨rfl, rfl, rfl⟩

theorem run_agrees_with_respond {disk : Disk} {arguments : List String} (input : List UInt8)
    (ha : Invocation.ofArguments arguments = .compile a)
    (hj : isJson a.descriptorSet = false) (hb : disk.readFile a.descriptorSet = .ok bytes)
    (hd : (Wire.decode .fileDescriptorSet bytes).map FileDescriptor.ofSet = .ok files) :
    let answer := GeneratorRequest.respond ⟨a.files, some a.options.parameter, files⟩
    let outcome := run disk arguments input
    (∀ stored disk', answer = .ok ⟨stored, none⟩ →
      Performs disk (stored.flatMap (stepsFor a.out)) disk' →
      outcome.exitCode = 0 ∧ outcome.errors = "" ∧ outcome.disk = disk' ∧
        Stored a.out stored disk disk') ∧
    (∀ others text, answer = .ok ⟨others, some text⟩ → outcome.Reports disk text) ∧
    (∀ e, answer = .error e → outcome.Reports disk e.message) := by
  intro answer outcome
  have hr : outcome = compile disk a := by
    simp only [outcome, run, ha]
  have hs : steps a (disk.readFile a.descriptorSet) = stepsOfAnswer a.out answer := by
    rw [hb]
    exact steps_eq hj hd
  rw [hr]
  refine ⟨fun stored disk' h hp => ?_, fun others text h => ?_, fun e h => ?_⟩
  · rw [h] at hs
    obtain ⟨h₁, h₂, h₃⟩ := compile_of_performs hs hp
    exact ⟨h₁, h₂, h₃, hp.stored.2⟩
  · rw [h] at hs
    exact compile_of_error hs
  · rw [h] at hs
    exact compile_of_error hs

def twinFiles : List FileDescriptor :=
  [{ name := "a.proto", messages := [{ name := "A" }] },
    { name := "a", messages := [{ name := "B" }] }]

def twinBytes : List UInt8 :=
  [10, 14, 10, 7, 97, 46, 112, 114, 111, 116, 111, 34, 3, 10, 1, 65,
    10, 8, 10, 1, 97, 34, 3, 10, 1, 66]

def twinDisk : Disk where
  nodes := [(["w"], .directory), (["w", "set"], .file twinBytes)]
  workingDirectory := ["w"]

def twinArguments : CompileArguments where
  descriptorSet := "set"
  files := ["a.proto", "a"]
  options := { dialect := .proto3 }
  out := "out"

set_option maxRecDepth 20000 in
lemma decode_twinBytes :
    (Wire.decode .fileDescriptorSet twinBytes).map FileDescriptor.ofSet = .ok twinFiles := rfl

theorem run_agrees_with_respond_twin :
    Invocation.ofArguments twinArguments.commandLine = .compile twinArguments ∧
      isJson twinArguments.descriptorSet = false ∧
      twinDisk.readFile twinArguments.descriptorSet = .ok twinBytes ∧
      ∃ first second disk',
        GeneratorRequest.respond
            ⟨twinArguments.files, some twinArguments.options.parameter, twinFiles⟩ =
          .ok ⟨[⟨"a.pps", first⟩, ⟨"a.pps", second⟩], none⟩ ∧
        (run twinDisk twinArguments.commandLine []).exitCode = 0 ∧
        (run twinDisk twinArguments.commandLine []).disk = disk' ∧
        Stored "out" [⟨"a.pps", first⟩, ⟨"a.pps", second⟩] twinDisk disk' := by
  have ha : Invocation.ofArguments twinArguments.commandLine = .compile twinArguments :=
    ofArguments_commandLine _ (by decide) (by decide) (by decide)
  have hj : isJson twinArguments.descriptorSet = false := by decide +kernel
  have hb : twinDisk.readFile twinArguments.descriptorSet = .ok twinBytes := rfl
  have h := (run_agrees_with_respond [] ha hj hb decode_twinBytes).1 _ _ rfl
    (.cons rfl (.cons rfl (.cons rfl (.cons rfl (.cons rfl (.cons rfl .nil))))))
  exact ⟨ha, hj, hb, _, _, _, rfl, h.1, h.2.2.1, h.2.2.2⟩

end Command

end TopicSchema
