import TopicSchema.Proofs.Batch.OutputNames
import TopicSchema.Proofs.Command.Location
import TopicSchema.Proofs.Command.PluginAgreement

namespace TopicSchema

namespace Path

def Inside (directory path : String) : Prop :=
  (normal path).absolute = (normal directory).absolute ∧
    (normal path).up = (normal directory).up ∧
    ∃ rest, rest ≠ [] ∧ (normal path).down = (normal directory).down ++ rest

/-- The path is relative and does not climb above the directory that it starts from, which is down
the names `d`, or else it comes back through all the names that it has left, and goes on. -/
structure StaysBelow (d : List String) (path : String) : Prop where
  relative : isAbsolute path = false
  back : (normal path).up = 0 ∨ (normal path).up ≤ d.length ∧ ∃ rest, rest ≠ [] ∧
    (normal path).down = d.drop (d.length - (normal path).up) ++ rest

variable {base name : String}

lemma outputName_parts (name : String) :
    ∃ front last, parts (outputName name) = front ++ [last ++ ".pps"] := by
  obtain ⟨stem, hs⟩ : ∃ stem, outputName name = stem ++ ".pps" := by
    rcases bare_or_suffixed name with hb | ⟨stem, rfl⟩
    · exact ⟨name, outputName_bare hb⟩
    · exact ⟨stem, outputName_suffixed stem⟩
  have ht : '/' ∉ ".pps".toList := by decide
  obtain ⟨before, last, _, hp⟩ := Text.pieces_append_of_not_mem ht stem.toList
  refine ⟨before.map String.ofList, String.ofList last, ?_⟩
  rw [parts, hs, String.toList_append, hp, List.map_append, List.map_singleton,
    String.ofList_append, String.ofList_toList]

lemma down_outputName (name : String) : (normal (outputName name)).down ≠ [] := by
  obtain ⟨front, last, hp⟩ := outputName_parts name
  have hne : ∀ t : String, t.length < 4 → last ++ ".pps" ≠ t := by
    rintro t ht rfl
    have h4 : ".pps".length = 4 := rfl
    rw [String.length_append] at ht
    omega
  have hv : isVoid (last ++ ".pps") = false := by
    simp [isVoid, hne "." (by decide)]
  have hu : last ++ ".pps" ≠ ".." := hne ".." (by decide)
  rw [normal, hp, List.foldl_append, List.foldl_cons, List.foldl_nil,
    Normal.follow_name hv hu]
  simp

lemma normal_join_below (hb : isAbsolute base = false) (hu : ".." ∉ parts base)
    (hn : isAbsolute name = false) :
    normal (join base name) = (normal name).below (normal base).down := by
  have hd : normal base = (Normal.start false).below (normal base).down := by
    have ha : (normal base).absolute = false := (normal_absolute base).trans hb
    have h0 : (normal base).up = 0 := normal_up hu
    cases hm : normal base with
    | mk absolute up down =>
      rw [hm] at ha h0
      cases ha
      cases h0
      simp [Normal.below, Normal.start]
  have hm : normal name = (parts name).foldl Normal.follow (.start false) := by
    rw [normal, hn]
  rw [normal_join hn, hm, ← Normal.foldl_below rfl, ← hd]

lemma Normal.below_iff {n : Normal} (hn : n.down ≠ []) (d : List String) :
    ((n.below d).up = 0 ∧ ∃ rest, rest ≠ [] ∧ (n.below d).down = d ++ rest) ↔
      (n.up = 0 ∨ n.up ≤ d.length ∧ ∃ rest, rest ≠ [] ∧
        n.down = d.drop (d.length - n.up) ++ rest) := by
  by_cases hl : n.up ≤ d.length
  · have ht := List.take_append_drop (d.length - n.up) d
    rw [Normal.below, if_pos hl]
    constructor
    · rintro ⟨_, rest, hr, h⟩
      refine Or.inr ⟨hl, rest, hr, ?_⟩
      apply List.append_cancel_left
      rw [← List.append_assoc, ht]
      exact h
    · rintro (h | ⟨_, rest, hr, h⟩)
      · exact ⟨rfl, n.down, hn, by simp [h]⟩
      · exact ⟨rfl, rest, hr, by rw [h, ← List.append_assoc, ht]⟩
  · rw [Normal.below, if_neg hl]
    constructor
    · rintro ⟨h, _⟩
      dsimp only at h
      omega
    · intro h
      omega

lemma inside_join_iff (hb : isAbsolute base = false) (hu : ".." ∉ parts base)
    (hd : (normal name).down ≠ []) :
    Inside base (join base name) ↔ StaysBelow (normal base).down name := by
  rw [Inside, normal_absolute, normal_absolute, hb, normal_up hu]
  by_cases hn : isAbsolute name = true
  · rw [join_of_absolute hn, hn]
    constructor
    · rintro ⟨h, _⟩
      cases h
    · rintro ⟨h, _⟩
      rw [hn] at h
      cases h
  · have hn' : isAbsolute name = false := by simpa using hn
    have hj : isAbsolute (join base name) = false := by
      rw [← normal_absolute, normal_join hn', Normal.foldl_absolute, normal_absolute, hb]
    rw [hj, normal_join_below hb hu hn', Normal.below_iff hd]
    constructor
    · rintro ⟨_, h⟩
      exact ⟨hn', h⟩
    · rintro ⟨_, h⟩
      exact ⟨rfl, h⟩

end Path

namespace Command

open TopicSchema.Path

inductive Puts : Disk → List Step → String → Prop
  | here {disk disk' : Disk} {path content : String} {printed : List UInt8} {steps : List Step} :
      perform disk (.file path content) = (disk', .ok printed) →
      Puts disk (.file path content :: steps) path
  | later {disk disk' : Disk} {step : Step} {printed : List UInt8} {steps : List Step}
      {path : String} :
      perform disk step = (disk', .ok printed) → Puts disk' steps path →
      Puts disk (step :: steps) path

def CompilePuts (disk : Disk) (a : CompileArguments) (path : String) : Prop :=
  ∃ taken, steps a (disk.readFile a.descriptorSet) = .ok taken ∧ Puts disk taken path

variable {disk disk' : Disk} {a : CompileArguments} {path : String} {l : Location}
  {printed : List UInt8} {step : Step} {taken : List Step}
  {result : Except OsError (List UInt8)}

lemma perform_changes (h : perform disk step = (disk', result))
    (hl : disk'.content? l ≠ disk.content? l) :
    ∃ path content, step = .file path content ∧ result = .ok [] ∧
      place disk.workingDirectory path = l := by
  cases step with
  | directory path => exact absurd (congrFun (perform_directory_grows h).2 l) hl
  | line text =>
    cases h
    exact absurd rfl hl
  | file path content =>
    rw [perform] at h
    split at h
    · next hw =>
      cases h
      obtain ⟨k, hk, _, hc⟩ := Disk.writeFile_grows hw
      rw [hc] at hl
      by_cases he : l = k
      · exact ⟨path, content, rfl, rfl, hk.eq_place.symm.trans he.symm⟩
      · exact absurd (if_neg he) hl
    · cases h
      exact absurd rfl hl

lemma perform_keeps (h : perform disk step = (disk', result))
    (hl : disk.content? l ≠ none) : disk'.content? l ≠ none := by
  by_cases hc : disk'.content? l = disk.content? l
  · rwa [hc]
  obtain ⟨path, content, rfl, rfl, rfl⟩ := perform_changes h hc
  obtain ⟨k, hk, _, hc⟩ := perform_file_grows h
  rw [hc, hk.eq_place, if_pos rfl]
  exact Option.some_ne_none _

lemma performAll_keeps (hl : disk.content? l ≠ none) :
    (performAll disk printed taken).disk.content? l ≠ none := by
  induction taken generalizing disk printed with
  | nil => exact hl
  | cons step taken ih =>
    rw [performAll]
    split
    · next hs => exact ih (perform_keeps hs hl)
    · next hs => exact perform_keeps hs hl

lemma puts_of_changes (hl : (performAll disk printed taken).disk.content? l ≠ disk.content? l) :
    ∃ path, Puts disk taken path ∧ place disk.workingDirectory path = l := by
  induction taken generalizing disk printed with
  | nil => exact absurd rfl hl
  | cons step taken ih =>
    rw [performAll] at hl
    split at hl
    · next disk₁ more hs =>
      by_cases hc : disk₁.content? l = disk.content? l
      · rw [← hc] at hl
        obtain ⟨path, hp, he⟩ := ih hl
        exact ⟨path, .later hs hp, (perform_grows hs).workingDirectory ▸ he⟩
      · obtain ⟨path, content, rfl, _, he⟩ := perform_changes hs hc
        exact ⟨path, .here hs, he⟩
    · next hs =>
      obtain ⟨_, _, _, he, _⟩ := perform_changes hs hl
      cases he

lemma Puts.content (h : Puts disk taken path) :
    (performAll disk printed taken).disk.content? (place disk.workingDirectory path) ≠ none := by
  induction h generalizing printed with
  | here hs =>
    obtain ⟨k, hk, _, hc⟩ := perform_file_grows hs
    rw [performAll, hs]
    apply performAll_keeps
    rw [hc, hk.eq_place, if_pos rfl]
    exact Option.some_ne_none _
  | later hs _ ih =>
    rw [performAll, hs]
    exact (perform_grows hs).workingDirectory ▸ ih

lemma Puts.mem (h : Puts disk taken path) : ∃ content, Step.file path content ∈ taken := by
  induction h with
  | here => exact ⟨_, List.mem_cons_self⟩
  | later _ _ ih =>
    obtain ⟨content, hc⟩ := ih
    exact ⟨content, List.mem_cons_of_mem _ hc⟩

lemma Performs.puts {content : String} (h : Performs disk taken disk')
    (hm : Step.file path content ∈ taken) : Puts disk taken path := by
  induction h with
  | nil => cases hm
  | cons hs _ ih =>
    rcases List.mem_cons.mp hm with rfl | hm
    · exact .here hs
    · exact .later hs (ih hm)

lemma file_mem_stepsFor {out content : String} {f : OutputFile} :
    Step.file path content ∈ stepsFor out f ↔
      path = join out f.name ∧ content = f.content := by
  simp [stepsFor]

lemma names_of_steps (h : steps a (disk.readFile a.descriptorSet) = .ok taken) :
    (∃ content, Step.file path content ∈ taken) ↔
      ∃ name ∈ a.files, path = join a.out (outputName name) := by
  obtain ⟨files, schemas, _, hr, rfl⟩ := steps_eq_ok.mp h
  have hm := Request.map_name_eq (Request.assemble_eq_ok_iff.mp hr)
  have hn : ∀ name, (∃ f ∈ schemas, f.name = name) ↔ ∃ n ∈ a.files, outputName n = name := by
    intro name
    rw [← List.mem_map, hm, List.mem_map]
    rfl
  simp only [List.mem_flatMap, file_mem_stepsFor]
  constructor
  · rintro ⟨_, f, hf, rfl, _⟩
    obtain ⟨name, hname, he⟩ := (hn f.name).mp ⟨f, hf, rfl⟩
    exact ⟨name, hname, by rw [he]⟩
  · rintro ⟨name, hname, rfl⟩
    obtain ⟨f, hf, he⟩ := (hn _).mpr ⟨name, hname, rfl⟩
    exact ⟨f.content, f, hf, by rw [he], rfl⟩

lemma CompilePuts.of_exitCode (h : (compile disk a).exitCode = 0) {name : String}
    (hn : name ∈ a.files) : CompilePuts disk a (join a.out (outputName name)) := by
  rw [compile] at h
  split at h
  · next taken hs =>
    obtain ⟨content, hc⟩ := (names_of_steps hs).mpr ⟨name, hn, rfl⟩
    exact ⟨taken, hs, (performs_of_exitCode h).puts hc⟩
  · cases h

lemma CompilePuts.named (h : CompilePuts disk a path) :
    ∃ name ∈ a.files, path = join a.out (outputName name) := by
  obtain ⟨taken, hs, hp⟩ := h
  exact (names_of_steps hs).mp hp.mem

lemma compile_content (disk : Disk) (a : CompileArguments) :
    (∀ l, (compile disk a).disk.content? l ≠ disk.content? l →
      ∃ path, CompilePuts disk a path ∧ place disk.workingDirectory path = l) ∧
    ∀ path, CompilePuts disk a path →
      (compile disk a).disk.content? (place disk.workingDirectory path) ≠ none := by
  constructor
  · intro l hl
    rw [compile] at hl
    split at hl
    · next taken hs =>
      obtain ⟨path, hp, he⟩ := puts_of_changes hl
      exact ⟨path, ⟨taken, hs, hp⟩, he⟩
    · exact absurd rfl hl
  · rintro path ⟨taken, hs, hp⟩
    rw [compile, hs]
    exact hp.content

theorem puts_inside_iff (disk : Disk) (arguments : List String) (input : List UInt8)
    (a : CompileArguments) (ha : Invocation.ofArguments arguments = .compile a)
    (hr : isAbsolute a.out = false) (hu : ".." ∉ parts a.out) :
    (∀ l, (run disk arguments input).disk.content? l ≠ disk.content? l →
      ∃ path, CompilePuts disk a path ∧ place disk.workingDirectory path = l) ∧
    (∀ path, CompilePuts disk a path →
      (run disk arguments input).disk.content? (place disk.workingDirectory path) ≠ none ∧
        ∃ name ∈ a.files, path = join a.out (outputName name)) ∧
    ((run disk arguments input).exitCode = 0 →
      ∀ name ∈ a.files, CompilePuts disk a (join a.out (outputName name))) ∧
    ((∀ path, CompilePuts disk a path → Inside a.out path) ↔
      ∀ name ∈ a.files, CompilePuts disk a (join a.out (outputName name)) →
        StaysBelow (normal a.out).down (outputName name)) := by
  have hc : run disk arguments input = compile disk a := by
    simp only [run, ha]
  have hi : ∀ name, Inside a.out (join a.out (outputName name)) ↔
      StaysBelow (normal a.out).down (outputName name) :=
    fun name => inside_join_iff hr hu (down_outputName name)
  obtain ⟨h₁, h₂⟩ := compile_content disk a
  rw [hc]
  refine ⟨h₁, fun path hp => ⟨h₂ path hp, hp.named⟩, fun h _ hn => .of_exitCode h hn, ?_⟩
  constructor
  · intro h name hn hp
    exact (hi name).mp (h _ hp)
  · intro h path hp
    obtain ⟨name, hn, rfl⟩ := hp.named
    exact (hi name).mpr (h name hn hp)

def climbingBytes : List UInt8 :=
  [10, 17, 10, 10, 46, 46, 47, 120, 46, 112, 114, 111, 116, 111, 34, 3, 10, 1, 65]

def climbingDisk : Disk where
  nodes := [(["w"], .directory), (["w", "set"], .file climbingBytes)]
  workingDirectory := ["w"]

def climbingArguments : CompileArguments where
  descriptorSet := "set"
  files := ["../x.proto"]
  options := { dialect := .proto3 }
  out := "out"

def climbingSchema : OutputFile :=
  ⟨"../x.pps", "syntax = \"proto3\";\n\nmessage A \x7b\n\x7d\n"⟩

set_option maxRecDepth 20000 in
lemma decode_climbingBytes :
    (Wire.decode .fileDescriptorSet climbingBytes).map FileDescriptor.ofSet =
      .ok [{ name := "../x.proto", messages := [{ name := "A" }] }] := rfl

lemma steps_climbing :
    steps climbingArguments (climbingDisk.readFile climbingArguments.descriptorSet) =
      .ok (stepsFor "out" climbingSchema) := by
  have hb : climbingDisk.readFile climbingArguments.descriptorSet = .ok climbingBytes := rfl
  have hd : definitions climbingArguments.descriptorSet (.ok climbingBytes) =
      .ok [⟨"../x.proto", "", [⟨"A", [], [], []⟩], []⟩] := by
    rw [definitions_of_decode (by decide +kernel) decode_climbingBytes]
    rfl
  rw [hb]
  exact steps_eq_ok.mpr ⟨_, [climbingSchema], hd, by decide +kernel, rfl⟩

lemma ofArguments_climbing :
    Invocation.ofArguments climbingArguments.commandLine = .compile climbingArguments :=
  ofArguments_commandLine _ (by decide) (by decide) (by decide)

lemma exitCode_climbing : (compile climbingDisk climbingArguments).exitCode = 0 :=
  (compile_of_performs steps_climbing (.cons rfl (.cons rfl (.cons rfl .nil)))).1

theorem puts_inside_iff_climbing :
    Invocation.ofArguments climbingArguments.commandLine = .compile climbingArguments ∧
    isAbsolute climbingArguments.out = false ∧ ".." ∉ parts climbingArguments.out ∧
    (∀ l, (run climbingDisk climbingArguments.commandLine []).disk.content? l ≠
        climbingDisk.content? l →
      ∃ path, CompilePuts climbingDisk climbingArguments path ∧ place ["w"] path = l) ∧
    ((∀ path, CompilePuts climbingDisk climbingArguments path → Inside "out" path) ↔
      ∀ name ∈ ["../x.proto"],
        CompilePuts climbingDisk climbingArguments (join "out" (outputName name)) →
          StaysBelow ["out"] (outputName name)) := by
  have hr : isAbsolute climbingArguments.out = false := by decide
  have hu : ".." ∉ parts climbingArguments.out := by decide
  have h := puts_inside_iff climbingDisk climbingArguments.commandLine [] climbingArguments
    ofArguments_climbing hr hu
  exact ⟨ofArguments_climbing, hr, hu, h.1, h.2.2.2⟩

theorem climbing_not_inside :
    Invocation.ofArguments climbingArguments.commandLine = .compile climbingArguments ∧
    isAbsolute climbingArguments.out = false ∧ ".." ∉ parts climbingArguments.out ∧
    (run climbingDisk climbingArguments.commandLine []).exitCode = 0 ∧
    climbingDisk.content? ["w", "x.pps"] = none ∧
    (run climbingDisk climbingArguments.commandLine []).disk.content? ["w", "x.pps"] ≠ none ∧
    CompilePuts climbingDisk climbingArguments "out/../x.pps" ∧
    ¬ Inside climbingArguments.out "out/../x.pps" := by
  have hc : run climbingDisk climbingArguments.commandLine [] =
      compile climbingDisk climbingArguments := by
    simp only [run, ofArguments_climbing]
  have hp : CompilePuts climbingDisk climbingArguments "out/../x.pps" := by
    have ho : join climbingArguments.out (outputName "../x.proto") = "out/../x.pps" := by
      decide +kernel
    exact ho ▸ CompilePuts.of_exitCode exitCode_climbing List.mem_cons_self
  have hl : place climbingDisk.workingDirectory "out/../x.pps" = ["w", "x.pps"] := by decide +kernel
  refine ⟨ofArguments_climbing, by decide, by decide, hc ▸ exitCode_climbing, rfl, ?_, hp, ?_⟩
  · rw [hc, ← hl]
    exact (compile_content _ _).2 _ hp
  · rintro ⟨_, _, rest, _, h⟩
    have hn : (normal "out/../x.pps").down = ["x.pps"] := by decide +kernel
    have ho : (normal climbingArguments.out).down = ["out"] := by decide +kernel
    rw [hn, ho] at h
    exact absurd (List.cons.inj h).1 (by decide)

end Command

end TopicSchema
