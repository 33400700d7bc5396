import TopicSchema.Command.Run
import TopicSchema.Proofs.Command.DiskGrowth

namespace TopicSchema.Command

def CompileArguments.request (a : CompileArguments) (files : List ProtoFile) : Request :=
  { files, requested := a.files, options := a.options }

lemma steps_eq_ok {a : CompileArguments} {content : Except OsError (List UInt8)}
    {taken : List Step} :
    steps a content = .ok taken ↔ ∃ files schemas, definitions a.descriptorSet content = .ok files ∧
      (a.request files).assemble = .ok { files := schemas, error := none } ∧
      taken = schemas.flatMap (stepsFor a.out) := by
  rw [steps, bind_eq_ok]
  constructor
  · rintro ⟨files, hf, h⟩
    dsimp only at h
    split at h
    · cases h
    · next response hr =>
      obtain ⟨schemas, error⟩ := response
      cases error with
      | none =>
        cases h
        exact ⟨files, schemas, hf, hr, rfl⟩
      | some message => cases h
  · rintro ⟨files, schemas, hf, hr, rfl⟩
    refine ⟨files, hf, ?_⟩
    rw [CompileArguments.request] at hr
    simp only [hr]

inductive Performs : Disk → List Step → Disk → Prop
  | nil {disk : Disk} : Performs disk [] disk
  | cons {disk disk₁ disk' : Disk} {step : Step} {steps : List Step} {printed : List UInt8} :
      perform disk step = (disk₁, .ok printed) → Performs disk₁ steps disk' →
      Performs disk (step :: steps) disk'

variable {disk disk₁ disk' : Disk} {out path : String} {f : OutputFile} {printed : List UInt8}

lemma Performs.append {steps more : List Step} (h : Performs disk (steps ++ more) disk') :
    ∃ disk₁, Performs disk steps disk₁ ∧ Performs disk₁ more disk' := by
  induction steps generalizing disk with
  | nil => exact ⟨disk, .nil, h⟩
  | cons step steps ih =>
    cases h with
    | cons hs h =>
      obtain ⟨disk₁, h₁, h₂⟩ := ih h
      exact ⟨disk₁, .cons hs h₁, h₂⟩

lemma Performs.performAll {steps : List Step} (h : Performs disk steps disk')
    (printed : List UInt8) : ∃ more, performAll disk printed steps = ⟨0, more, "", disk'⟩ := by
  induction h generalizing printed with
  | nil => exact ⟨printed, rfl⟩
  | cons hs _ ih =>
    obtain ⟨more, hm⟩ := ih _
    refine ⟨more, ?_⟩
    rw [Command.performAll, hs]
    exact hm

lemma performs_of_exitCode {steps : List Step}
    (h : (performAll disk printed steps).exitCode = 0) :
    Performs disk steps (performAll disk printed steps).disk := by
  induction steps generalizing disk printed with
  | nil => exact .nil
  | cons step steps ih =>
    rw [Command.performAll] at h ⊢
    split at h
    · next hs => exact .cons hs (ih h)
    · cases h

lemma perform_directory_grows {result : Except OsError (List UInt8)}
    (h : perform disk (.directory path) = (disk', result)) :
    disk.Grows disk' ∧ disk'.content? = disk.content? := by
  have hp := Disk.provideWithin_grows ((Path.parts path).length + 1) disk path
  obtain rfl : (disk.provideDirectories path).1 = disk' := congrArg Prod.fst h
  exact hp

lemma perform_file_grows {content : String}
    (h : perform disk (.file path content) = (disk', .ok printed)) :
    ∃ l, disk.Denotes path l ∧ disk.Grows disk' ∧
      ∀ k, disk'.content? k = if k = l then some (bytesOf content) else disk.content? k := by
  rw [perform] at h
  split at h
  · next hw =>
    cases h
    exact Disk.writeFile_grows hw
  · cases h

lemma perform_grows {step : Step} {result : Except OsError (List UInt8)}
    (h : perform disk step = (disk', result)) : disk.Grows disk' := by
  cases step with
  | directory path => exact (perform_directory_grows h).1
  | file path content =>
    cases result with
    | ok printed =>
      obtain ⟨_, _, hg, _⟩ := perform_file_grows h
      exact hg
    | error e =>
      rw [perform] at h
      split at h <;> cases h
      exact .refl disk
  | line text =>
    cases h
    exact .refl disk

lemma Performs.stepsFor (h : Performs disk (stepsFor out f) disk') :
    ∃ l, disk'.Denotes (Path.join out f.name) l ∧ disk.Grows disk' ∧
      ∀ k, disk'.content? k = if k = l then some (bytesOf f.content) else disk.content? k := by
  obtain ⟨disk₁, hd, h⟩ := Performs.append h
  have hg : disk.Grows disk₁ ∧ disk₁.content? = disk.content? := by
    cases hp : Path.parent? (Path.join out f.name) with
    | none =>
      rw [hp] at hd
      cases hd
      exact ⟨.refl disk, rfl⟩
    | some parent =>
      rw [hp] at hd
      obtain _ | ⟨hs, hd⟩ := hd
      cases hd
      exact perform_directory_grows hs
  obtain _ | ⟨hf, h⟩ := h
  obtain _ | ⟨hl, h⟩ := h
  cases h
  cases hl
  obtain ⟨l, hl, hg', hc⟩ := perform_file_grows hf
  exact ⟨l, hg'.locate hl, hg.1.trans hg', fun k => by rw [hc, hg.2]⟩

structure Stored (out : String) (files : List OutputFile) (disk disk' : Disk) : Prop where
  written : ∀ f ∈ files, ∃ l before g after,
    disk'.Denotes (Path.join out f.name) l ∧ files = before ++ g :: after ∧
    disk'.Denotes (Path.join out g.name) l ∧
    (∀ k ∈ after, ¬ disk'.Denotes (Path.join out k.name) l) ∧
    disk'.readFile (Path.join out f.name) = .ok (bytesOf g.content)
  kept : ∀ l, (∀ f ∈ files, ¬ disk'.Denotes (Path.join out f.name) l) →
    disk'.content? l = disk.content? l

theorem Performs.stored {files : List OutputFile}
    (h : Performs disk (files.flatMap (Command.stepsFor out)) disk') :
    disk.Grows disk' ∧ Stored out files disk disk' := by
  induction files generalizing disk with
  | nil =>
    cases h
    exact ⟨.refl _, by simp, fun _ _ => rfl⟩
  | cons f files ih =>
    obtain ⟨disk₁, hf, h⟩ := Performs.append h
    obtain ⟨l, hl, hg, hc⟩ := hf.stepsFor
    obtain ⟨hg', hs⟩ := ih h
    have hl' : disk'.Denotes (Path.join out f.name) l := hg'.locate hl
    refine ⟨hg.trans hg', ?_, ?_⟩
    · intro k hk
      rcases List.mem_cons.mp hk with rfl | hk
      · by_cases hlater : ∃ g ∈ files, disk'.Denotes (Path.join out g.name) l
        · -- a later file has the place, and the last of these has it in the end
          obtain ⟨g, hg, hgl⟩ := hlater
          obtain ⟨l', before, a, after, hd, rfl, ha, hn, hr⟩ := hs.written g hg
          obtain rfl := hgl.unique hd
          refine ⟨l, k :: before, a, after, hl', rfl, ha, hn, ?_⟩
          exact (Disk.readFile_eq_ok hl').mpr ((Disk.readFile_eq_ok hd).mp hr)
        · have hn : ∀ g ∈ files, ¬ disk'.Denotes (Path.join out g.name) l :=
            fun g hg hgl => hlater ⟨g, hg, hgl⟩
          refine ⟨l, [], k, files, hl', rfl, hl', hn, (Disk.readFile_eq_ok hl').mpr ?_⟩
          rw [hs.kept l hn, hc, if_pos rfl]
      · obtain ⟨l', before, a, after, hd, rfl, ha, hn, hr⟩ := hs.written k hk
        exact ⟨l', f :: before, a, after, hd, rfl, ha, hn, hr⟩
    · intro k hk
      have hkl : k ≠ l := by
        rintro rfl
        exact hk f List.mem_cons_self hl'
      rw [hs.kept k fun g hg => hk g (List.mem_cons_of_mem f hg), hc, if_neg hkl]

end TopicSchema.Command
