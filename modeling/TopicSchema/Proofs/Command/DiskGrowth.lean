import Mathlib.Tactic.SplitIfs
import TopicSchema.Command.Disk
import TopicSchema.Proofs.Except

namespace TopicSchema.Disk

def content? (disk : Disk) (location : Location) : Option (List UInt8) :=
  match disk.node? location with
  | some (.file content) => some content
  | _ => none

def Denotes (disk : Disk) (path : String) (location : Location) : Prop :=
  disk.locate path = .ok (.name location false)

structure Grows (disk disk' : Disk) : Prop where
  workingDirectory : disk'.workingDirectory = disk.workingDirectory
  directory : ∀ l, disk.node? l = some .directory → disk'.node? l = some .directory

variable {disk disk' disk₁ disk₂ : Disk} {path part : String} {l : Location}

lemma Grows.refl (disk : Disk) : Grows disk disk := ⟨rfl, fun _ h => h⟩

lemma Grows.trans (h : Grows disk disk₁) (h' : Grows disk₁ disk₂) : Grows disk disk₂ :=
  ⟨h'.workingDirectory.trans h.workingDirectory, fun l hl => h'.directory l (h.directory l hl)⟩

lemma Grows.enter {start : Location} (h : Grows disk disk')
    (he : disk.enter start part = .ok l) : disk'.enter start part = .ok l := by
  rw [Disk.enter] at he ⊢
  split_ifs at he ⊢
  · exact he
  · exact he
  · split at he
    · next hd =>
      rw [h.directory _ hd]
      exact he
    · cases he
    · cases he

lemma Grows.walk {start : Location} {parts : List String} (h : Grows disk disk')
    (hw : disk.walk start parts = .ok l) : disk'.walk start parts = .ok l := by
  induction parts generalizing start with
  | nil => exact hw
  | cons part parts ih =>
    obtain ⟨next, hn, hw⟩ := bind_eq_ok.mp hw
    exact bind_eq_ok.mpr ⟨next, h.enter hn, ih hw⟩

lemma Grows.locate {place : Place} (h : Grows disk disk')
    (hl : disk.locate path = .ok place) : disk'.locate path = .ok place := by
  simp only [Disk.locate, h.workingDirectory] at hl ⊢
  split_ifs at hl ⊢ with h₁ h₂
  all_goals
    split at hl
    · exact hl
    · obtain ⟨above, ha, hl⟩ := bind_eq_ok.mp hl
      exact bind_eq_ok.mpr ⟨above, h.walk ha, hl⟩

lemma Denotes.unique {k : Location} (h : disk.Denotes path l) (h' : disk.Denotes path k) :
    l = k := by
  rw [Denotes, h] at h'
  cases h'
  rfl

lemma readFile_eq_ok (h : disk.Denotes path l) {content : List UInt8} :
    disk.readFile path = .ok content ↔ disk.content? l = some content := by
  rw [Denotes] at h
  rw [readFile, find, h, content?]
  cases hn : disk.node? l with
  | none => simp [hn, bind, Except.bind]
  | some node => cases node <;> simp [hn, bind, Except.bind]

lemma ne_nil_of_locate {slash : Bool} (h : disk.locate path = .ok (.name l slash)) : l ≠ [] := by
  simp only [Disk.locate] at h
  split_ifs at h
  all_goals
    split at h
    · cases h
    · obtain ⟨above, _, h⟩ := bind_eq_ok.mp h
      split_ifs at h <;> cases h
      simp

lemma lookup_filter_ne {α : Type} (nodes : List (Location × α)) {k : Location} (h : k ≠ l) :
    (nodes.filter (·.1 != l)).lookup k = nodes.lookup k := by
  induction nodes with
  | nil => rfl
  | cons d nodes ih =>
    by_cases hd : d.1 = l
    · have hk : (k == d.1) = false := by simpa [hd] using h
      have hf : (d.1 != l) = false := by simp [hd]
      rw [List.filter_cons, List.lookup_cons, hf, hk]
      exact ih
    · have hf : (d.1 != l) = true := by simpa using hd
      rw [List.filter_cons, if_pos hf, List.lookup_cons, List.lookup_cons, ih]

lemma node?_put (hl : l ≠ []) (node : Node) (k : Location) :
    (disk.put l node).node? k = if k = l then some node else disk.node? k := by
  by_cases hk : k = l
  · subst hk
    simp [node?, put, hl]
  · have hb : (k == l) = false := by simpa using hk
    simp [node?, put, hk, hb, List.lookup_cons, lookup_filter_ne disk.nodes hk]

lemma put_grows (hl : l ≠ []) {node : Node}
    (hn : disk.node? l = some .directory → node = .directory) : disk.Grows (disk.put l node) := by
  refine ⟨rfl, fun k hk => ?_⟩
  rw [node?_put hl]
  split
  · next h =>
    subst h
    rw [hn hk]
  · exact hk

lemma makeDirectory_grows (h : disk.makeDirectory path = .ok disk') :
    disk.Grows disk' ∧ disk'.content? = disk.content? := by
  obtain ⟨place, hp, h⟩ := bind_eq_ok.mp h
  cases place with
  | directory l => cases h
  | name l slash =>
    have hl := ne_nil_of_locate hp
    cases hn : disk.node? l with
    | some node => simp [hn] at h
    | none =>
      simp only [hn, Except.ok.injEq] at h
      subst h
      refine ⟨put_grows hl fun _ => rfl, funext fun k => ?_⟩
      rw [content?, content?, node?_put hl]
      by_cases hk : k = l
      · rw [if_pos hk, hk, hn]
      · rw [if_neg hk]

lemma provideDirectory_grows (h : disk.provideDirectory path = .ok disk') :
    disk.Grows disk' ∧ disk'.content? = disk.content? := by
  rw [provideDirectory] at h
  split at h
  · next hm =>
    cases h
    exact makeDirectory_grows hm
  · split at h
    · cases h
      exact ⟨.refl disk, rfl⟩
    · cases h

lemma provideWithin_grows (bound : Nat) (disk : Disk) (path : String) :
    disk.Grows (provideWithin bound disk path).1 ∧
      (provideWithin bound disk path).1.content? = disk.content? := by
  induction bound generalizing disk path with
  | zero => exact ⟨.refl disk, rfl⟩
  | succ bound ih =>
    rw [provideWithin]
    split
    · exact ⟨.refl disk, rfl⟩
    · split
      · next hp => exact provideDirectory_grows hp
      · next parent _ _ =>
        have hi := ih disk parent
        split
        · next disk₁ ha =>
          rw [ha] at hi
          split
          · next hp =>
            obtain ⟨hg, hc⟩ := provideDirectory_grows hp
            exact ⟨hi.1.trans hg, hc.trans hi.2⟩
          · exact hi
        · exact hi
      · exact ⟨.refl disk, rfl⟩

lemma writeFile_grows {content : List UInt8} (h : disk.writeFile path content = .ok disk') :
    ∃ l, disk.Denotes path l ∧ disk.Grows disk' ∧
      ∀ k, disk'.content? k = if k = l then some content else disk.content? k := by
  obtain ⟨place, hp, h⟩ := bind_eq_ok.mp h
  cases place with
  | directory l => cases h
  | name l slash =>
    have hl := ne_nil_of_locate hp
    dsimp only at h
    split_ifs at h with hs
    rw [not_or, Bool.not_eq_true] at hs
    obtain ⟨rfl, hd⟩ := hs
    cases h
    refine ⟨l, hp, put_grows hl fun h => absurd h hd, fun k => ?_⟩
    rw [content?, content?, node?_put hl]
    by_cases hk : k = l
    · rw [if_pos hk, if_pos hk]
    · rw [if_neg hk, if_neg hk]

end TopicSchema.Disk
