import TopicSchema.Proofs.Command.DiskGrowth
import TopicSchema.Proofs.Pieces

namespace TopicSchema

namespace Path

structure Normal where
  absolute : Bool
  up : Nat
  down : List String
deriving DecidableEq

namespace Normal

def start (absolute : Bool) : Normal :=
  ⟨absolute, 0, []⟩

def follow (n : Normal) (part : String) : Normal :=
  if isVoid part then n
  else if part = ".." then
    if n.down ≠ [] then { n with down := n.down.dropLast }
    else if n.absolute then n
    else { n with up := n.up + 1 }
  else { n with down := n.down ++ [part] }

def location (workingDirectory : Location) (n : Normal) : Location :=
  if n.absolute then n.down
  else workingDirectory.take (workingDirectory.length - n.up) ++ n.down

def below (d : List String) (n : Normal) : Normal :=
  if n.up ≤ d.length then ⟨false, 0, d.take (d.length - n.up) ++ n.down⟩
  else ⟨false, n.up - d.length, n.down⟩

end Normal

def normal (path : String) : Normal :=
  (parts path).foldl Normal.follow (.start (isAbsolute path))

def place (workingDirectory : Location) (path : String) : Location :=
  (normal path).location workingDirectory

example : normal "a/./b//../c/" = ⟨false, 0, ["a", "c"]⟩ := by decide
example : normal "../../x" = ⟨false, 2, ["x"]⟩ ∧ normal "/../x" = ⟨true, 0, ["x"]⟩ := by decide

namespace Normal

variable {n : Normal} {part : String} {d : List String} {w : Location}

lemma follow_void (h : isVoid part = true) (n : Normal) : n.follow part = n := by
  rw [follow, if_pos h]

lemma follow_name (hv : isVoid part = false) (hu : part ≠ "..") (n : Normal) :
    n.follow part = { n with down := n.down ++ [part] } := by
  rw [follow, if_neg (by simp [hv]), if_neg hu]

lemma follow_up (n : Normal) :
    n.follow ".." =
      if n.down ≠ [] then { n with down := n.down.dropLast }
      else if n.absolute then n else { n with up := n.up + 1 } := by
  rw [follow, if_neg (by decide), if_pos rfl]

lemma follow_absolute (n : Normal) (part : String) : (n.follow part).absolute = n.absolute := by
  rw [follow]
  split_ifs <;> rfl

lemma foldl_absolute (n : Normal) (parts : List String) :
    (parts.foldl follow n).absolute = n.absolute := by
  induction parts generalizing n with
  | nil => rfl
  | cons part parts ih => rw [List.foldl_cons, ih, follow_absolute]

lemma foldl_up (n : Normal) {parts : List String} (h : ".." ∉ parts) :
    (parts.foldl follow n).up = n.up := by
  induction parts generalizing n with
  | nil => rfl
  | cons part parts ih =>
    rw [List.mem_cons, not_or] at h
    rw [List.foldl_cons, ih _ h.2, follow, if_neg (Ne.symm h.1)]
    split_ifs <;> rfl

lemma dropLast_take_length {α : Type} (l : List α) (k : Nat) :
    (l.take (l.length - k)).dropLast = l.take (l.length - (k + 1)) := by
  rw [List.dropLast_eq_take, List.take_take, List.length_take]
  congr 1
  omega

lemma location_up (w : Location) (n : Normal) :
    (n.follow "..").location w = (n.location w).dropLast := by
  obtain ⟨absolute, up, down⟩ := n
  rw [follow_up]
  by_cases hd : down = []
  · subst hd
    cases absolute with
    | true => rfl
    | false => simp [location, dropLast_take_length]
  · cases absolute with
    | true => simp [location, hd]
    | false => simp [location, hd, List.dropLast_append_of_ne_nil]

lemma location_name (hv : isVoid part = false) (hu : part ≠ "..") (w : Location) (n : Normal) :
    (n.follow part).location w = n.location w ++ [part] := by
  rw [follow_name hv hu, location, location]
  split_ifs
  · rfl
  · rw [List.append_assoc]

lemma below_follow (h : n.absolute = false) (d : List String) (part : String) :
    (n.follow part).below d = (n.below d).follow part := by
  obtain ⟨absolute, up, down⟩ := n
  obtain rfl : absolute = false := h
  by_cases hv : isVoid part = true
  · rw [follow_void hv, follow_void hv]
  by_cases hu : part = ".."
  · subst hu
    rw [follow_up, follow_up]
    by_cases hd : down = []
    · subst hd
      -- how far up decides: still below the start of `d`, at it, or above it
      rcases Nat.lt_trichotomy up d.length with hl | rfl | hl
      · have hn : d.take (d.length - up) ≠ [] := by
          rw [ne_eq, ← List.length_eq_zero_iff, List.length_take]
          omega
        simp [below, Nat.le_of_lt hl, Nat.succ_le_of_lt hl, hn, dropLast_take_length]
      · simp [below]
      · have h₁ : ¬ up ≤ d.length := by omega
        have h₂ : ¬ up + 1 ≤ d.length := by omega
        have h₃ : up + 1 - d.length = up - d.length + 1 := by omega
        simp [below, h₁, h₂, h₃]
    · by_cases hl : up ≤ d.length <;>
        simp [below, hd, hl, List.dropLast_append_of_ne_nil]
  · have hv' : isVoid part = false := by simpa using hv
    rw [follow_name hv' hu, follow_name hv' hu]
    by_cases hl : up ≤ d.length <;> simp [below, hl]

lemma foldl_below (h : n.absolute = false) (d : List String) (parts : List String) :
    parts.foldl follow (n.below d) = (parts.foldl follow n).below d := by
  induction parts generalizing n with
  | nil => rfl
  | cons part parts ih =>
    rw [List.foldl_cons, List.foldl_cons, ← below_follow h, ih]
    rw [follow_absolute, h]

end Normal

variable {base name path : String}

@[simp] lemma normal_absolute (path : String) : (normal path).absolute = isAbsolute path :=
  Normal.foldl_absolute _ _

lemma normal_up (h : ".." ∉ parts path) : (normal path).up = 0 :=
  Normal.foldl_up _ h

lemma parts_append (base name : String) :
    parts (base ++ "/" ++ name) = parts base ++ parts name := by
  have hl : (base ++ "/" ++ name).toList = base.toList ++ '/' :: name.toList := by simp
  rw [parts, hl, Text.pieces_append, List.map_append]
  rfl

lemma parts_slash (base : String) : parts (base ++ "/") = parts base ++ [""] := by
  have h := parts_append base ""
  rwa [String.append_empty] at h

lemma normal_append (base name : String) :
    normal (base ++ "/" ++ name) = (parts name).foldl Normal.follow (normal (base ++ "/")) := by
  have ha : isAbsolute (base ++ "/" ++ name) = isAbsolute (base ++ "/") := by
    simp [isAbsolute, List.head?_append]
  rw [normal, normal, parts_append, parts_slash, ha, List.foldl_append, List.foldl_append]
  rfl

lemma normal_slash (h : base ≠ "") : normal (base ++ "/") = normal base := by
  have ha : isAbsolute (base ++ "/") = isAbsolute base := by
    obtain ⟨c, s, hs⟩ := List.exists_cons_of_ne_nil (l := base.toList) (by simpa using h)
    simp [isAbsolute, hs]
  rw [normal, normal, parts_slash, ha, List.foldl_append]
  rfl

lemma normal_join (h : isAbsolute name = false) (base : String) :
    normal (join base name) = (parts name).foldl Normal.follow (normal base) := by
  rw [join, if_neg (by simp [h])]
  split
  · next hb =>
    rcases hb with rfl | hb
    · rw [String.empty_append, normal, h]
      rfl
    · obtain ⟨front, hf⟩ := List.getLast?_eq_some_iff.mp hb
      obtain rfl : base = String.ofList front ++ "/" := by
        rw [← String.toList_inj, hf]
        simp
      exact normal_append _ name
  · next hb =>
    rw [not_or] at hb
    rw [normal_append, normal_slash hb.1]

lemma join_of_absolute (h : isAbsolute name = true) (base : String) : join base name = name := by
  rw [join, if_pos h]

end Path

namespace Disk

open TopicSchema.Path

variable {disk : Disk} {path part : String} {l : Location} {n : Normal} {w : Location}

lemma enter_eq (h : disk.enter (n.location w) part = .ok l) (hp : part ≠ "") :
    l = (n.follow part).location w := by
  rw [Disk.enter] at h
  split_ifs at h with hd hu
  · cases h
    rw [Normal.follow_void (by simp [isVoid, hd])]
  · cases h
    rw [hu, Normal.location_up]
  · have hv : isVoid part = false := by simp [isVoid, hp, hd]
    rw [Normal.location_name hv hu]
    split at h
    · cases h
      rfl
    · cases h
    · cases h

lemma walk_eq {parts : List String} (h : disk.walk (n.location w) parts = .ok l)
    (hp : ∀ p ∈ parts, p ≠ "") : l = (parts.foldl Normal.follow n).location w := by
  induction parts generalizing n with
  | nil =>
    cases h
    rfl
  | cons part parts ih =>
    obtain ⟨next, hn, h⟩ := bind_eq_ok.mp h
    obtain rfl := enter_eq hn (hp part List.mem_cons_self)
    exact ih h fun p hm => hp p (List.mem_cons_of_mem part hm)

lemma foldl_filter (n : Normal) (parts : List String) :
    (parts.filter (· != "")).foldl Normal.follow n = parts.foldl Normal.follow n := by
  induction parts generalizing n with
  | nil => rfl
  | cons part parts ih =>
    by_cases hp : part = ""
    · subst hp
      exact ih n
    · rw [List.filter_cons_of_pos (by simpa using hp), List.foldl_cons, List.foldl_cons, ih]

lemma place_of_locate {slash : Bool} (h : disk.locate path = .ok (.name l slash)) :
    l = place disk.workingDirectory path := by
  have hs : (if isAbsolute path then [] else disk.workingDirectory) =
      (Normal.start (isAbsolute path)).location disk.workingDirectory := by
    cases isAbsolute path <;> simp [Normal.location, Normal.start]
  simp only [Disk.locate, hs] at h
  split_ifs at h
  split at h
  · cases h
  · next last hl =>
    obtain ⟨above, ha, h⟩ := bind_eq_ok.mp h
    split_ifs at h with hd hu <;> cases h
    obtain ⟨front, hf⟩ := List.getLast?_eq_some_iff.mp hl
    have hn : ∀ p ∈ front ++ [last], p ≠ "" := by
      intro p hp
      rw [← hf] at hp
      simpa using (List.mem_filter.mp hp).2
    have hv : isVoid last = false := by simp [isVoid, hd, hn last (by simp)]
    rw [hf, List.dropLast_concat] at ha
    rw [place, normal, ← foldl_filter, hf, List.foldl_append, List.foldl_cons, List.foldl_nil,
      Normal.location_name hv hu, walk_eq ha fun p hp => hn p (List.mem_append_left _ hp)]

lemma Denotes.eq_place (h : disk.Denotes path l) : l = place disk.workingDirectory path :=
  place_of_locate h

end Disk

end TopicSchema
