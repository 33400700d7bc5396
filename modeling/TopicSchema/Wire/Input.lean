namespace TopicSchema.Wire

abbrev Bytes := List UInt8

structure Input where
  bytes : Bytes
  size : Nat
  size_eq : size = bytes.length

namespace Input

def ofBytes (bytes : Bytes) : Input :=
  ⟨bytes, bytes.length, rfl⟩

def next? : Input → Option (UInt8 × Input)
  | ⟨[], _, _⟩ => none
  | ⟨b :: rest, size, h⟩ => some (b, ⟨rest, size - 1, by simp [h]⟩)

def take? (count : Nat) (input : Input) : Option (Bytes × Input) :=
  if count ≤ input.size then
    some (input.bytes.take count,
      ⟨input.bytes.drop count, input.size - count, by simp [input.size_eq]⟩)
  else none

theorem ext {x y : Input} (h : x.bytes = y.bytes) : x = y := by
  obtain ⟨xs, m, rfl⟩ := x
  obtain ⟨ys, n, rfl⟩ := y
  cases h
  rfl

theorem size_ofBytes (bytes : Bytes) : (ofBytes bytes).size = bytes.length :=
  rfl

theorem next?_cons (b : UInt8) (rest : Bytes) :
    next? (ofBytes (b :: rest)) = some (b, ofBytes rest) :=
  rfl

theorem take?_append (taken rest : Bytes) :
    take? taken.length (ofBytes (taken ++ rest)) = some (taken, ofBytes rest) := by
  have h : taken.length ≤ (ofBytes (taken ++ rest)).size := by simp [ofBytes]
  rw [take?, if_pos h]
  congr 2
  · simp [ofBytes]
  · exact ext (by simp [ofBytes])

end Input

end TopicSchema.Wire
