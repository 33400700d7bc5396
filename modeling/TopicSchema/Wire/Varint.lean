import TopicSchema.Wire.Input

/-! Numbers in groups of seven bits, least group first; every byte but the last is marked. Ten bytes
hold 64 bits, so the tenth is at most one. -/

namespace TopicSchema.Wire.Varint

def readWithin : Nat → Input → Option (Nat × Input)
  | 0, _ => none
  | places + 1, input =>
    match input.next? with
    | none => none
    | some (b, rest) =>
      if b.toNat < 128 then
        if places = 0 ∧ 1 < b.toNat then none else some (b.toNat, rest)
      else
        (readWithin places rest).map fun (high, rest) => (b.toNat - 128 + 128 * high, rest)

def read? (input : Input) : Option (Nat × Input) :=
  readWithin 10 input

def writeWithin : Nat → Nat → Bytes
  | 0, _ => []
  | places + 1, n =>
    if n < 128 then [UInt8.ofNat n]
    else UInt8.ofNat (n % 128 + 128) :: writeWithin places (n / 128)

def write (n : Nat) : Bytes :=
  writeWithin 10 n

def capacity : Nat → Nat
  | 0 => 2
  | places + 1 => 128 * capacity places

theorem readWithin_writeWithin (places n : Nat) (rest : Bytes) (h : n < capacity places) :
    readWithin (places + 1) (.ofBytes (writeWithin (places + 1) n ++ rest)) =
      some (n, .ofBytes rest) := by
  induction places generalizing n with
  | zero =>
    have small : n < 2 := h
    have byte : (UInt8.ofNat n).toNat = n := by rw [UInt8.toNat_ofNat']; omega
    rw [writeWithin, if_pos (by omega), List.cons_append, readWithin, Input.next?_cons]
    simp [byte, show n < 128 by omega, show ¬1 < n by omega]
  | succ places ih =>
    rw [writeWithin]
    split
    · next small =>
      have byte : (UInt8.ofNat n).toNat = n := by rw [UInt8.toNat_ofNat']; omega
      rw [List.cons_append, readWithin, Input.next?_cons]
      simp [byte, small]
    · next large =>
      have low : (UInt8.ofNat (n % 128 + 128)).toNat = n % 128 + 128 := by
        rw [UInt8.toNat_ofNat']; omega
      have high : n / 128 < capacity places := by rw [capacity] at h; omega
      rw [List.cons_append, readWithin, Input.next?_cons]
      simp only [low, if_neg (show ¬n % 128 + 128 < 128 by omega), ih (n / 128) high]
      simp only [Option.map_some, Option.some.injEq, Prod.mk.injEq, and_true]
      omega

theorem read?_write (n : Nat) (rest : Bytes) (h : n < 0x10000000000000000) :
    read? (.ofBytes (write n ++ rest)) = some (n, .ofBytes rest) :=
  readWithin_writeWithin 9 n rest h

end TopicSchema.Wire.Varint
