import TopicSchema.Proofs.Wire.Prefixes

namespace TopicSchema.Wire

inductive Varint.Spells : Nat → Nat → Bytes → Prop
  | last {places n : Nat} {b : UInt8} : b.toNat = n → n < 128 → (places = 0 → n ≤ 1) →
      Spells (places + 1) n [b]
  | more {places n high : Nat} {b : UInt8} {bytes : Bytes} : b.toNat = 128 + n →
      Spells places high bytes → Spells (places + 1) (n + 128 * high) (b :: bytes)

def IsVarint (n : Nat) (bytes : Bytes) : Prop :=
  Varint.Spells 10 n bytes

def IsKey (number : Nat) (wireType : WireType) (bytes : Bytes) : Prop :=
  0 < number ∧ 8 * number + wireType.number < wordRange ∧
    IsVarint (8 * number + wireType.number) bytes

inductive IsPlain : WireType → Bytes → Prop
  | varint {n : Nat} {bytes : Bytes} : IsVarint n bytes → IsPlain .varint bytes
  | sixtyFourBit {bytes : Bytes} : bytes.length = 8 → IsPlain .sixtyFourBit bytes
  | thirtyTwoBit {bytes : Bytes} : bytes.length = 4 → IsPlain .thirtyTwoBit bytes
  | lengthDelimited {size bytes : Bytes} : IsVarint bytes.length size →
      IsPlain .lengthDelimited (size ++ bytes)

/-- Fields whose numbers are in `numbers`, one after another. Groups are closed by their number and
hold fields of any number; counting the fields around them they are at most `depth` deep. -/
inductive IsFields : (Nat → Prop) → Nat → Bytes → Prop
  | nil {numbers : Nat → Prop} {depth : Nat} : IsFields numbers depth []
  | plain {numbers : Nat → Prop} {depth number : Nat} {wireType : WireType}
      {key value rest : Bytes} : numbers number → IsKey number wireType key →
      IsPlain wireType value → IsFields numbers (depth + 1) rest →
      IsFields numbers (depth + 1) (key ++ (value ++ rest))
  | group {numbers : Nat → Prop} {depth number : Nat} {start inner close rest : Bytes} :
      numbers number → IsKey number .startGroup start → IsFields (fun _ => True) depth inner →
      IsKey number .endGroup close → IsFields numbers (depth + 1) rest →
      IsFields numbers (depth + 1) (start ++ (inner ++ (close ++ rest)))

def UnknownFields (type : RecordType) (bytes : Bytes) : Prop :=
  IsFields (fun number => type.field? number = none) depthLimit bytes

lemma Varint.Spells.read {places n : Nat} {bytes : Bytes} (h : Spells places n bytes)
    (rest : Bytes) : readWithin places (.ofBytes (bytes ++ rest)) = some (n, .ofBytes rest) := by
  induction h with
  | @last places n b hb hn hlow =>
    have hn' : ¬ (places = 0 ∧ 1 < n) := by
      rintro ⟨hp, h⟩
      exact absurd (hlow hp) (by omega)
    rw [List.singleton_append, readWithin, Input.next?_cons]
    simp only [hb, if_pos hn, if_neg hn']
  | @more places n high b bytes hb _ ih =>
    have hn : ¬ 128 + n < 128 := by omega
    rw [List.cons_append, readWithin, Input.next?_cons]
    simp only [hb, if_neg hn, ih, Option.map_some, Nat.add_sub_cancel_left]

lemma IsVarint.read {n : Nat} {bytes : Bytes} (h : IsVarint n bytes) (rest : Bytes) :
    readVarint (.ofBytes (bytes ++ rest)) = .ok (n, .ofBytes rest) := by
  rw [readVarint, Varint.read?, Varint.Spells.read h]

lemma IsKey.read {number : Nat} {wireType : WireType} {bytes : Bytes}
    (h : IsKey number wireType bytes) (rest : Bytes) :
    readKey (.ofBytes (bytes ++ rest)) = .ok ((number, wireType), .ofBytes rest) :=
  readKey_of_readVarint (h.2.2.read rest) h.1 h.2.1

lemma Varint.Spells.length_pos {places n : Nat} {bytes : Bytes} (h : Spells places n bytes) :
    0 < bytes.length := by
  cases h <;> simp

lemma IsKey.length_pos {number : Nat} {wireType : WireType} {bytes : Bytes}
    (h : IsKey number wireType bytes) : 0 < bytes.length :=
  h.2.2.length_pos

lemma IsPlain.skip {wireType : WireType} {bytes : Bytes} (h : IsPlain wireType bytes)
    (depth number : Nat) (rest : Bytes) :
    skipValue (depth + 1) wireType number (.ofBytes (bytes ++ rest)) = .ok ((), .ofBytes rest) := by
  cases h with
  | varint h => exact bind_eq_ok.mpr ⟨_, h.read rest, rfl⟩
  | sixtyFourBit h => exact bind_eq_ok.mpr ⟨_, h ▸ readBytes_append bytes rest, rfl⟩
  | thirtyTwoBit h => exact bind_eq_ok.mpr ⟨_, h ▸ readBytes_append bytes rest, rfl⟩
  | @lengthDelimited size bytes h =>
    refine bind_eq_ok.mpr ⟨(bytes, .ofBytes rest), ?_, rfl⟩
    rw [List.append_assoc]
    exact bind_eq_ok.mpr ⟨_, h.read _, readBytes_append bytes rest⟩

lemma skipGroup_step {skip : WireType → Nat → Reader Unit} {group number bound : Nat}
    {wireType : WireType} {key value rest : Bytes} (hk : IsKey number wireType key)
    (hw : wireType ≠ .endGroup)
    (hs : skip wireType number (.ofBytes (value ++ rest)) = .ok ((), .ofBytes rest)) :
    skipGroup skip group (bound + 1) (.ofBytes (key ++ (value ++ rest))) =
      skipGroup skip group bound (.ofBytes rest) := by
  rw [skipGroup, hk.read]
  simp only [bind, Except.bind, if_neg hw, hs]

lemma IsPlain.ne_endGroup {wireType : WireType} {bytes : Bytes} (h : IsPlain wireType bytes) :
    wireType ≠ .endGroup := by
  rintro rfl
  cases h

theorem IsFields.skip {numbers : Nat → Prop} {depth : Nat} {bytes : Bytes}
    (h : IsFields numbers depth bytes) {group bound : Nat} {close : Bytes}
    (hc : IsKey group .endGroup close) (rest : Bytes)
    (hb : (bytes ++ (close ++ rest)).length < bound) :
    skipGroup (skipValue depth) group bound (.ofBytes (bytes ++ (close ++ rest))) =
      .ok ((), .ofBytes rest) := by
  induction h generalizing group bound close rest with
  | nil =>
    cases bound with
    | zero => omega
    | succ bound =>
      rw [List.nil_append, skipGroup, hc.read]
      simp only [bind, Except.bind, if_true]
  | @plain numbers depth number wireType key value more _ hk hv _ ih =>
    cases bound with
    | zero => omega
    | succ bound =>
      simp only [List.append_assoc] at hb ⊢
      rw [skipGroup_step hk hv.ne_endGroup (hv.skip depth number _)]
      have hp := hk.length_pos
      simp only [List.length_append] at hb
      exact ih hc rest (by simp only [List.length_append]; omega)
  | @group numbers depth number start inner stop more _ hk _ hstop _ ihi ih =>
    cases bound with
    | zero => omega
    | succ bound =>
      simp only [List.append_assoc] at hb ⊢
      have hs : skipValue (depth + 1) .startGroup number
          (.ofBytes (inner ++ (stop ++ (more ++ (close ++ rest))))) =
            .ok ((), .ofBytes (more ++ (close ++ rest))) :=
        ihi hstop _ (Nat.lt_succ_self _)
      rw [← List.append_assoc inner] at hs ⊢
      rw [skipGroup_step hk (by decide) hs]
      have hp := hk.length_pos
      simp only [List.length_append] at hb
      exact ih hc rest (by simp only [List.length_append]; omega)

lemma readDown_unknown {type : RecordType} {number : Nat} {wireType : WireType}
    {key value rest : Bytes} (hn : type.field? number = none) (hk : IsKey number wireType key)
    (hs : skipValue depthLimit wireType number (.ofBytes (value ++ rest)) =
      .ok ((), .ofBytes rest)) :
    readDown (readOuterField type) 0 (.ofBytes (key ++ (value ++ rest))) =
      readDown (readOuterField type) 0 (.ofBytes rest) := by
  have hp := hk.length_pos
  have hsize : ¬ (Input.ofBytes (key ++ (value ++ rest))).size ≤ 0 := by
    simp only [Input.size_ofBytes, List.length_append]
    omega
  have hf : readOuterField type (.ofBytes (key ++ (value ++ rest))) = .ok ([], .ofBytes rest) := by
    rw [readOuterField, readField, hk.read]
    simp only [bind, Except.bind, hn, hs]
  rw [readDown_eq (readOuterField_takes type), if_neg hsize, hf]
  simp only [bind, Except.bind, List.nil_append]
  cases readDown (readOuterField type) 0 (.ofBytes rest) <;> rfl

lemma IsFields.readDown {type : RecordType} {numbers : Nat → Prop} {depth : Nat} {bytes : Bytes}
    (h : IsFields numbers depth bytes) (hd : depth = depthLimit)
    (hn : ∀ number, numbers number → type.field? number = none) :
    readDown (readOuterField type) 0 (.ofBytes bytes) = .ok ([], .ofBytes []) := by
  induction h with
  | nil =>
    rw [readDown_eq (readOuterField_takes type)]
    rfl
  | plain hm hk hv _ ih =>
    rw [readDown_unknown (hn _ hm) hk (hd ▸ hv.skip _ _ _), ih hd hn]
  | @group numbers depth number start inner close rest hm hk hi hc _ _ ih =>
    have hs : skipValue (depth + 1) .startGroup number (.ofBytes ((inner ++ close) ++ rest)) =
        .ok ((), .ofBytes rest) := by
      rw [List.append_assoc]
      exact hi.skip hc rest (Nat.lt_succ_self _)
    rw [← List.append_assoc inner, readDown_unknown (hn _ hm) hk (hd ▸ hs), ih hd hn]

theorem UnknownFields.decode {type : RecordType} {bytes : Bytes} (h : UnknownFields type bytes) :
    decode type bytes = .ok [] := by
  rw [decode_eq, IsFields.readDown h rfl fun _ hn => hn]
  rfl

end TopicSchema.Wire
