import TopicSchema.Proofs.Except
import TopicSchema.Wire.Reader

namespace TopicSchema.Wire

def Input.append (input : Input) (more : Bytes) : Input :=
  ⟨input.bytes ++ more, input.size + more.length, by simp [input.size_eq]⟩

lemma Input.size_append (input : Input) (more : Bytes) :
    (input.append more).size = input.size + more.length :=
  rfl

lemma Input.append_ofBytes (bytes more : Bytes) :
    (ofBytes bytes).append more = ofBytes (bytes ++ more) :=
  Input.ext rfl

lemma Input.next?_append {input rest : Input} {b : UInt8} (h : input.next? = some (b, rest)) :
    rest.size + 1 = input.size ∧
      ∀ more, (input.append more).next? = some (b, rest.append more) := by
  obtain ⟨bytes, size, rfl⟩ := input
  cases bytes with
  | nil => cases h
  | cons c bytes =>
    cases h
    exact ⟨by simp, fun more => congrArg (fun i => some (b, i)) (Input.ext rfl)⟩

lemma Input.take?_eq_some {count : Nat} {input rest : Input} {taken : Bytes}
    (h : input.take? count = some (taken, rest)) :
    rest.size + count = input.size ∧
      ∀ more, (input.append more).take? count = some (taken, rest.append more) := by
  obtain ⟨bytes, size, rfl⟩ := input
  rw [take?] at h
  split at h
  · next hc =>
    cases h
    refine ⟨by simp at hc ⊢; omega, fun more => ?_⟩
    rw [take?, if_pos (by rw [size_append]; omega)]
    congr 2
    · exact List.take_append_of_le_length hc
    · exact Input.ext (List.drop_append_of_le_length hc)
  · cases h

def Takes {α : Type} (least : Nat) (read : Reader α) : Prop :=
  ∀ input x rest, read input = .ok (x, rest) →
    rest.size + least ≤ input.size ∧
      ∀ more, read (input.append more) = .ok (x, rest.append more)

variable {α β : Type} {least : Nat}

lemma Takes.weaken {read : Reader α} (h : Takes least read) : Takes 0 read := by
  intro input x rest hr
  obtain ⟨hs, hm⟩ := h input x rest hr
  exact ⟨by omega, hm⟩

lemma Takes.bind {first : Reader α} {next : α → Reader β} (hf : Takes least first)
    (hn : ∀ a, Takes 0 (next a)) :
    Takes least fun input => first input >>= fun r => next r.1 r.2 := by
  intro input x rest hr
  obtain ⟨⟨a, middle⟩, ha, hr⟩ := bind_eq_ok.mp hr
  obtain ⟨hs, hm⟩ := hf _ _ _ ha
  obtain ⟨hs', hm'⟩ := hn a _ _ _ hr
  dsimp only at hs'
  refine ⟨by omega, ?_⟩
  intro more
  exact bind_eq_ok.mpr ⟨_, hm more, hm' more⟩

lemma takes_ok (a : α) : Takes 0 fun input => .ok (a, input) := by
  intro input x rest hr
  cases hr
  exact ⟨by omega, fun more => rfl⟩

lemma takes_error (least : Nat) (e : DecodeError) : Takes (α := α) least fun _ => .error e := by
  intro input x rest hr
  cases hr

lemma Takes.mapError {read : Reader α} (h : Takes least read) (f : DecodeError → DecodeError) :
    Takes least fun input => (read input).mapError f := by
  intro input x rest hr
  obtain ⟨hs, hm⟩ := h _ _ _ (mapError_eq_ok.mp hr)
  exact ⟨hs, fun more => mapError_eq_ok.mpr (hm more)⟩

lemma Varint.readWithin_append {places n : Nat} {input rest : Input}
    (h : readWithin places input = some (n, rest)) :
    rest.size + 1 ≤ input.size ∧
      ∀ more, readWithin places (input.append more) = some (n, rest.append more) := by
  induction places generalizing input n with
  | zero => cases h
  | succ places ih =>
    rw [readWithin] at h
    split at h
    · cases h
    · next b middle hb =>
      obtain ⟨hs, hm⟩ := Input.next?_append hb
      split at h
      · next hlast =>
        split at h
        · cases h
        · next hlow =>
          cases h
          refine ⟨by omega, fun more => ?_⟩
          simp only [readWithin, hm more, if_pos hlast, if_neg hlow]
      · next hlast =>
        obtain ⟨⟨high, rest'⟩, hr, he⟩ := Option.map_eq_some_iff.mp h
        cases he
        obtain ⟨hs', hm'⟩ := ih hr
        refine ⟨by omega, fun more => ?_⟩
        simp only [readWithin, hm more, if_neg hlast, hm' more, Option.map_some]

lemma readVarint_takes : Takes 1 readVarint := by
  intro input n rest hr
  rw [readVarint] at hr
  split at hr
  · next hv =>
    cases hr
    obtain ⟨hs, hm⟩ := Varint.readWithin_append hv
    refine ⟨hs, fun more => ?_⟩
    rw [readVarint, Varint.read?, hm more]
  · cases hr

lemma readBytes_takes (count : Nat) : Takes count (readBytes count) := by
  intro input x rest hr
  rw [readBytes] at hr
  split at hr
  · next ht =>
    cases hr
    obtain ⟨hs, hm⟩ := Input.take?_eq_some ht
    refine ⟨by omega, fun more => ?_⟩
    rw [readBytes, hm more]
  · cases hr

lemma readSized_takes : Takes 0 readSized :=
  (readVarint_takes.bind fun count => (readBytes_takes count).weaken).weaken

lemma skipping_takes {read : Reader α} (h : Takes 0 read) : Takes 0 (skipping read) :=
  h.bind fun _ => takes_ok ()

lemma readKey_takes : Takes 1 readKey := by
  intro input x rest hr
  obtain ⟨⟨key, middle⟩, hk, hr⟩ := bind_eq_ok.mp hr
  obtain ⟨hs, hm⟩ := readVarint_takes _ _ _ hk
  dsimp only at hr
  split at hr
  · cases hr
  · next hrange =>
    split at hr
    · cases hr
    · next wireType hw =>
      split at hr
      · cases hr
      · next hnumber =>
        cases hr
        refine ⟨hs, fun more => bind_eq_ok.mpr ⟨_, hm more, ?_⟩⟩
        simp only [if_neg hrange, hw, if_neg hnumber]

lemma readBytes_append (bytes rest : Bytes) :
    readBytes bytes.length (.ofBytes (bytes ++ rest)) = .ok (bytes, .ofBytes rest) := by
  rw [readBytes, Input.take?_append]

lemma readKey_of_readVarint {number : Nat} {wireType : WireType} {input rest : Input}
    (hv : readVarint input = .ok (8 * number + wireType.number, rest)) (hn : 0 < number)
    (hr : 8 * number + wireType.number < wordRange) :
    readKey input = .ok ((number, wireType), rest) := by
  have hw : wireType.number < 8 := by cases wireType <;> decide
  have hmod : (8 * number + wireType.number) % 8 = wireType.number := by omega
  have hdiv : (8 * number + wireType.number) / 8 = number := by omega
  refine bind_eq_ok.mpr ⟨_, hv, ?_⟩
  simp only [if_neg (Nat.not_le.mpr hr), hmod, WireType.ofNumber?_number, hdiv,
    if_neg (Nat.ne_of_gt hn)]

lemma skipGroup_takes {skip : WireType → Nat → Reader Unit}
    (hs : ∀ wireType number, Takes 0 (skip wireType number)) {group bound : Nat}
    {input rest : Input} (h : skipGroup skip group bound input = .ok ((), rest)) :
    rest.size ≤ input.size ∧ ∀ more bound', bound ≤ bound' →
      skipGroup skip group bound' (input.append more) = .ok ((), rest.append more) := by
  induction bound generalizing input with
  | zero => cases h
  | succ bound ih =>
    obtain ⟨⟨⟨number, wireType⟩, middle⟩, hk, h⟩ := bind_eq_ok.mp h
    obtain ⟨hsize, hmore⟩ := readKey_takes _ _ _ hk
    dsimp only at h
    split at h
    · next hend =>
      split at h
      · next hgroup =>
        cases h
        refine ⟨by omega, ?_⟩
        rintro more (_ | bound') hb
        · omega
        · refine bind_eq_ok.mpr ⟨_, hmore more, ?_⟩
          simp only [if_pos hend, if_pos hgroup]
      · cases h
    · next hend =>
      obtain ⟨⟨⟨⟩, after⟩, hv, h⟩ := bind_eq_ok.mp h
      obtain ⟨hsize', hmore'⟩ := hs _ _ _ _ _ hv
      obtain ⟨hsize'', hmore''⟩ := ih h
      dsimp only at hsize''
      refine ⟨by omega, ?_⟩
      rintro more (_ | bound') hb
      · omega
      · refine bind_eq_ok.mpr ⟨_, hmore more, ?_⟩
        simp only [if_neg hend]
        exact bind_eq_ok.mpr ⟨_, hmore' more, hmore'' more bound' (by omega)⟩

theorem skipValue_takes (depth : Nat) (wireType : WireType) (number : Nat) :
    Takes 0 (skipValue depth wireType number) := by
  induction depth generalizing wireType number with
  | zero => exact takes_error 0 _
  | succ depth ih =>
    cases wireType with
    | varint => exact skipping_takes readVarint_takes.weaken
    | sixtyFourBit => exact skipping_takes (readBytes_takes 8).weaken
    | thirtyTwoBit => exact skipping_takes (readBytes_takes 4).weaken
    | lengthDelimited => exact skipping_takes readSized_takes
    | startGroup =>
      intro input x rest hr
      obtain ⟨hs, hm⟩ := skipGroup_takes ih hr
      exact ⟨hs, fun more => hm more _ (by rw [Input.size_append]; omega)⟩
    | endGroup => exact takes_error 0 _

lemma readItems_bound {item : Reader (List α)} (hi : Takes 1 item) {stop : Nat} {input : Input}
    {bound bound' : Nat} (hb : input.size ≤ bound) (hb' : input.size ≤ bound') :
    readItems item stop bound input = readItems item stop bound' input := by
  induction bound generalizing input bound' with
  | zero =>
    cases bound' with
    | zero => rfl
    | succ bound' => rw [readItems, readItems, if_pos (by omega)]
  | succ bound ih =>
    cases bound' with
    | zero => rw [readItems, readItems, if_pos (by omega)]
    | succ bound' =>
      rw [readItems, readItems]
      split
      · rfl
      · cases h : item input with
        | error e => rfl
        | ok r =>
          obtain ⟨hs, _⟩ := hi _ _ _ h
          have hr := ih (show r.2.size ≤ bound by omega) (show r.2.size ≤ bound' by omega)
          simp only [bind, Except.bind, hr]

def readDown (item : Reader (List α)) (stop : Nat) : Reader (List α) := fun input =>
  readItems item stop input.size input

lemma readDown_eq {item : Reader (List α)} (hi : Takes 1 item) (stop : Nat) (input : Input) :
    readDown item stop input =
      if input.size ≤ stop then .ok ([], input)
      else item input >>= fun r => (readDown item stop r.2).map fun s => (r.1 ++ s.1, s.2) := by
  rw [readDown]
  cases hn : input.size with
  | zero => rw [readItems, if_pos (by omega)]
  | succ n =>
    rw [readItems, hn]
    split
    · rfl
    · cases h : item input with
      | error e => rfl
      | ok r =>
        obtain ⟨hs, _⟩ := hi _ _ _ h
        have hb : readItems item stop n r.2 = readItems item stop r.2.size r.2 :=
          readItems_bound hi (by omega) (Nat.le_refl _)
        simp only [bind, Except.bind, hb, readDown]
        cases readItems item stop r.2.size r.2 <;> rfl

theorem readDown_append {item : Reader (List α)} (hi : Takes 1 item) {stop : Nat}
    {input rest : Input} {xs : List α} (h : readDown item stop input = .ok (xs, rest))
    (more : Bytes) {stop' : Nat} (hstop : stop' ≤ stop + more.length) :
    rest.size ≤ input.size ∧ rest.size ≤ stop ∧ readDown item stop' (input.append more) =
      (readDown item stop' (rest.append more)).map fun r => (xs ++ r.1, r.2) := by
  induction hn : input.size using Nat.strongRecOn generalizing input xs with
  | ind n ih =>
    rw [readDown_eq hi] at h
    split at h
    · next hdone =>
      cases h
      refine ⟨by omega, hdone, ?_⟩
      cases h : readDown item stop' (rest.append more) <;> rfl
    · next hgoes =>
      obtain ⟨⟨first, middle⟩, hf, h⟩ := bind_eq_ok.mp h
      obtain ⟨hs, hm⟩ := hi _ _ _ hf
      cases ho : readDown item stop middle with
      | error e => simp [ho, Except.map] at h
      | ok r =>
        simp only [ho, Except.map, Except.ok.injEq] at h
        cases h
        obtain ⟨hs', hs'', he⟩ := ih middle.size (by omega) ho rfl
        refine ⟨by omega, hs'', ?_⟩
        rw [readDown_eq hi, if_neg (by rw [Input.size_append]; omega), hm more]
        simp only [bind, Except.bind, he]
        cases readDown item stop' (r.2.append more) with
        | error e => rfl
        | ok s => simp [Except.map]

lemma readDelimited_takes {item : Reader (List α)} (hi : Takes 1 item) :
    Takes 0 (readDelimited item) := by
  intro input xs rest h
  obtain ⟨⟨count, middle⟩, hc, h⟩ := bind_eq_ok.mp h
  obtain ⟨hs, hm⟩ := readVarint_takes _ _ _ hc
  dsimp only at h
  split at h
  · cases h
  · next hroom =>
    obtain ⟨⟨items, after⟩, hr, h⟩ := bind_eq_ok.mp h
    dsimp only at h
    split at h
    · next hend =>
      cases h
      have hr : readDown item (middle.size - count) middle = .ok (xs, rest) := hr
      refine ⟨by omega, fun more => bind_eq_ok.mpr ⟨_, hm more, ?_⟩⟩
      have hstop : (middle.append more).size - count = middle.size - count + more.length := by
        rw [Input.size_append]; omega
      obtain ⟨_, _, he⟩ := readDown_append hi hr more (Nat.le_of_eq hstop)
      have hdone : (rest.append more).size = (middle.append more).size - count := by
        rw [hstop, Input.size_append, hend]
      rw [readDown_eq hi _ (rest.append more), if_pos (Nat.le_of_eq hdone)] at he
      have hroom' : ¬ (middle.append more).size < count := by rw [Input.size_append]; omega
      dsimp only
      rw [if_neg hroom']
      refine bind_eq_ok.mpr ⟨_, he, ?_⟩
      simp only [if_pos hdone, List.append_nil]
    · cases h

lemma expecting_takes {read : Reader α} (h : Takes least read) (expected actual : WireType) :
    Takes least fun input => expect expected actual >>= fun _ => read input := by
  rw [expect]
  split
  · exact h
  · exact takes_error least _

lemma readInt32_takes (number : Nat) : Takes 1 (readInt32 number) :=
  readVarint_takes.bind fun n => takes_ok [Entry.integer number (signed wordRange n)]

lemma readValue_takes {readRecord : RecordType → Reader (List Entry)}
    (hr : ∀ type, Takes 0 (readRecord type)) (rule : FieldRule) (wireType : WireType) :
    Takes 0 (readValue readRecord rule wireType) := by
  unfold readValue
  cases rule.content with
  | int32 => exact expecting_takes (readInt32_takes _).weaken _ _
  | int32s =>
    dsimp only
    split
    · exact readDelimited_takes (readInt32_takes _)
    · exact expecting_takes (readInt32_takes _).weaken _ _
  | uint64 =>
    have h := readVarint_takes.bind fun n => takes_ok [Entry.integer rule.number n]
    exact expecting_takes h.weaken .varint wireType
  | int64 =>
    have h := readVarint_takes.bind fun n =>
      takes_ok [Entry.integer rule.number (signed longRange n)]
    exact expecting_takes h.weaken .varint wireType
  | bool =>
    have h := readVarint_takes.bind fun n => takes_ok [Entry.boolean rule.number (n != 0)]
    exact expecting_takes h.weaken .varint wireType
  | double =>
    have h := (readBytes_takes 8).bind fun value => takes_ok [Entry.double rule.number value]
    exact expecting_takes h.weaken .sixtyFourBit wireType
  | text =>
    intro input x rest h
    obtain ⟨⟨⟩, he, h⟩ := bind_eq_ok.mp h
    obtain ⟨⟨value, after⟩, hv, h⟩ := bind_eq_ok.mp h
    obtain ⟨hsize, hm⟩ := readSized_takes _ _ _ hv
    dsimp only at h
    split at h
    · next s hs =>
      cases h
      refine ⟨hsize, fun more => bind_eq_ok.mpr ⟨_, he, bind_eq_ok.mpr ⟨_, hm more, ?_⟩⟩⟩
      simp only [hs]
    · cases h
  | bytes =>
    have h := readSized_takes.bind fun value => takes_ok [Entry.bytes rule.number value]
    exact expecting_takes h .lengthDelimited wireType
  | record type =>
    have h := (hr type).bind fun entries => takes_ok [Entry.record rule.number entries]
    exact expecting_takes h .lengthDelimited wireType

lemma readField_takes {readRecord : RecordType → Reader (List Entry)}
    {skip : WireType → Nat → Reader Unit} (hr : ∀ type, Takes 0 (readRecord type))
    (hs : ∀ wireType number, Takes 0 (skip wireType number)) (type : RecordType) :
    Takes 1 (readField readRecord skip type) := by
  intro input x rest h
  obtain ⟨⟨⟨number, wireType⟩, middle⟩, hk, h⟩ := bind_eq_ok.mp h
  obtain ⟨hsize, hm⟩ := readKey_takes _ _ _ hk
  dsimp only at h
  split at h
  · next rule hf =>
    obtain ⟨hsize', hm'⟩ := (readValue_takes hr rule wireType).mapError _ _ _ _ h
    refine ⟨by omega, fun more => bind_eq_ok.mpr ⟨_, hm more, ?_⟩⟩
    simp only [hf]
    exact hm' more
  · next hf =>
    obtain ⟨⟨⟨⟩, after⟩, hv, h⟩ := bind_eq_ok.mp h
    cases h
    obtain ⟨hsize', hm'⟩ := hs _ _ _ _ _ hv
    refine ⟨by dsimp only; omega, fun more => bind_eq_ok.mpr ⟨_, hm more, ?_⟩⟩
    simp only [hf]
    exact bind_eq_ok.mpr ⟨_, hm' more, rfl⟩

theorem readRecord_takes (depth : Nat) (type : RecordType) : Takes 0 (readRecord depth type) := by
  induction depth generalizing type with
  | zero => exact takes_error 0 _
  | succ depth ih => exact readDelimited_takes (readField_takes ih (skipValue_takes depth) type)

def readOuterField (type : RecordType) : Reader (List Entry) :=
  readField (readRecord depthLimit) (skipValue depthLimit) type

lemma readOuterField_takes (type : RecordType) : Takes 1 (readOuterField type) :=
  readField_takes (readRecord_takes depthLimit) (skipValue_takes depthLimit) type

lemma decode_eq (type : RecordType) (bytes : Bytes) :
    decode type bytes = (readDown (readOuterField type) 0 (.ofBytes bytes)).map (·.1) := by
  rw [decode, readDown, Input.size_ofBytes]
  change (readItems (readOuterField type) 0 bytes.length (.ofBytes bytes) >>= _) = _
  cases readItems (readOuterField type) 0 bytes.length (.ofBytes bytes) <;> rfl

theorem decode_append {type : RecordType} {a : Bytes} {xs : List Entry}
    (h : decode type a = .ok xs) (b : Bytes) :
    decode type (a ++ b) = (decode type b).map (xs ++ ·) := by
  rw [decode_eq] at h
  cases hr : readDown (readOuterField type) 0 (.ofBytes a) with
  | error e => simp [hr, Except.map] at h
  | ok r =>
    simp only [hr, Except.map, Except.ok.injEq] at h
    obtain ⟨_, hend, he⟩ := readDown_append (readOuterField_takes type) hr b (Nat.zero_le _)
    have hrest : r.2.append b = .ofBytes b := by
      apply Input.ext
      have hn : r.2.bytes = [] := by
        rw [← List.length_eq_zero_iff, ← r.2.size_eq]
        omega
      simp only [Input.append, hn, List.nil_append]
      rfl
    rw [decode_eq, decode_eq, ← Input.append_ofBytes, he, hrest, ← h]
    cases readDown (readOuterField type) 0 (.ofBytes b) <;> rfl

end TopicSchema.Wire
