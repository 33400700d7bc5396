import TopicSchema.Proofs.Wire.Prefixes
import TopicSchema.Wire.Writer

namespace TopicSchema

namespace Entry

mutual

def depth : Entry → Nat
  | record _ entries => depthOf entries + 1
  | _ => 0

def depthOf : List Entry → Nat
  | [] => 0
  | e :: es => max e.depth (depthOf es)

end

lemma depth_le_depthOf {e : Entry} {es : List Entry} (h : e ∈ es) : e.depth ≤ depthOf es := by
  induction es with
  | nil => cases h
  | cons d es ih =>
    rw [depthOf]
    rcases List.mem_cons.mp h with rfl | h
    · exact Nat.le_max_left _ _
    · exact Nat.le_trans (ih h) (Nat.le_max_right _ _)

lemma depthOf_le {es : List Entry} {n : Nat} (h : ∀ e ∈ es, e.depth ≤ n) : depthOf es ≤ n := by
  induction es with
  | nil => exact Nat.zero_le n
  | cons d es ih =>
    rw [depthOf]
    exact Nat.max_le.mpr ⟨h d List.mem_cons_self, ih fun e he => h e (List.mem_cons_of_mem d he)⟩

end Entry

namespace Wire

def FitsWord (n : Int) : Prop :=
  -0x80000000 ≤ n ∧ n < 0x80000000

inductive Conforms : RecordType → Entry → Prop
  | int32 {type : RecordType} {number : Nat} {rule : FieldRule} {n : Int} :
      type.field? number = some rule → rule.content = .int32 ∨ rule.content = .int32s →
      FitsWord n → Conforms type (.integer number n)
  | uint64 {type : RecordType} {number : Nat} {rule : FieldRule} {n : Int} :
      type.field? number = some rule → rule.content = .uint64 →
      0 ≤ n → n < 0x10000000000000000 → Conforms type (.integer number n)
  | int64 {type : RecordType} {number : Nat} {rule : FieldRule} {n : Int} :
      type.field? number = some rule → rule.content = .int64 →
      -0x8000000000000000 ≤ n → n < 0x8000000000000000 → Conforms type (.integer number n)
  | bool {type : RecordType} {number : Nat} {rule : FieldRule} {b : Bool} :
      type.field? number = some rule → rule.content = .bool → Conforms type (.boolean number b)
  | double {type : RecordType} {number : Nat} {rule : FieldRule} {value : Bytes} :
      type.field? number = some rule → rule.content = .double → value.length = 8 →
      Conforms type (.double number value)
  | text {type : RecordType} {number : Nat} {rule : FieldRule} {s : String} :
      type.field? number = some rule → rule.content = .text → Conforms type (.text number s)
  | bytes {type : RecordType} {number : Nat} {rule : FieldRule} {value : Bytes} :
      type.field? number = some rule → rule.content = .bytes → Conforms type (.bytes number value)
  | record {type inner : RecordType} {number : Nat} {rule : FieldRule} {es : List Entry} :
      type.field? number = some rule → rule.content = .record inner →
      (∀ e ∈ es, Conforms inner e) → Conforms type (.record number es)

lemma field?_eq_some {type : RecordType} {number : Nat} {rule : FieldRule}
    (h : type.field? number = some rule) :
    rule.number = number ∧ 0 < number ∧ number < 0x20000000 := by
  have hnumber : rule.number = number := by simpa using List.find?_some h
  have hall : ∀ rule ∈ type.fields, 0 < rule.number ∧ rule.number < 0x20000000 := by
    cases type <;> decide
  exact ⟨hnumber, hnumber ▸ hall rule (List.mem_of_find?_eq_some h)⟩

lemma readVarint_write {n : Nat} (h : n < longRange) (rest : Bytes) :
    readVarint (.ofBytes (Varint.write n ++ rest)) = .ok (n, .ofBytes rest) := by
  rw [readVarint, Varint.read?_write n rest h]

lemma readKey_write {number : Nat} (hn : 0 < number) (hb : number < 0x20000000)
    (wireType : WireType) (rest : Bytes) :
    readKey (.ofBytes (writeKey number wireType ++ rest)) =
      .ok ((number, wireType), .ofBytes rest) := by
  have hw : wireType.number < 8 := by cases wireType <;> decide
  have hv : 8 * number + wireType.number < wordRange := by rw [wordRange]; omega
  have hl : 8 * number + wireType.number < longRange := Nat.lt_trans hv (by decide)
  exact readKey_of_readVarint (readVarint_write hl rest) hn hv

lemma readSized_write (value : Bytes) (h : value.length < longRange) (rest : Bytes) :
    readSized (.ofBytes (Varint.write value.length ++ value ++ rest)) =
      .ok (value, .ofBytes rest) := by
  rw [List.append_assoc]
  exact bind_eq_ok.mpr ⟨_, readVarint_write h _, readBytes_append value rest⟩

lemma length_write_pos (n : Nat) : 0 < (Varint.write n).length := by
  rw [Varint.write, Varint.writeWithin]
  split <;> simp

lemma length_writeEntry_pos (e : Entry) : 0 < (writeEntry e).length := by
  have key (number : Nat) (wireType : WireType) (value : Bytes) :
      0 < (writeKey number wireType ++ value).length := by
    rw [List.length_append]
    exact Nat.add_pos_left (length_write_pos _) _
  cases e with
  | integer number value => exact key ..
  | boolean number value => exact key ..
  | double number value => exact key ..
  | text number value => rw [writeEntry, writeSized, List.append_assoc]; exact key ..
  | bytes number value => rw [writeEntry, writeSized, List.append_assoc]; exact key ..
  | record number entries => rw [writeEntry, writeSized, List.append_assoc]; exact key ..

lemma length_writeEntry_le {e : Entry} {es : List Entry} (h : e ∈ es) :
    (writeEntry e).length ≤ (encode es).length := by
  induction es with
  | nil => cases h
  | cons d es ih =>
    rw [encode, List.length_append]
    rcases List.mem_cons.mp h with rfl | h
    · omega
    · have := ih h
      omega

lemma readText_write (s : String) :
    String.fromUTF8? (s.toUTF8.data.toList.toByteArray) = some s := by
  have hb : s.toUTF8.data.toList.toByteArray = s.toUTF8 := ByteArray.ext (by simp)
  rw [hb]
  simp [String.fromUTF8?, String.fromUTF8, s.isValidUTF8]

lemma readInt32_write {n : Int} (h : FitsWord n) (number : Nat) (rest : Bytes) :
    readInt32 number (.ofBytes (Varint.write (unsigned n) ++ rest)) =
      .ok ([.integer number n], .ofBytes rest) := by
  obtain ⟨hlow, hhigh⟩ := h
  have hu : unsigned n < longRange := by rw [unsigned, longRange]; omega
  have hs : signed wordRange (unsigned n) = n := by
    rw [signed, wordRange, unsigned, Int.bmod]
    omega
  refine bind_eq_ok.mpr ⟨_, readVarint_write hu rest, ?_⟩
  simp only [hs]

lemma readDown_encode {item : Reader (List Entry)} (hi : Takes 1 item) {es : List Entry}
    (he : ∀ e ∈ es, ∀ rest,
      item (.ofBytes (writeEntry e ++ rest)) = .ok ([e], .ofBytes rest)) (rest : Bytes) :
    readDown item rest.length (.ofBytes (encode es ++ rest)) = .ok (es, .ofBytes rest) := by
  induction es with
  | nil => rw [readDown_eq hi, if_pos (by simp [encode, Input.size_ofBytes])]; rfl
  | cons e es ih =>
    have hp := length_writeEntry_pos e
    have hsize : ¬ (Input.ofBytes (encode (e :: es) ++ rest)).size ≤ rest.length := by
      simp only [encode, Input.size_ofBytes, List.length_append]
      omega
    rw [readDown_eq hi, if_neg hsize, encode, List.append_assoc, he e List.mem_cons_self]
    simp only [bind, Except.bind, ih fun d hd => he d (List.mem_cons_of_mem e hd)]
    rfl

lemma readDelimited_encode {item : Reader (List Entry)} (hi : Takes 1 item) {es : List Entry}
    (he : ∀ e ∈ es, ∀ rest, item (.ofBytes (writeEntry e ++ rest)) = .ok ([e], .ofBytes rest))
    (hs : (encode es).length < longRange) (rest : Bytes) :
    readDelimited item (.ofBytes (Varint.write (encode es).length ++ encode es ++ rest)) =
      .ok (es, .ofBytes rest) := by
  rw [List.append_assoc]
  have hstop : (Input.ofBytes (encode es ++ rest)).size - (encode es).length = rest.length := by
    simp [Input.size_ofBytes]
  refine bind_eq_ok.mpr ⟨_, readVarint_write hs _, ?_⟩
  dsimp only
  rw [if_neg (by simp [Input.size_ofBytes]), hstop]
  refine bind_eq_ok.mpr ⟨_, readDown_encode hi he rest, ?_⟩
  simp [Input.size_ofBytes]

lemma readField_key {readRecord : RecordType → Reader (List Entry)}
    {skip : WireType → Nat → Reader Unit} {type : RecordType} {number : Nat} {rule : FieldRule}
    (hf : type.field? number = some rule) {wireType : WireType} {value : Bytes} {es : List Entry}
    {rest : Bytes}
    (hv : rule.number = number →
      readValue readRecord rule wireType (.ofBytes (value ++ rest)) = .ok (es, .ofBytes rest)) :
    readField readRecord skip type (.ofBytes (writeKey number wireType ++ value ++ rest)) =
      .ok (es, .ofBytes rest) := by
  obtain ⟨hnumber, hn, hb⟩ := field?_eq_some hf
  rw [List.append_assoc]
  refine bind_eq_ok.mpr ⟨_, readKey_write hn hb wireType _, ?_⟩
  simp only [hf, hv hnumber, mapError_ok]

lemma readField_sized {readRecord : RecordType → Reader (List Entry)}
    {skip : WireType → Nat → Reader Unit} {type : RecordType} {number : Nat} {rule : FieldRule}
    (hf : type.field? number = some rule) {value : Bytes} {es : List Entry} {rest : Bytes}
    (hs : (writeSized number value).length < longRange)
    (hv : rule.number = number → value.length < longRange →
      readValue readRecord rule .lengthDelimited
        (.ofBytes (Varint.write value.length ++ value ++ rest)) = .ok (es, .ofBytes rest)) :
    readField readRecord skip type (.ofBytes (writeSized number value ++ rest)) =
      .ok (es, .ofBytes rest) := by
  rw [writeSized, List.append_assoc (writeKey _ _)] at hs ⊢
  simp only [List.length_append] at hs
  exact readField_key hf fun hnumber => hv hnumber (by omega)

lemma expect_self (wireType : WireType) : expect wireType wireType = .ok () := by
  rw [expect, if_pos rfl]

theorem readField_write {type : RecordType} {e : Entry} (hc : Conforms type e) {depth : Nat}
    (hd : e.depth ≤ depth) (hs : (writeEntry e).length < longRange)
    (skip : WireType → Nat → Reader Unit) (rest : Bytes) :
    readField (readRecord depth) skip type (.ofBytes (writeEntry e ++ rest)) =
      .ok ([e], .ofBytes rest) := by
  induction hc generalizing depth skip rest with
  | @int32 type number rule n hf hcontent hn =>
    rw [writeEntry]
    refine readField_key hf fun hnumber => ?_
    have hr := readInt32_write hn number rest
    rcases hcontent with hcontent | hcontent
    · simp only [readValue, hcontent, expect_self, hnumber, hr, bind, Except.bind]
    · simp only [readValue, hcontent, expect_self, hnumber, hr, bind, Except.bind, if_neg (show
        WireType.varint ≠ .lengthDelimited by decide)]
  | @uint64 type number rule n hf hcontent hlow hhigh =>
    rw [writeEntry]
    refine readField_key hf fun hnumber => ?_
    have hu : unsigned n < longRange := by rw [unsigned, longRange]; omega
    have hn : (unsigned n : Int) = n := by rw [unsigned]; omega
    simp only [readValue, hcontent, expect_self, hnumber, readVarint_write hu, hn, bind,
      Except.bind]
  | @int64 type number rule n hf hcontent hlow hhigh =>
    rw [writeEntry]
    refine readField_key hf fun hnumber => ?_
    have hu : unsigned n < longRange := by rw [unsigned, longRange]; omega
    have hn : signed longRange (unsigned n) = n := by
      rw [signed, longRange, unsigned, Int.bmod]
      omega
    simp only [readValue, hcontent, expect_self, hnumber, readVarint_write hu, hn, bind,
      Except.bind]
  | @bool type number rule b hf hcontent =>
    rw [writeEntry]
    refine readField_key hf fun hnumber => ?_
    have hu : b.toNat < longRange := by cases b <;> decide
    have hb : (b.toNat != 0) = b := by cases b <;> rfl
    simp only [readValue, hcontent, expect_self, hnumber, readVarint_write hu, hb, bind,
      Except.bind]
  | @double type number rule value hf hcontent hlength =>
    rw [writeEntry]
    refine readField_key hf fun hnumber => ?_
    have hr : readBytes 8 (.ofBytes (value ++ rest)) = .ok (value, .ofBytes rest) :=
      hlength ▸ readBytes_append value rest
    simp only [readValue, hcontent, expect_self, hnumber, hr, bind, Except.bind]
  | @text type number rule s hf hcontent =>
    rw [writeEntry] at hs ⊢
    refine readField_sized hf hs fun hnumber hl => ?_
    have hr := readSized_write s.toUTF8.data.toList hl rest
    simp only [readValue, hcontent, expect_self, hnumber, hr, readText_write, bind, Except.bind]
  | @bytes type number rule value hf hcontent =>
    rw [writeEntry] at hs ⊢
    refine readField_sized hf hs fun hnumber hl => ?_
    have hr := readSized_write value hl rest
    simp only [readValue, hcontent, expect_self, hnumber, hr, bind, Except.bind]
  | @record type inner number rule es hf hcontent _ ih =>
    rw [writeEntry] at hs ⊢
    refine readField_sized hf hs fun hnumber hl => ?_
    rw [Entry.depth] at hd
    cases depth with
    | zero => omega
    | succ depth =>
      have hitem := readField_takes (readRecord_takes depth) (skipValue_takes depth) inner
      have hread : ∀ e ∈ es, ∀ rest, readField (readRecord depth) (skipValue depth) inner
          (.ofBytes (writeEntry e ++ rest)) = .ok ([e], .ofBytes rest) := by
        intro e he rest
        have hde := Entry.depth_le_depthOf he
        have hse := length_writeEntry_le he
        exact ih e he (by omega) (by omega) _ rest
      have hr : readRecord (depth + 1) inner
          (.ofBytes (Varint.write (encode es).length ++ encode es ++ rest)) =
            .ok (es, .ofBytes rest) :=
        readDelimited_encode hitem hread hl rest
      simp only [readValue, hcontent, expect_self, hnumber, hr, bind, Except.bind]

theorem decode_encode {type : RecordType} {es : List Entry} (hc : ∀ e ∈ es, Conforms type e)
    (hd : Entry.depthOf es ≤ depthLimit) (hs : (encode es).length < longRange) :
    decode type (encode es) = .ok es := by
  have hread : ∀ e ∈ es, ∀ rest,
      readOuterField type (.ofBytes (writeEntry e ++ rest)) = .ok ([e], .ofBytes rest) := by
    intro e he rest
    have hde := Entry.depth_le_depthOf he
    have hse := length_writeEntry_le he
    exact readField_write (hc e he) (by omega) (by omega) _ rest
  have hr := readDown_encode (readOuterField_takes type) hread []
  rw [List.append_nil] at hr
  rw [decode_eq, show 0 = ([] : Bytes).length from rfl, hr]
  rfl

end Wire

end TopicSchema
