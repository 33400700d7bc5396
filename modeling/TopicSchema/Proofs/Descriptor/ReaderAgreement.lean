import TopicSchema.Proofs.Descriptor.Words
import TopicSchema.Proofs.Plugin.Envelope

namespace TopicSchema

open Json

lemma Recorded.opens {α : Type} {slots : Nat → α → List Slot} {depth : Nat} {a : α}
    {s t : List Char} (h : Recorded slots depth a s t) : ∃ r, s = '\x7b' :: r := by
  cases depth with
  | zero => exact h.elim
  | succ depth =>
    obtain ⟨u, rfl, _⟩ := h
    exact ⟨u, rfl⟩

lemma Recorded.takes_listed {α γ : Type} {slots : Nat → α → List Slot} {type : RecordType}
    {of : List Entry → γ} {goal : α → γ} {as : List α}
    (h : ∀ depth, ∀ a ∈ as, Takes (readRecord depth type) (Recorded slots depth a) (of · = goal a))
    (depth : Nat) :
    Takes (readRecords depth type) (Listed (Recorded slots) depth as) (·.map of = as.map goal) :=
  readRecords_takes (fun _ _ _ _ hr => hr.opens) fun d _ => h d

namespace ValueDescriptor

def rows (v : ValueDescriptor) : List (Slot × (ValueDescriptor → ValueDescriptor)) :=
  [(textSlot "name" v.name, fun a => { a with name := v.name.or a.name }),
    (integerSlot "number" v.number, fun a => { a with number := v.number.or a.number })]

lemma takes (depth : Nat) {v : ValueDescriptor} (hv : ∀ n ∈ v.number, Wire.FitsWord n) :
    Takes (readRecord depth .value) (Writes depth v) (ofEntries · = v) := by
  cases depth with
  | zero => exact fun s t h => h.elim
  | succ depth =>
    have hserves : ∀ r ∈ v.rows, Serves add .value (readMember (readRecords depth)) r.1 r.2 := by
      simp only [rows, List.forall_mem_cons]
      refine ⟨serves_text rfl fun a => ?_, serves_integer hv rfl fun a => ?_, by simp⟩
      · cases v.name <;> rfl
      · cases v.number <;> rfl
    have hcommute : v.rows.Pairwise fun r q => Function.Commute r.2 q.2 := by
      simp [rows, commute_iff]
    refine (readRecord_takes hserves hcommute rfl).mono fun es hes => ?_
    rw [ofEntries, hes]
    simp [updateAll, rows]

end ValueDescriptor

namespace EnumDescriptor

def withValues (e : EnumDescriptor) (values : List ValueDescriptor) : EnumDescriptor :=
  { e with values := e.values ++ values }

def rows (depth : Nat) (e : EnumDescriptor) : List (Slot × (EnumDescriptor → EnumDescriptor)) :=
  [(textSlot "name" e.name, fun a => { a with name := e.name.or a.name }),
    (listSlot "value" (Listed ValueDescriptor.Writes depth) e.values,
      (withValues · (e.values.map id)))]

lemma takes (depth : Nat) {e : EnumDescriptor} (he : e.OnWire) :
    Takes (readRecord depth .enumeration) (Writes depth e) (ofEntries · = e) := by
  cases depth with
  | zero => exact fun s t h => h.elim
  | succ depth =>
    have hvalues : Takes (readRecords depth .value)
        (Listed ValueDescriptor.Writes depth e.values)
        (·.map ValueDescriptor.ofEntries = e.values.map id) :=
      Recorded.takes_listed (fun d v hv => ValueDescriptor.takes d (he v hv)) depth
    have hserves : ∀ r ∈ e.rows depth,
        Serves add .enumeration (readMember (readRecords depth)) r.1 r.2 := by
      simp only [rows, List.forall_mem_cons]
      refine ⟨serves_text rfl fun a => ?_, serves_list rfl hvalues ?_, by simp⟩
      · cases e.name <;> rfl
      · exact foldl_records (by simp [withValues]) (by simp [withValues]) fun _ _ => rfl
    have hcommute : (e.rows depth).Pairwise fun r q => Function.Commute r.2 q.2 := by
      simp [rows, commute_iff, withValues]
    refine (readRecord_takes hserves hcommute rfl).mono fun es hes => ?_
    rw [ofEntries, hes]
    simp [updateAll, rows, withValues]

end EnumDescriptor

namespace FieldDescriptor

def rows (f : FieldDescriptor) : List (Slot × (FieldDescriptor → FieldDescriptor)) :=
  [(textSlot "name" f.name, fun a => { a with name := f.name.or a.name }),
    (integerSlot "number" f.number, fun a => { a with number := f.number.or a.number }),
    (textSlot "label" (f.label.bind (·.word? labelVocabulary)),
      fun a => { a with label := f.inWords.label.or a.label }),
    (textSlot "type" (f.type.bind (·.word? typeVocabulary)),
      fun a => { a with type := f.inWords.type.or a.type }),
    (textSlot "typeName" f.typeName, fun a => { a with typeName := f.typeName.or a.typeName })]

lemma takes (depth : Nat) {f : FieldDescriptor} (hf : f.OnWire) :
    Takes (readRecord depth .field) (Writes depth f) (ofEntries · = f.inWords) := by
  cases depth with
  | zero => exact fun s t h => h.elim
  | succ depth =>
    have hserves : ∀ r ∈ f.rows, Serves add .field (readMember (readRecords depth)) r.1 r.2 := by
      simp only [rows, List.forall_mem_cons]
      refine ⟨serves_text rfl fun a => ?_, serves_integer hf.number rfl fun a => ?_,
        serves_text rfl fun a => ?_, serves_text rfl fun a => ?_, serves_text rfl fun a => ?_,
        by simp⟩
      · cases f.name <;> rfl
      · cases f.number <;> rfl
      · rw [inWords]
        cases f.label.bind (·.word? labelVocabulary) <;> rfl
      · rw [inWords]
        cases f.type.bind (·.word? typeVocabulary) <;> rfl
      · cases f.typeName <;> rfl
    have hcommute : f.rows.Pairwise fun r q => Function.Commute r.2 q.2 := by
      simp [rows, commute_iff]
    refine (readRecord_takes hserves hcommute rfl).mono fun es hes => ?_
    rw [ofEntries, hes]
    simp [updateAll, rows, inWords]

end FieldDescriptor

namespace MessageDescriptor

lemma addAll_eq_foldl (m : MessageDescriptor) (es : List Entry) : addAll m es = es.foldl add m := by
  induction es generalizing m with
  | nil => rfl
  | cons e es ih => exact ih (m.add e)

def withFields (m : MessageDescriptor) (fields : List FieldDescriptor) : MessageDescriptor :=
  { m with fields := m.fields ++ fields }

def withMessages (m : MessageDescriptor) (messages : List MessageDescriptor) : MessageDescriptor :=
  { m with messages := m.messages ++ messages }

def withEnumerations (m : MessageDescriptor) (enumerations : List EnumDescriptor) :
    MessageDescriptor :=
  { m with enumerations := m.enumerations ++ enumerations }

def rows (depth : Nat) (m : MessageDescriptor) :
    List (Slot × (MessageDescriptor → MessageDescriptor)) :=
  [(textSlot "name" m.name, fun a => { a with name := m.name.or a.name }),
    (listSlot "field" (Listed FieldDescriptor.Writes depth) m.fields,
      (withFields · (m.fields.map .inWords))),
    (listSlot "nestedType" (WritesAll depth) m.messages,
      (withMessages · (m.messages.map .inWords))),
    (listSlot "enumType" (Listed EnumDescriptor.Writes depth) m.enumerations,
      (withEnumerations · (m.enumerations.map id)))]

lemma Writes.opens {depth : Nat} {m : MessageDescriptor} {s t : List Char}
    (h : Writes depth m s t) : ∃ r, s = '\x7b' :: r := by
  cases depth with
  | zero => exact h.elim
  | succ depth =>
    obtain ⟨u, rfl, _⟩ := h
    exact ⟨u, rfl⟩

lemma takes (depth : Nat) {m : MessageDescriptor} (hm : m.OnWire) :
    Takes (readRecord depth .message) (Writes depth m) (ofEntries · = m.inWords) := by
  induction depth using Nat.strongRecOn generalizing m with
  | ind depth ih =>
    cases depth with
    | zero => exact fun s t h => h.elim
    | succ depth =>
      obtain ⟨hf, hn, he⟩ := hm
      have hfields : Takes (readRecords depth .field)
          (Listed FieldDescriptor.Writes depth m.fields)
          (·.map FieldDescriptor.ofEntries = m.fields.map .inWords) :=
        Recorded.takes_listed (fun d f hm => FieldDescriptor.takes d (hf f hm)) depth
      have hmessages : Takes (readRecords depth .message) (WritesAll depth m.messages)
          (·.map ofEntries = m.messages.map inWords) := by
        rw [writesAll_eq]
        exact readRecords_takes (fun _ _ _ _ h => h.opens) fun d hd n hm =>
          ih d (Nat.lt_succ_of_lt hd) (hn n hm)
      have henumerations : Takes (readRecords depth .enumeration)
          (Listed EnumDescriptor.Writes depth m.enumerations)
          (·.map EnumDescriptor.ofEntries = m.enumerations.map id) :=
        Recorded.takes_listed (fun d e hm => EnumDescriptor.takes d (he e hm)) depth
      have hserves : ∀ r ∈ m.rows depth,
          Serves add .message (readMember (readRecords depth)) r.1 r.2 := by
        simp only [rows, List.forall_mem_cons]
        refine ⟨serves_text rfl fun a => ?_, serves_list rfl hfields ?_,
          serves_list rfl hmessages ?_, serves_list rfl henumerations ?_, by simp⟩
        · cases a
          cases m.name <;> rfl
        · exact foldl_records (fun a => by cases a; simp [withFields]) (by simp [withFields])
            fun _ _ => by rw [add, withFields]
        · exact foldl_records (fun a => by cases a; simp [withMessages]) (by simp [withMessages])
            fun _ _ => by rw [add, withMessages, ofEntries]
        · exact foldl_records (fun a => by cases a; simp [withEnumerations])
            (by simp [withEnumerations]) fun _ _ => by rw [add, withEnumerations]
      have hcommute : (m.rows depth).Pairwise fun r q => Function.Commute r.2 q.2 := by
        simp [rows, commute_iff, withFields, withMessages, withEnumerations]
      refine (readRecord_takes hserves hcommute rfl).mono fun es hes => ?_
      rw [ofEntries, addAll_eq_foldl, hes, inWords_eq]
      simp [updateAll, rows, withFields, withMessages, withEnumerations]

end MessageDescriptor

namespace FileDescriptor

def withMessages (f : FileDescriptor) (messages : List MessageDescriptor) : FileDescriptor :=
  { f with messages := f.messages ++ messages }

def withEnumerations (f : FileDescriptor) (enumerations : List EnumDescriptor) : FileDescriptor :=
  { f with enumerations := f.enumerations ++ enumerations }

def rows (depth : Nat) (f : FileDescriptor) : List (Slot × (FileDescriptor → FileDescriptor)) :=
  [(textSlot "name" f.name, fun a => { a with name := f.name.or a.name }),
    (textSlot "package" f.package, fun a => { a with package := f.package.or a.package }),
    (listSlot "messageType" (Listed MessageDescriptor.Writes depth) f.messages,
      (withMessages · (f.messages.map .inWords))),
    (listSlot "enumType" (Listed EnumDescriptor.Writes depth) f.enumerations,
      (withEnumerations · (f.enumerations.map id)))]

lemma takes (depth : Nat) {f : FileDescriptor} (hf : f.OnWire) :
    Takes (readRecord depth .file) (Writes depth f) (ofEntries · = f.inWords) := by
  cases depth with
  | zero => exact fun s t h => h.elim
  | succ depth =>
    have hmessages : Takes (readRecords depth .message)
        (Listed MessageDescriptor.Writes depth f.messages)
        (·.map MessageDescriptor.ofEntries = f.messages.map .inWords) :=
      readRecords_takes (fun _ _ _ _ h => h.opens) fun d _ m hm =>
        MessageDescriptor.takes d (hf.messages m hm)
    have henumerations : Takes (readRecords depth .enumeration)
        (Listed EnumDescriptor.Writes depth f.enumerations)
        (·.map EnumDescriptor.ofEntries = f.enumerations.map id) :=
      Recorded.takes_listed (fun d e he => EnumDescriptor.takes d (hf.enumerations e he)) depth
    have hserves : ∀ r ∈ f.rows depth,
        Serves add .file (readMember (readRecords depth)) r.1 r.2 := by
      simp only [rows, List.forall_mem_cons]
      refine ⟨serves_text rfl fun a => ?_, serves_text rfl fun a => ?_,
        serves_list rfl hmessages ?_, serves_list rfl henumerations ?_, by simp⟩
      · cases f.name <;> rfl
      · cases f.package <;> rfl
      · exact foldl_records (by simp [withMessages]) (by simp [withMessages]) fun _ _ => rfl
      · exact foldl_records (by simp [withEnumerations]) (by simp [withEnumerations])
          fun _ _ => rfl
    have hcommute : (f.rows depth).Pairwise fun r q => Function.Commute r.2 q.2 := by
      simp [rows, commute_iff, withMessages, withEnumerations]
    refine (readRecord_takes hserves hcommute rfl).mono fun es hes => ?_
    rw [ofEntries, hes]
    simp [updateAll, rows, inWords, withMessages, withEnumerations]

end FileDescriptor

namespace DescriptorSet

def addFile (files : List FileDescriptor) (e : Entry) : List FileDescriptor :=
  files ++ FileDescriptor.ofSet [e]

lemma foldl_addFile (es : List Entry) (files : List FileDescriptor) :
    es.foldl addFile files = files ++ FileDescriptor.ofSet es := by
  induction es generalizing files with
  | nil => simp [FileDescriptor.ofSet]
  | cons e es ih =>
    rw [List.foldl_cons, ih, addFile, List.append_assoc, FileDescriptor.ofSet,
      FileDescriptor.ofSet, FileDescriptor.ofSet, ← List.map_append, ← List.filterMap_append]
    rfl

def rows (depth : Nat) (files : List FileDescriptor) :
    List (Slot × (List FileDescriptor → List FileDescriptor)) :=
  [(listSlot "file" (Listed FileDescriptor.Writes depth) files, (· ++ files.map .inWords))]

lemma takes (depth : Nat) {files : List FileDescriptor} (hf : ∀ f ∈ files, f.OnWire) :
    Takes (readRecord depth .set) (Recorded slots depth files)
      (FileDescriptor.ofSet · = files.map .inWords) := by
  cases depth with
  | zero => exact fun s t h => h.elim
  | succ depth =>
    have hfiles : Takes (readRecords depth .file) (Listed FileDescriptor.Writes depth files)
        (·.map FileDescriptor.ofEntries = files.map .inWords) :=
      Recorded.takes_listed (fun d f hm => FileDescriptor.takes d (hf f hm)) depth
    have hserves : ∀ r ∈ rows depth files,
        Serves addFile .set (readMember (readRecords depth)) r.1 r.2 := by
      simp only [rows, List.forall_mem_cons]
      refine ⟨serves_list rfl hfiles ?_, by simp⟩
      exact foldl_records (by simp) (by simp) fun _ _ => rfl
    have hcommute : (rows depth files).Pairwise fun r q => Function.Commute r.2 q.2 := by
      simp [rows]
    refine (readRecord_takes hserves hcommute rfl).mono fun es hes => ?_
    have h := hes []
    rw [foldl_addFile] at h
    exact h

end DescriptorSet

theorem DescriptorSet.ofJson_eq_definitions {files : List FileDescriptor} {text : String}
    (hw : ∀ f ∈ files, f.OnWire) (hk : ∀ f ∈ files, f.Known) (h : Writes files text) :
    ofJson text = definitions files := by
  obtain ⟨s, t, hs, hset, ht⟩ := h
  obtain ⟨_, hread⟩ := takes 127 hw s t hset
  obtain ⟨es, hes, hfiles⟩ := hread _ hs
  have hend : (skipBlank t).isEmpty = true := by
    rw [ht.skipBlank_eq]
    rfl
  have hdecode : decode text = .ok es := by
    rw [decode, depthLimit, hes]
    simp [bind, Except.bind, hend]
  rw [ofJson, hdecode, definitions, ← FileDescriptor.definitions_inWords hk, ← hfiles]
  rfl

def mixedField : FieldDescriptor where
  number := some 3
  label := some (.number 3)
  type := some (.number 5)

def mixedMessage : MessageDescriptor where
  fields := [mixedField]

def mixedFile : FileDescriptor where
  name := "a"
  messages := [mixedMessage]

def mixedText : String :=
  "\x7b\"file\":[\x7b\"messageType\":[\x7b\"field\":[\x7b\"label\":\"LABEL_REPEATED\","
    ++ "\"json\":[],\"type\": \"TYPE_INT32\",\"number\":3\x7d]\x7d],\"package\":null,"
    ++ "\"name\":\"\\u0061\"\x7d]\x7d\n"

def quoted (word : String) (t : List Char) : List Char :=
  '"' :: (word.toList ++ '"' :: t)

def mixedFieldText (t : List Char) : List Char :=
  '\x7b' :: quoted "label" (':' :: quoted "LABEL_REPEATED" (',' ::
    quoted "json" (':' :: '[' :: ']' :: ',' ::
    quoted "type" (':' :: ' ' :: quoted "TYPE_INT32" (',' ::
    quoted "number" (':' :: ((toString (3 : Int)).toList ++ '\x7d' :: t)))))))

def mixedMessageText (t : List Char) : List Char :=
  '\x7b' :: quoted "field" (':' :: '[' :: mixedFieldText (']' :: '\x7d' :: t))

def mixedFileText (t : List Char) : List Char :=
  '\x7b' :: quoted "messageType" (':' :: '[' :: mixedMessageText (']' :: ',' ::
    quoted "package" (':' :: ("null".toList ++ ',' ::
    quoted "name" (':' :: '"' :: '\\' :: 'u' :: '0' :: '0' :: '6' :: '1' :: '"' :: '\x7d' :: t)))))

lemma mixedText_toList : mixedText.toList =
    '\x7b' :: quoted "file" (':' :: '[' :: mixedFileText [']', '\x7d', '\n']) := by
  decide +kernel

lemma spells_self {cs : List Char}
    (h : cs.all (fun c => ' ' ≤ c ∧ c ≠ '"' ∧ c ≠ '\\') = true) (strict : Bool) (t : List Char) :
    Spells strict cs (cs ++ '"' :: t) t := by
  induction cs with
  | nil => exact .close
  | cons c cs ih =>
    rw [List.all_cons, Bool.and_eq_true, decide_eq_true_eq] at h
    obtain ⟨⟨hc, hq, hs⟩, h⟩ := h
    exact .plain hc hq hs (ih h)

lemma mixedField_writes (t : List Char) :
    FieldDescriptor.Writes 121 mixedField (mixedFieldText t) t := by
  have hstops : Stops ('\x7d' :: t) := by
    intro c hc
    cases hc
    decide
  refine ⟨_, rfl, ?_⟩
  change Members _ _ ([textSlot "name" none, integerSlot "number" (some 3)] ++
    textSlot "label" (some "LABEL_REPEATED") ::
      [textSlot "type" (some "TYPE_INT32"), textSlot "typeName" none]) _ _
  refine .known (.first .none) (spells_self (by decide) _ _) .none .none
    (.inr ⟨_, rfl, _, rfl, spells_self (by decide) _ _⟩) ?_
  refine .unknown (.comma .none .none) (spells_self (by decide) _ _) (by decide) .none .none
    (.list (.close .none)) ?_
  refine .known (.comma .none .none) (spells_self (by decide) _ _) .none
    (.cons (by decide) .none) (.inr ⟨_, rfl, _, rfl, spells_self (by decide) _ _⟩) ?_
  change Members _ _ ([textSlot "name" none] ++ integerSlot "number" (some 3) ::
    [textSlot "typeName" none]) _ _
  exact .known (.comma .none .none) (spells_self (by decide) _ _) .none .none
    (.inr ⟨_, rfl, rfl, hstops⟩) (.close (by simp [textSlot]) .none)

lemma mixedMessage_writes (t : List Char) :
    MessageDescriptor.Writes 123 mixedMessage (mixedMessageText t) t := by
  refine ⟨_, rfl, ?_⟩
  change Members _ _ ([textSlot "name" none] ++
    listSlot "field" (Listed FieldDescriptor.Writes 122) [mixedField] ::
      [listSlot "nestedType" (MessageDescriptor.WritesAll 122) [],
        listSlot "enumType" (Listed EnumDescriptor.Writes 122) []]) _ _
  refine .known (.first .none) (spells_self (by decide) _ _) .none .none
    ⟨_, rfl, .item (.first .none) (mixedField_writes _) (.close .none)⟩ ?_
  exact .close (by simp [textSlot, listSlot]) .none

lemma mixedFile_writes (t : List Char) :
    FileDescriptor.Writes 125 mixedFile (mixedFileText t) t := by
  have hnumber : HexNumber 0x61 ('0' :: '0' :: '6' :: '1' :: '"' :: '\x7d' :: t)
      ('"' :: '\x7d' :: t) :=
    .mk (i := 0) (j := 0) (k := 6) (l := 1) (by decide) (by decide) (by decide) (by decide)
  refine ⟨_, rfl, ?_⟩
  change Members _ _ ([textSlot "name" (some "a"), textSlot "package" none] ++
    listSlot "messageType" (Listed MessageDescriptor.Writes 124) [mixedMessage] ::
      [listSlot "enumType" (Listed EnumDescriptor.Writes 124) []]) _ _
  refine .known (.first .none) (spells_self (by decide) _ _) .none .none
    ⟨_, rfl, .item (.first .none) (mixedMessage_writes _) (.close .none)⟩ ?_
  change Members _ _ ([textSlot "name" (some "a")] ++ textSlot "package" none ::
    [listSlot "enumType" (Listed EnumDescriptor.Writes 124) []]) _ _
  refine .known (.comma .none .none) (spells_self (by decide) _ _) .none .none
    (.inl ⟨rfl, rfl⟩) ?_
  change Members _ _ ([] ++ textSlot "name" (some "a") ::
    [listSlot "enumType" (Listed EnumDescriptor.Writes 124) []]) _ _
  exact .known (.comma .none .none) (spells_self (by decide) _ _) .none .none
    (.inr ⟨_, rfl, _, rfl, .numbered hnumber (by decide) .close⟩)
    (.close (by simp [listSlot]) .none)

lemma mixedText_writes : DescriptorSet.Writes [mixedFile] mixedText := by
  rw [DescriptorSet.Writes, mixedText_toList]
  refine ⟨_, ['\n'], .none, ⟨_, rfl, ?_⟩, .cons (by decide) .none⟩
  change Members _ _
    ([] ++ listSlot "file" (Listed FileDescriptor.Writes 126) [mixedFile] :: []) _ _
  exact .known (.first .none) (spells_self (by decide) _ _) .none .none
    ⟨_, rfl, .item (.first .none) (mixedFile_writes _) (.close .none)⟩ (.close (by simp) .none)

lemma mixedFile_onWire : mixedFile.OnWire := by
  refine ⟨fun m hm => ?_, fun e he => by cases he⟩
  obtain rfl := List.mem_singleton.mp hm
  refine .intro (fun f hf => ?_) (fun n hn => by cases hn) fun e he => by cases he
  obtain rfl := List.mem_singleton.mp hf
  constructor <;> simp [mixedField, Code.OnWire, Wire.FitsWord]

lemma mixedFile_known : mixedFile.Known := by
  intro m hm
  obtain rfl := List.mem_singleton.mp hm
  refine .intro (fun f hf => ?_) fun n hn => by cases hn
  obtain rfl := List.mem_singleton.mp hf
  constructor <;> simp [mixedField] <;> decide

theorem DescriptorSet.ofJson_eq_definitions_mixed :
    (∀ f ∈ [mixedFile], f.OnWire) ∧ (∀ f ∈ [mixedFile], f.Known) ∧
      Writes [mixedFile] mixedText ∧
      definitions [mixedFile] =
        .ok [⟨"a", "", [⟨"", [⟨"", 3, .repeated, .scalar .int32⟩], [], []⟩], []⟩] ∧
      ofJson mixedText = definitions [mixedFile] := by
  have hw : ∀ f ∈ [mixedFile], f.OnWire := by
    rintro f (_ | ⟨_, ⟨⟩⟩)
    exact mixedFile_onWire
  have hk : ∀ f ∈ [mixedFile], f.Known := by
    rintro f (_ | ⟨_, ⟨⟩⟩)
    exact mixedFile_known
  exact ⟨hw, hk, mixedText_writes, rfl, ofJson_eq_definitions hw hk mixedText_writes⟩

end TopicSchema
