import TopicSchema.Proofs.Lookup
import TopicSchema.Proofs.Schema.FieldLines

/-! A schema for JSON is the binary schema of the files in which the well-known types are replaced
by the scalars that JSON writes for them. -/

namespace TopicSchema

def FieldType.plain : FieldType → FieldType
  | .scalar type => .scalar type
  | .named kind typeName => match WellKnown.scalar? typeName with
    | some type => .scalar type
    | none => .named kind typeName

def Field.plain (field : Field) : Field :=
  { field with type := field.type.plain }

namespace Message

mutual

def plain : Message → Message
  | ⟨name, fields, messages, enumerations⟩ =>
    ⟨name, fields.map Field.plain, plainAll messages, enumerations⟩

def plainAll : List Message → List Message
  | [] => []
  | m :: ms => m.plain :: plainAll ms

end

lemma plainAll_eq (ms : List Message) : plainAll ms = ms.map plain := by
  induction ms with
  | nil => rfl
  | cons m ms ih => rw [plainAll, ih, List.map_cons]

@[simp] lemma name_plain (m : Message) : m.plain.name = m.name := by
  cases m
  rfl

@[simp] lemma messages_plain (m : Message) : m.plain.messages = m.messages.map plain := by
  cases m
  exact plainAll_eq _

@[simp] lemma enumerations_plain (m : Message) : m.plain.enumerations = m.enumerations := by
  cases m
  rfl

end Message

def ProtoFile.plain (file : ProtoFile) : ProtoFile :=
  { file with messages := file.messages.map Message.plain }

@[simp] lemma ProtoFile.scope_plain (file : ProtoFile) : file.plain.scope = file.scope := rfl

def Definition.plain : Definition → Definition
  | message m => .message m.plain
  | enumeration e => .enumeration e

namespace TypeIndex

def plain (index : TypeIndex) : TypeIndex :=
  { index with messages := index.messages.map fun d => (d.1, d.2.plain) }

@[simp] lemma size_plain (index : TypeIndex) : index.plain.size = index.size := by
  simp [size, plain]

lemma keepFirst_map_snd {α β : Type} (f : α → β) (table : List (String × α)) (name : String)
    (value : α) :
    keepFirst (table.map fun d => (d.1, f d.2)) name (f value) =
      (keepFirst table name value).map fun d => (d.1, f d.2) := by
  rw [keepFirst, keepFirst, lookup_map_snd, Option.isSome_map]
  by_cases h : (table.lookup name).isSome = true
  · rw [if_pos h, if_pos h]
  · rw [if_neg h, if_neg h, List.map_append, List.map_singleton]

lemma definition?_plain (index : TypeIndex) (kind : TypeKind) (t : String) :
    index.plain.definition? kind t = (index.definition? kind t).map Definition.plain := by
  cases kind with
  | message =>
    have h : index.plain.message? t = (index.message? t).map Message.plain :=
      lookup_map_snd Message.plain index.messages t
    simp only [definition?, h, Option.map_map]
    rfl
  | enumeration =>
    simp only [definition?, Option.map_map]
    rfl

lemma definition_plain (index : TypeIndex) (kind : TypeKind) (t : String) :
    index.plain.definition kind t = (index.definition kind t).map Definition.plain := by
  rw [definition, definition, definition?_plain]
  cases index.definition? kind t <;> rfl

lemma plain_foldl {α : Type} {add : TypeIndex → α → TypeIndex} {l : List α} (f : α → α)
    (h : ∀ index, ∀ a ∈ l, (add index a).plain = add index.plain (f a)) (index : TypeIndex) :
    (l.foldl add index).plain = (l.map f).foldl add index.plain := by
  induction l generalizing index with
  | nil => rfl
  | cons a l ih =>
    rw [List.foldl_cons, List.map_cons, List.foldl_cons,
      ih (fun i b hb => h i b (List.mem_cons_of_mem a hb)), h index a List.mem_cons_self]

lemma plain_addEnumerations (scope : String) (es : List Enumeration) (index : TypeIndex) :
    (es.foldl (addEnumeration scope) index).plain =
      es.foldl (addEnumeration scope) index.plain := by
  rw [plain_foldl id (fun _ _ _ => rfl), List.map_id]

lemma plain_addMessage (scope : String) (index : TypeIndex) (m : Message) :
    (addMessage scope index m).plain = addMessage scope index.plain m.plain := by
  induction m using Message.nested_induction generalizing scope index with
  | h m ih =>
    let typeName := TypeName.qualify scope m.name
    let inner := m.enumerations.foldl (addEnumeration typeName)
      (m.messages.foldl (addMessage typeName) index)
    have hi : inner.plain = m.enumerations.foldl (addEnumeration typeName)
        ((m.messages.map Message.plain).foldl (addMessage typeName) index.plain) := by
      rw [plain_addEnumerations, plain_foldl Message.plain fun i n hn => ih n hn typeName i]
    have hk : keepFirst inner.plain.messages typeName m.plain =
        (keepFirst inner.messages typeName m).map fun d => (d.1, d.2.plain) :=
      keepFirst_map_snd Message.plain inner.messages typeName m
    simp only [addMessage_eq, Message.name_plain, Message.enumerations_plain,
      Message.messages_plain]
    change TypeIndex.plain { inner with messages := keepFirst inner.messages typeName m } = _
    rw [← hi, hk]
    rfl

theorem plain_ofFiles (files : List ProtoFile) :
    (ofFiles files).plain = ofFiles (files.map ProtoFile.plain) := by
  refine plain_foldl ProtoFile.plain (fun index f _ => ?_) {}
  rw [addFile, addFile, addMessages_eq, addMessages_eq, plain_addEnumerations,
    plain_foldl Message.plain fun i m _ => plain_addMessage f.scope i m]
  rfl

end TypeIndex

namespace Schema

def Owed.plain (o : Owed) : Owed :=
  ⟨o.typeName, o.definition.plain⟩

lemma parent_wellKnown {t : String} (h : (WellKnown.scalar? t).isSome) :
    TypeName.parent t = ".google.protobuf" := by
  obtain ⟨d, hd, ht⟩ := List.lookup_isSome_iff.mp h
  obtain rfl : t = d.1 := by simpa using ht
  revert d
  decide +kernel

variable {index : TypeIndex} {scope : String}

lemma reference_plain (h : scope ≠ ".google.protobuf") (type : FieldType) :
    reference .binary scope type.plain = reference .json scope type := by
  cases type with
  | scalar type => rfl
  | named kind t =>
    rw [FieldType.plain, reference_named]
    cases hs : WellKnown.scalar? t with
    | some type =>
      -- the type is not nested in the message, so that JSON writes the scalar as well
      have hp : TypeName.parent t ≠ scope := by
        rw [parent_wellKnown (by simp [hs])]
        exact h.symm
      simp [hp, reference]
    | none => simp [reference_named]

lemma fieldLine_plain (h : scope ≠ ".google.protobuf") (placed : List String) (field : Field) :
    fieldLine index.plain .binary scope placed field.plain =
      (fieldLine index .json scope placed field).map fun r => (r.1, r.2.map Owed.plain) := by
  rw [fieldLine, fieldLine]
  simp only [Field.plain, reference_plain h, TypeIndex.definition_plain]
  cases reference .json scope field.type with
  | scalar type => rfl
  | own kind t =>
    dsimp only
    cases index.definition kind t <;> rfl
  | external kind t =>
    by_cases hp : t ∈ placed
    · simp only [if_pos hp]
      rfl
    · simp only [if_neg hp]
      cases index.definition kind t <;> rfl

lemma fieldLines_plain (h : scope ≠ ".google.protobuf") (placed : List String)
    (fields : List Field) :
    fieldLines index.plain .binary scope placed (fields.map Field.plain) =
      (fieldLines index .json scope placed fields).map fun r => (r.1, r.2.map Owed.plain) := by
  induction fields generalizing placed with
  | nil => rfl
  | cons field fields ih =>
    rw [List.map_cons, fieldLines, fieldLines, fieldLine_plain h]
    cases fieldLine index .json scope placed field with
    | error e => rfl
    | ok r =>
      obtain ⟨line, owed⟩ := r
      have ho : (owed.map Owed.plain).toList.map (·.typeName) = owed.toList.map (·.typeName) := by
        cases owed <;> rfl
      simp only [Except.map, bind, Except.bind, ho, ih]
      cases fieldLines index .json scope (placed ++ owed.toList.map (·.typeName)) fields with
      | error e => rfl
      | ok r => cases owed <;> rfl

variable {files : List ProtoFile} {define define' : Definer}

lemma defineAll_plain {owed : List Owed}
    (hd : ∀ placed, ∀ o ∈ owed, define' placed o.plain = define placed o)
    (placed : List String) :
    defineAll define' placed (owed.map Owed.plain) = defineAll define placed owed := by
  induction owed generalizing placed with
  | nil => rfl
  | cons o owed ih =>
    rw [List.map_cons, defineAll, defineAll, hd placed o List.mem_cons_self]
    cases define placed o with
    | error e => rfl
    | ok r =>
      simp only [bind, Except.bind]
      rw [ih fun p a ha => hd p a (List.mem_cons_of_mem o ha)]

lemma nestedBlocks_plain {ms : List Message}
    (hm : ∀ placed, ∀ m ∈ ms,
      messageBlock index.plain .binary define' placed m.name (TypeName.qualify scope m.name)
          m.plain =
        messageBlock index .json define placed m.name (TypeName.qualify scope m.name) m)
    (placed : List String) :
    nestedBlocks index.plain .binary define' placed scope (ms.map Message.plain) =
      nestedBlocks index .json define placed scope ms := by
  induction ms generalizing placed with
  | nil => rfl
  | cons m ms ih =>
    rw [List.map_cons, nestedBlocks, nestedBlocks, Message.name_plain,
      hm placed m List.mem_cons_self]
    cases messageBlock index .json define placed m.name (TypeName.qualify scope m.name) m with
    | error e => rfl
    | ok r =>
      simp only [bind, Except.bind]
      rw [ih fun p n hn => hm p n (List.mem_cons_of_mem m hn)]

lemma messageBlock_plain (hf : ∀ d ∈ definedMessages files, d.1 ≠ ".google.protobuf")
    (hd : ∀ placed o, o.Indexed index → define' placed o.plain = define placed o)
    {m : Message} (hm : (scope, m) ∈ definedMessages files) (placed : List String)
    (name : String) :
    messageBlock index.plain .binary define' placed name scope m.plain =
      messageBlock index .json define placed name scope m := by
  induction m using Message.nested_induction generalizing scope placed name with
  | h m ih =>
    obtain ⟨own, fields, messages, enumerations⟩ := m
    have hn (p : List String) :
        nestedBlocks index.plain .binary define' p scope (messages.map Message.plain) =
          nestedBlocks index .json define p scope messages :=
      nestedBlocks_plain (fun p n hn => ih n hn (nested_mem_definedMessages hm hn) p n.name) p
    rw [Message.plain, Message.plainAll_eq, messageBlock, messageBlock,
      fieldLines_plain (hf _ hm)]
    cases hl : fieldLines index .json scope placed fields with
    | error e => rfl
    | ok r =>
      obtain ⟨lines, owed⟩ := r
      have ho : (owed.map Owed.plain).map (·.typeName) = owed.map (·.typeName) := by
        rw [List.map_map]
        rfl
      simp only [Except.map, bind, Except.bind, ho, hn]
      cases nestedBlocks index .json define (placed ++ owed.map (·.typeName)) scope messages with
      | error e => rfl
      | ok r =>
        have hi := (fieldLines_eq_ok hl).2.2
        simp only [defineAll_plain fun p o ho => hd p o (hi o ho)]

lemma definer_plain (hf : ∀ d ∈ definedMessages files, d.1 ≠ ".google.protobuf") (budget : Nat)
    (placed : List String) {o : Owed} (ho : o.Indexed (.ofFiles files)) :
    definer (TypeIndex.ofFiles files).plain .binary budget placed o.plain =
      definer (.ofFiles files) .json budget placed o := by
  induction budget generalizing placed o with
  | zero => rfl
  | succ budget ih =>
    obtain ⟨t, definition⟩ := o
    cases definition with
    | message m =>
      have hm := (TypeIndex.definition?_eq_message.mp ho).2
      exact messageBlock_plain hf (fun p o => ih p) (TypeIndex.mem_of_message? hm) placed _
    | enumeration e => rfl

lemma rootBlock_plain (hf : ∀ d ∈ definedMessages files, d.1 ≠ ".google.protobuf") {m : Message}
    (hm : (TypeName.qualify scope m.name, m) ∈ definedMessages files) :
    rootBlock (TypeIndex.ofFiles files).plain .binary scope m.plain =
      rootBlock (.ofFiles files) .json scope m := by
  rw [rootBlock, rootBlock, TypeIndex.size_plain, Message.name_plain]
  exact messageBlock_plain hf (fun p o => definer_plain hf _ p) hm [] m.name

theorem compile_json_eq_plain (hf : ∀ d ∈ definedMessages files, d.1 ≠ ".google.protobuf")
    (dialect : Dialect) {file : ProtoFile} (hm : file ∈ files) :
    compile (.ofFiles files) ⟨dialect, .json⟩ file =
      compile (.ofFiles (files.map ProtoFile.plain)) ⟨dialect, .binary⟩ file.plain := by
  have hp : file.plain.messages = file.messages.map Message.plain := rfl
  rw [← TypeIndex.plain_ofFiles, compile, compile, hp, ProtoFile.scope_plain]
  rcases hs : file.messages with _ | ⟨m, _ | ⟨n, ms⟩⟩
  · rfl
  · have ht : m ∈ file.messages := by simp [hs]
    have hr := rootBlock_plain hf (top_mem_definedMessages hm ht)
    simp only [List.map_singleton, hr]
  · simp [ProtoFile.plain]

def wrapperFiles : List ProtoFile :=
  [⟨"m.proto", "p",
    [⟨"M", [⟨"count", 1, .optional, .named .message ".google.protobuf.Int32Value"⟩,
        ⟨"other", 2, .optional, .named .message ".q.Other"⟩],
      [⟨"Part", [⟨"at", 1, .repeated, .named .message ".google.protobuf.Timestamp"⟩], [], []⟩],
      []⟩], []⟩,
    ⟨"q.proto", "q",
      [⟨"Other", [⟨"text", 1, .optional, .named .message ".google.protobuf.StringValue"⟩,
        ⟨"m", 2, .optional, .named .message ".p.M"⟩], [], []⟩], []⟩]

theorem compile_json_eq_plain_wrapper :
    (∀ d ∈ definedMessages wrapperFiles, d.1 ≠ ".google.protobuf") ∧
      ∃ file ∈ wrapperFiles, ∃ text,
        compile (.ofFiles wrapperFiles) ⟨.proto3, .json⟩ file = .ok text ∧
        compile (.ofFiles (wrapperFiles.map ProtoFile.plain)) ⟨.proto3, .binary⟩ file.plain =
          .ok text := by
  have hf : ∀ d ∈ definedMessages wrapperFiles, d.1 ≠ ".google.protobuf" := by decide +kernel
  have hj : compile (.ofFiles wrapperFiles) ⟨.proto3, .json⟩ wrapperFiles.head! = _ :=
    compile_json_eq_plain hf .proto3 List.mem_cons_self
  exact ⟨hf, _, List.mem_cons_self, _, rfl, hj.symm.trans rfl⟩

end Schema

end TopicSchema
