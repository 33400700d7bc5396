import Mathlib.Data.List.Dedup
import TopicSchema.Proofs.Lookup

/-! An index finds the first definition of a name in the order of the files, although it enters what
is nested in a message before the message, and it has one entry for each name. -/

namespace TopicSchema

namespace ProtoFile

inductive HasMessage (file : ProtoFile) : String → Message → Prop
  | top {m : Message} : m ∈ file.messages →
      HasMessage file (TypeName.qualify file.scope m.name) m
  | nested {s : String} {m n : Message} : HasMessage file s m → n ∈ m.messages →
      HasMessage file (TypeName.qualify s n.name) n

inductive HasEnumeration (file : ProtoFile) : String → Enumeration → Prop
  | top {e : Enumeration} : e ∈ file.enumerations →
      HasEnumeration file (TypeName.qualify file.scope e.name) e
  | nested {s : String} {m : Message} {e : Enumeration} : HasMessage file s m →
      e ∈ m.enumerations → HasEnumeration file (TypeName.qualify s e.name) e

variable {file : ProtoFile}

lemma HasMessage.of_mem_messagesIn {scope s : String} {root m : Message}
    (hr : file.HasMessage (TypeName.qualify scope root.name) root)
    (h : (s, m) ∈ root.messagesIn scope) : file.HasMessage s m := by
  induction root using Message.nested_induction generalizing scope with
  | h root ih =>
    rw [Message.messagesIn_eq, List.mem_cons] at h
    rcases h with h | h
    · cases h
      exact hr
    · obtain ⟨n, hn, h⟩ := List.mem_flatMap.mp h
      exact ih n hn (.nested hr hn) h

end ProtoFile

variable {files : List ProtoFile} {t : String}

lemma mem_definedMessages_iff {m : Message} :
    (t, m) ∈ definedMessages files ↔ ∃ f ∈ files, f.HasMessage t m := by
  constructor
  · intro h
    obtain ⟨f, hf, root, hr, h⟩ := mem_definedMessages.mp h
    exact ⟨f, hf, .of_mem_messagesIn (.top hr) h⟩
  · rintro ⟨f, hf, h⟩
    induction h with
    | top hm => exact top_mem_definedMessages hf hm
    | nested _ hn ih => exact nested_mem_definedMessages ih hn

lemma mem_definedEnumerations_iff {e : Enumeration} :
    (t, e) ∈ definedEnumerations files ↔ ∃ f ∈ files, f.HasEnumeration t e := by
  constructor
  · intro h
    obtain ⟨f, hf, h⟩ := List.mem_flatMap.mp h
    refine ⟨f, hf, ?_⟩
    rcases List.mem_append.mp h with h | h
    · rw [Message.enumerationsOf_eq] at h
      obtain ⟨root, hr, h⟩ := List.mem_flatMap.mp h
      obtain ⟨d, hd, h⟩ := exists_message_of_mem_enumerationsIn h
      obtain ⟨e', he, h⟩ := List.mem_map.mp h
      cases h
      exact .nested (.of_mem_messagesIn (.top hr) hd) he
    · obtain ⟨e', he, h⟩ := List.mem_map.mp h
      cases h
      exact .top he
  · rintro ⟨f, hf, h⟩
    cases h with
    | top he =>
      refine List.mem_flatMap.mpr ⟨f, hf, List.mem_append_right _ ?_⟩
      exact List.mem_map.mpr ⟨e, he, rfl⟩
    | nested hm he =>
      exact nested_mem_definedEnumerations (mem_definedMessages_iff.mpr ⟨f, hf, hm⟩) he

def First {α : Type} (entries : List (String × α)) (t : String) (a : α) : Prop :=
  ∃ before after, entries = before ++ (t, a) :: after ∧ ∀ d ∈ before, d.1 ≠ t

lemma lookup_eq_some_iff_first {α : Type} {entries : List (String × α)} {a : α} :
    entries.lookup t = some a ↔ First entries t a := by
  rw [List.lookup_eq_some_iff, First]
  simp only [bne_iff_ne, ne_comm]

lemma lookup_isSome_iff {α : Type} {entries : List (String × α)} :
    (entries.lookup t).isSome ↔ t ∈ entries.map Prod.fst := by
  rw [List.lookup_isSome_iff, List.mem_map]
  refine exists_congr fun d => and_congr_right fun _ => ?_
  rw [beq_iff_eq, eq_comm]

lemma lookup_eq_none_iff {α : Type} {entries : List (String × α)} :
    entries.lookup t = none ↔ ∀ a, (t, a) ∉ entries := by
  rw [← Option.not_isSome_iff_eq_none, lookup_isSome_iff, List.mem_map]
  constructor
  · intro h a ha
    exact h ⟨(t, a), ha, rfl⟩
  · rintro h ⟨⟨_, a⟩, ha, rfl⟩
    exact h a ha

namespace TypeIndex

lemma nodup_keepFirst {α : Type} {table : List (String × α)} (h : (table.map Prod.fst).Nodup)
    (name : String) (value : α) : ((keepFirst table name value).map Prod.fst).Nodup := by
  rw [keepFirst]
  split
  · exact h
  · next hn =>
    rw [lookup_isSome_iff] at hn
    rw [List.map_append, List.map_singleton, List.nodup_append]
    refine ⟨h, List.nodup_singleton _, ?_⟩
    intro k hk k' hk' he
    rw [he, List.mem_singleton.mp hk'] at hk
    exact hn hk

section

variable {p : TypeIndex → Prop}
variable (hm : ∀ index t m, p index → p { index with messages := keepFirst index.messages t m })
variable (he : ∀ index scope e, p index → p (addEnumeration scope index e))
include hm he

lemma addMessage_induction (scope : String) (m : Message) {index : TypeIndex} (h : p index) :
    p (addMessage scope index m) := by
  induction m using Message.nested_induction generalizing scope index with
  | h m ih =>
    rw [addMessage_eq]
    apply hm
    apply List.foldlRecOn _ _ _ fun i hi e _ => he i _ e hi
    exact List.foldlRecOn _ _ h fun i hi n hn => ih n hn _ hi

theorem ofFiles_induction (hnil : p {}) (files : List ProtoFile) : p (ofFiles files) := by
  refine List.foldlRecOn _ _ hnil fun index h f _ => ?_
  rw [addFile, addMessages_eq]
  apply List.foldlRecOn _ _ _ fun i hi e _ => he i _ e hi
  exact List.foldlRecOn _ _ h fun i hi m _ => addMessage_induction hm he f.scope m hi

end

lemma nodup_ofFiles (files : List ProtoFile) :
    ((ofFiles files).messages.map Prod.fst).Nodup ∧
      ((ofFiles files).enumerations.map Prod.fst).Nodup := by
  let p (index : TypeIndex) : Prop :=
    (index.messages.map Prod.fst).Nodup ∧ (index.enumerations.map Prod.fst).Nodup
  refine ofFiles_induction (p := p) (fun index t m h => ?_) (fun index scope e h => ?_) ?_ files
  · exact ⟨nodup_keepFirst h.1 t m, h.2⟩
  · exact ⟨h.1, nodup_keepFirst h.2 _ e⟩
  · exact ⟨List.nodup_nil, List.nodup_nil⟩

lemma length_eq_of_lookup {α : Type} {table entries : List (String × α)}
    (hn : (table.map Prod.fst).Nodup) (h : ∀ t, table.lookup t = entries.lookup t) :
    table.length = (entries.map Prod.fst).dedup.length := by
  have hp : (table.map Prod.fst).Perm (entries.map Prod.fst).dedup := by
    refine (List.perm_ext_iff_of_nodup hn (List.nodup_dedup _)).mpr fun t => ?_
    rw [List.mem_dedup, ← lookup_isSome_iff, ← lookup_isSome_iff, h]
  rw [← hp.length_eq, List.length_map]

theorem lookup_documentOrder (files : List ProtoFile) (t : String) :
    (∀ m, (ofFiles files).definition .message t = .ok (.message m) ↔
      First (definedMessages files) t m) ∧
    ((ofFiles files).definition .message t = .error (.unresolvedType t) ↔
      ∀ f ∈ files, ∀ m, ¬ f.HasMessage t m) ∧
    (∀ e, (ofFiles files).definition .enumeration t = .ok (.enumeration e) ↔
      First (definedEnumerations files) t e) ∧
    ((ofFiles files).definition .enumeration t = .error (.unresolvedType t) ↔
      ∀ f ∈ files, ∀ e, ¬ f.HasEnumeration t e) ∧
    (ofFiles files).messages.length = ((definedMessages files).map Prod.fst).dedup.length ∧
    (ofFiles files).enumerations.length =
      ((definedEnumerations files).map Prod.fst).dedup.length := by
  obtain ⟨hm, he⟩ := nodup_ofFiles files
  refine ⟨fun m => ?_, ?_, fun e => ?_, ?_, length_eq_of_lookup hm fun t => message?_ofFiles files,
    length_eq_of_lookup he fun t => enumeration?_ofFiles files⟩
  · rw [definition_eq_ok, definition?_eq_message, message?_ofFiles, lookup_eq_some_iff_first]
    exact and_iff_right rfl
  · rw [definition_eq_error, definition?, Option.map_eq_none_iff, message?_ofFiles,
      lookup_eq_none_iff]
    simp only [mem_definedMessages_iff, not_exists, not_and]
    exact ⟨fun h f hf m => h m f hf, fun h m f hf => h f hf m⟩
  · rw [definition_eq_ok, definition?_eq_enumeration, enumeration?_ofFiles,
      lookup_eq_some_iff_first]
    exact and_iff_right rfl
  · rw [definition_eq_error, definition?, Option.map_eq_none_iff, enumeration?_ofFiles,
      lookup_eq_none_iff]
    simp only [mem_definedEnumerations_iff, not_exists, not_and]
    exact ⟨fun h f hf e => h e f hf, fun h e f hf => h f hf e⟩

end TypeIndex

end TopicSchema
