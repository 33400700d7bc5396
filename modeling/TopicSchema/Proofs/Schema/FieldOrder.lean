import TopicSchema.Proofs.Index.Reordered
import TopicSchema.Proofs.Schema.Success

/-! The order of the fields in messages decides neither whether a file has a schema nor which types
are flattened in it, unless the schema names one type both as a message and as an enumeration.
-/

namespace TopicSchema.Schema

variable {files files' : List ProtoFile} {encoding : Encoding} {scope s t : String}
variable {root root' m : Message}

lemma Reachable.reordered (h : List.Forall₂ ProtoFile.Reordered files files')
    (hroot : root.Reordered root') (hm : Reachable (.ofFiles files) encoding scope root s m) :
    ∃ n, Reachable (.ofFiles files') encoding scope root' s n ∧ m.Reordered n := by
  induction hm with
  | root =>
    rw [← hroot.name_eq]
    exact ⟨root', .root, hroot⟩
  | nested _ hk ih =>
    obtain ⟨n, hn, hmn⟩ := ih
    obtain ⟨k', hk', hkk⟩ := exists_of_forall₂ hmn.messages hk
    rw [← hkk.name_eq]
    exact ⟨k', .nested hn hk', hkk⟩
  | external _ hf hx hi ih =>
    obtain ⟨n, hn, hmn⟩ := ih
    obtain ⟨k', hk', hkk⟩ := TypeIndex.message?_reordered h hi
    exact ⟨k', .external hn (hmn.fields_perm.mem_iff.mpr hf) hx hk', hkk⟩

lemma Mentions.reordered (h : List.Forall₂ ProtoFile.Reordered files files')
    (hroot : root.Reordered root') {kind : TypeKind}
    (hm : Mentions (.ofFiles files) encoding scope root kind t) :
    Mentions (.ofFiles files') encoding scope root' kind t := by
  obtain ⟨s, m, hm, f, hf, hx⟩ := hm
  obtain ⟨n, hn, hmn⟩ := hm.reordered h hroot
  exact ⟨s, n, hn, f, hmn.fields_perm.mem_iff.mpr hf, hx⟩

lemma Undefined.reordered (h : List.Forall₂ ProtoFile.Reordered files files')
    (hroot : root.Reordered root') (hu : Undefined (.ofFiles files) encoding scope root t) :
    Undefined (.ofFiles files') encoding scope root' t := by
  obtain ⟨s, m, hm, f, hf, kind, hn, hd⟩ := hu
  obtain ⟨n, hn', hmn⟩ := hm.reordered h hroot
  exact ⟨s, n, hn', f, hmn.fields_perm.mem_iff.mpr hf, kind, hn,
    TypeIndex.definition?_reordered (reordered_symm h) hd⟩

lemma mentions_reordered_iff (h : List.Forall₂ ProtoFile.Reordered files files')
    (hroot : root.Reordered root') {kind : TypeKind} :
    Mentions (.ofFiles files) encoding scope root kind t ↔
      Mentions (.ofFiles files') encoding scope root' kind t :=
  ⟨.reordered h hroot, .reordered (reordered_symm h) hroot.symm⟩

lemma undefined_reordered_iff (h : List.Forall₂ ProtoFile.Reordered files files')
    (hroot : root.Reordered root') :
    Undefined (.ofFiles files) encoding scope root t ↔
      Undefined (.ofFiles files') encoding scope root' t :=
  ⟨.reordered h hroot, .reordered (reordered_symm h) hroot.symm⟩

lemma NamedInOneKind.reordered (h : List.Forall₂ ProtoFile.Reordered files files')
    (hroot : root.Reordered root') (hone : NamedInOneKind (.ofFiles files) encoding scope root) :
    NamedInOneKind (.ofFiles files') encoding scope root' :=
  fun kind kind' t hm hm' => hone kind kind' t ((mentions_reordered_iff h hroot).mpr hm)
    ((mentions_reordered_iff h hroot).mpr hm')

theorem compile_reordered (h : List.Forall₂ ProtoFile.Reordered files files') (options : Options)
    {file file' : ProtoFile} (hf : file.Reordered file') (hm : file.messages = [m])
    (hone : NamedInOneKind (.ofFiles files) options.encoding file.scope m) :
    ((∃ text, compile (.ofFiles files) options file = .ok text) ↔
      ∃ text, compile (.ofFiles files') options file' = .ok text) ∧
    ∀ text source root text' source' root',
      IsSchema (.ofFiles files) options file text source root →
      IsSchema (.ofFiles files') options file' text' source' root' →
      ∀ t, t ∈ root.definitions.map (·.typeName) ↔ t ∈ root'.definitions.map (·.typeName) := by
  obtain ⟨m', hm', hmm⟩ := hf.exists_message hm
  have hone' : NamedInOneKind (.ofFiles files') options.encoding file'.scope m' := by
    rw [hf.scope_eq]
    exact hone.reordered h hmm
  constructor
  · rw [hone.accepted_iff hm, hone'.accepted_iff hm', hf.scope_eq]
    exact forall_congr' fun t => not_congr (undefined_reordered_iff h hmm)
  · intro text source root text' source' root' hs hs' t
    rw [hone.flattened_iff hm hs, hone'.flattened_iff hm' hs', hf.scope_eq]
    exact exists_congr fun kind => mentions_reordered_iff h hmm

def fieldMessage (fields : List Field) : Message :=
  ⟨"M", fields, [], []⟩

def fieldFile (fields : List Field) : ProtoFile :=
  ⟨"m.proto", "p", [fieldMessage fields], []⟩

def fieldFiles (fields : List Field) : List ProtoFile :=
  [fieldFile fields,
    ⟨"t.proto", "q", [⟨"T", [⟨"e", 1, .optional, .named .enumeration ".q.E"⟩], [], []⟩],
      [⟨"E", [⟨"ZERO", 0⟩]⟩]⟩]

lemma fieldFile_reordered {fields fields' : List Field} (h : fields'.Perm fields) :
    (fieldFile fields).Reordered (fieldFile fields') :=
  ⟨rfl, rfl, .cons (.intro rfl h .nil rfl) .nil, rfl⟩

lemma fieldFiles_reordered {fields fields' : List Field} (h : fields'.Perm fields) :
    List.Forall₂ ProtoFile.Reordered (fieldFiles fields) (fieldFiles fields') :=
  .cons (fieldFile_reordered h) (.cons (.refl _) .nil)

def asMessage : Field :=
  ⟨"m", 1, .optional, .named .message ".q.T"⟩

def asEnumeration : Field :=
  ⟨"n", 2, .optional, .named .enumeration ".q.T"⟩

def ofE : Field :=
  ⟨"e", 3, .optional, .named .enumeration ".q.E"⟩

theorem compile_reordered_swapped :
    List.Forall₂ ProtoFile.Reordered (fieldFiles [asMessage, ofE]) (fieldFiles [ofE, asMessage]) ∧
    (fieldFile [asMessage, ofE]).Reordered (fieldFile [ofE, asMessage]) ∧
    (fieldFile [asMessage, ofE]).messages = [fieldMessage [asMessage, ofE]] ∧
    NamedInOneKind (.ofFiles (fieldFiles [asMessage, ofE])) .binary ".p"
      (fieldMessage [asMessage, ofE]) ∧
    ∃ text text' source source' root root',
      IsSchema (.ofFiles (fieldFiles [asMessage, ofE])) {} (fieldFile [asMessage, ofE]) text
        source root ∧
      IsSchema (.ofFiles (fieldFiles [ofE, asMessage])) {} (fieldFile [ofE, asMessage]) text'
        source' root' ∧
      text ≠ text' ∧
      ∀ t, t ∈ root.definitions.map (·.typeName) ↔ t ∈ root'.definitions.map (·.typeName) := by
  have hp : [ofE, asMessage].Perm [asMessage, ofE] := .swap asMessage ofE []
  have h := fieldFiles_reordered hp
  have hf := fieldFile_reordered hp
  have hone : OneKind (fieldFiles [asMessage, ofE]) := by decide +kernel
  have hmem : fieldFile [asMessage, ofE] ∈ fieldFiles [asMessage, ofE] := List.mem_cons_self
  have hu : NamedInOneKind (.ofFiles (fieldFiles [asMessage, ofE])) .binary ".p" _ :=
    namedInOneKind hone (top_mem_definedMessages hmem List.mem_cons_self)
  have hs : IsSchema (.ofFiles (fieldFiles [asMessage, ofE])) {} (fieldFile [asMessage, ofE])
      _ _ _ := ⟨_, _, rfl, rfl, rfl, rfl⟩
  have hs' : IsSchema (.ofFiles (fieldFiles [ofE, asMessage])) {} (fieldFile [ofE, asMessage])
      _ _ _ := ⟨_, _, rfl, rfl, rfl, rfl⟩
  refine ⟨h, hf, rfl, hu, _, _, _, _, _, _, hs, hs', ?_,
    (compile_reordered h {} hf rfl hu).2 _ _ _ _ _ _ hs hs'⟩
  decide +kernel

theorem compile_reordered_two_kinds :
    List.Forall₂ ProtoFile.Reordered (fieldFiles [asMessage, asEnumeration])
      (fieldFiles [asEnumeration, asMessage]) ∧
    (fieldFile [asMessage, asEnumeration]).Reordered (fieldFile [asEnumeration, asMessage]) ∧
    (fieldFile [asMessage, asEnumeration]).messages =
      [fieldMessage [asMessage, asEnumeration]] ∧
    (∃ text, compile (.ofFiles (fieldFiles [asMessage, asEnumeration])) {}
      (fieldFile [asMessage, asEnumeration]) = .ok text) ∧
    compile (.ofFiles (fieldFiles [asEnumeration, asMessage])) {}
      (fieldFile [asEnumeration, asMessage]) = .error (.unresolvedType ".q.T") := by
  have hp : [asEnumeration, asMessage].Perm [asMessage, asEnumeration] :=
    .swap asMessage asEnumeration []
  exact ⟨fieldFiles_reordered hp, fieldFile_reordered hp, rfl, ⟨_, rfl⟩, rfl⟩

end TopicSchema.Schema
