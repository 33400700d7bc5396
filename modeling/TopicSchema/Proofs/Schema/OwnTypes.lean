import TopicSchema.Proofs.Schema.Visits
import TopicSchema.Proofs.TypeName

/-! Which types are written as nested in a message: those whose names are the name of the message
and one more segment. -/

namespace TopicSchema

lemma TypeIndex.ne_empty_of_message? {files : List ProtoFile} {t : String} {m : Message}
    (h : (ofFiles files).message? t = some m) : t ≠ "" := by
  obtain ⟨f, _, root, _, hd⟩ := mem_definedMessages.mp (mem_of_message? h)
  have hl := Message.length_lt_of_mem_messagesIn hd
  rintro rfl
  exact Nat.not_lt_zero _ hl

namespace Schema

variable {files : List ProtoFile} {index : TypeIndex} {encoding : Encoding} {scope : String}
variable {m : Message}

lemma Reachable.scope_ne_empty {s : String} {n : Message}
    (h : Reachable (.ofFiles files) encoding scope m s n) : s ≠ "" := by
  cases h with
  | root => exact TypeName.qualify_ne_empty _ _
  | nested _ _ => exact TypeName.qualify_ne_empty _ _
  | external _ _ _ hi => exact TypeIndex.ne_empty_of_message? hi

lemma reference_eq_own_iff {kind : TypeKind} {t : String} :
    reference encoding scope (.named kind t) = .own kind t ↔ TypeName.parent t = scope := by
  constructor
  · intro h
    exact (reference_eq_own h).2
  · intro h
    rw [reference_named, if_pos h]

structure TellsOwn (index : TypeIndex) (encoding : Encoding) (scope : String) : Prop where
  parent_eq_iff : ∀ t, TypeName.parent t = scope ↔
    ∃ n, '.' ∉ n.toList ∧ t = TypeName.qualify scope n
  reference_eq_iff : ∀ kind t, reference encoding scope (.named kind t) = .own kind t ↔
    ∃ n, '.' ∉ n.toList ∧ t = TypeName.qualify scope n
  fieldLine_eq : ∀ n, '.' ∉ n.toList → ∀ f kind, f.type = .named kind (TypeName.qualify scope n) →
    ∀ placed, fieldLine index encoding scope placed f =
      (index.definition kind (TypeName.qualify scope n)).map fun _ =>
        (⟨f.label, .named kind n (TypeName.qualify scope n), f.name, f.number⟩, none)

lemma fieldLine_qualify {n : String} (hn : '.' ∉ n.toList) {f : Field} {kind : TypeKind}
    (hf : f.type = .named kind (TypeName.qualify scope n)) (placed : List String) :
    fieldLine index encoding scope placed f =
      (index.definition kind (TypeName.qualify scope n)).map fun _ =>
        (⟨f.label, .named kind n (TypeName.qualify scope n), f.name, f.number⟩, none) := by
  have hr : reference encoding scope f.type = .own kind (TypeName.qualify scope n) := by
    rw [hf]
    exact reference_eq_own_iff.mpr (TypeName.parent_qualify hn scope)
  simp only [fieldLine, hr, TypeName.short_qualify hn]
  cases index.definition kind (TypeName.qualify scope n) <;> rfl

theorem tellsOwn_iff : TellsOwn index encoding scope ↔ scope ≠ "" := by
  constructor
  · rintro h rfl
    obtain ⟨n, _, he⟩ := (h.parent_eq_iff "").mp rfl
    exact TypeName.qualify_ne_empty "" n he.symm
  · intro hs
    have hp : ∀ t, TypeName.parent t = scope ↔
        ∃ n, '.' ∉ n.toList ∧ t = TypeName.qualify scope n := by
      intro t
      rw [TypeName.parent_eq_iff]
      exact or_iff_left fun h => hs h.1
    refine ⟨hp, fun kind t => ?_, fun n hn f kind hf placed => fieldLine_qualify hn hf placed⟩
    rw [reference_eq_own_iff, hp]

lemma compile_eq_error_iff {options : Options} {file : ProtoFile} (hm : file.messages = [m])
    {e : CompileError} :
    compile index options file = .error e ↔
      rootBlock index options.encoding file.scope m = .error e := by
  rw [compile, hm, bind_eq_error]
  constructor
  · rintro (h | ⟨_, _, h⟩)
    · exact h
    · cases h
  · exact Or.inl

theorem ownTypes_exact (files : List ProtoFile) (options : Options) (file : ProtoFile) :
    (∀ t : String, '.' ∈ t.toList →
      TypeName.qualify (TypeName.parent t) (TypeName.short t) = t ∧
        '.' ∉ (TypeName.short t).toList) ∧
    (∀ s n : String, '.' ∉ n.toList →
      TypeName.parent (TypeName.qualify s n) = s ∧ TypeName.short (TypeName.qualify s n) = n) ∧
    ∀ m, file.messages = [m] →
      (∀ v, Visited (.ofFiles files) options.encoding file.scope m v →
        v.scope ≠ "" ∧ TellsOwn (.ofFiles files) options.encoding v.scope) ∧
      (∀ e, compile (.ofFiles files) options file = .error e ↔
        ∃ v, Visited (.ofFiles files) options.encoding file.scope m v ∧
          v.lines (.ofFiles files) options.encoding = .error e) ∧
      ∀ text, compile (.ofFiles files) options file = .ok text →
        ∃ source root, IsSchema (.ofFiles files) options file text source root ∧
          ∀ b, b ∈ root.all ∧ b.kind = .message ↔
            ∃ v, Visited (.ofFiles files) options.encoding file.scope m v ∧
              ∃ q, v.result (.ofFiles files) options.encoding = .ok (b, q) := by
  refine ⟨fun t ht => TypeName.qualify_parent_short ht, fun s n hn =>
    ⟨TypeName.parent_qualify hn s, TypeName.short_qualify hn s⟩, fun m hm => ⟨?_, ?_, ?_⟩⟩
  · intro v hv
    have hs : v.scope ≠ "" := hv.reachable.scope_ne_empty
    exact ⟨hs, tellsOwn_iff.mpr hs⟩
  · intro e
    rw [compile_eq_error_iff hm]
    constructor
    · exact exists_visited_of_error
    · rintro ⟨v, hv, he⟩
      exact hv.error (Visit.result_eq_error.mpr (Or.inl he))
  · intro text h
    obtain ⟨source, root, hs⟩ := exists_isSchema h
    refine ⟨source, root, hs, fun b => ?_⟩
    obtain ⟨m', placed, hm', rfl, hr, _⟩ := hs
    obtain rfl : m' = m := by simpa [hm'] using hm
    constructor
    · rintro ⟨hb, hk⟩
      exact exists_visited_of_mem_all hr hb hk
    · rintro ⟨v, hv, q, hq⟩
      obtain ⟨c, _, hc, hmem⟩ := hv.mem_all hr
      cases hq.symm.trans hc
      exact ⟨hmem, (messageBlock_renders (fun _ _ _ _ => definer_renders) hq).head_eq.1⟩

def segmentFiles : List ProtoFile :=
  [⟨"m.proto", "p",
    [⟨"M", [⟨"x", 1, .optional, .named .message ".p.M."⟩,
        ⟨"y", 2, .optional, .named .message ".q..É"⟩], [⟨"", [], [], []⟩], []⟩], []⟩,
    ⟨"q.proto", "q.",
      [⟨"É", [⟨"k", 1, .optional, .named .enumeration ".q..É.K"⟩], [], [⟨"K", [⟨"A", 0⟩]⟩]⟩], []⟩]

theorem ownTypes_exact_segments :
    '.' ∉ (TypeName.short ".p.M.").toList ∧ TypeName.parent (TypeName.qualify ".q." "É") = ".q." ∧
      ∃ file ∈ segmentFiles, ∃ m, file.messages = [m] ∧
        (∃ v, Visited (.ofFiles segmentFiles) .binary file.scope m v ∧ v.scope = ".q..É" ∧
          ∀ t, TypeName.parent t = ".q..É" ↔
            ∃ n, '.' ∉ n.toList ∧ t = TypeName.qualify ".q..É" n) ∧
        ∃ text, compile (.ofFiles segmentFiles) {} file = .ok text ∧
          ∃ source root, IsSchema (.ofFiles segmentFiles) {} file text source root ∧
            ∀ b, b ∈ root.all ∧ b.kind = .message ↔
              ∃ v, Visited (.ofFiles segmentFiles) .binary file.scope m v ∧
                ∃ q, v.result (.ofFiles segmentFiles) .binary = .ok (b, q) := by
  obtain ⟨hsplit, hqualify, hfile⟩ := ownTypes_exact segmentFiles {} segmentFiles.head!
  obtain ⟨hvisited, _, hschema⟩ := hfile _ rfl
  refine ⟨(hsplit ".p.M." (by decide)).2, (hqualify ".q." "É" (by decide)).1, _,
    List.mem_cons_self, _, rfl, ?_, _, rfl, hschema _ rfl⟩
  -- the definition of the type that `M` owes after its fields and the message nested in it
  have hv : Visited (.ofFiles segmentFiles) .binary segmentFiles.head!.scope
      ⟨"M", [⟨"x", 1, .optional, .named .message ".p.M."⟩,
        ⟨"y", 2, .optional, .named .message ".q..É"⟩], [⟨"", [], [], []⟩], []⟩ _ :=
    .single (.flattened rfl rfl .here rfl)
  exact ⟨_, hv, rfl, (hvisited _ hv).2.parent_eq_iff⟩

end Schema

end TopicSchema
