import TopicSchema.Proofs.Schema.Success

/-! A schema depends on the index only through what the index finds for a name. -/

namespace TopicSchema.Schema

def Keeps {α : Type} (stays : CompileError → Prop) :
    Except CompileError α → Except CompileError α → Prop
  | .ok a, y => y = .ok a
  | .error e, y => stays e → y = .error e

variable {stays : CompileError → Prop}

lemma Keeps.refl {α : Type} (x : Except CompileError α) : Keeps stays x x := by
  cases x with
  | ok a => exact rfl
  | error e => exact fun _ => rfl

lemma Keeps.bind {α β : Type} {x y : Except CompileError α} {f g : α → Except CompileError β}
    (h : Keeps stays x y) (hf : ∀ a, Keeps stays (f a) (g a)) :
    Keeps stays (x >>= f) (y >>= g) := by
  cases x with
  | ok a =>
    have hy : y = .ok a := h
    rw [hy]
    exact hf a
  | error e =>
    intro he
    rw [h he]
    rfl

lemma Keeps.eq {α : Type} {x y : Except CompileError α} (h : Keeps stays x y)
    (hx : ∀ e, x = .error e → stays e) : y = x := by
  cases x with
  | ok a => exact h
  | error e => exact h (hx e rfl)

variable {index index' : TypeIndex} {encoding : Encoding} {define define' : Definer}

lemma defineAll_keeps (hd : ∀ placed o, Keeps stays (define placed o) (define' placed o))
    (placed : List String) (owed : List Owed) :
    Keeps stays (defineAll define placed owed) (defineAll define' placed owed) := by
  induction owed generalizing placed with
  | nil => exact .refl _
  | cons o owed ih =>
    refine (hd placed o).bind ?_
    rintro ⟨b, placed₁⟩
    refine (ih placed₁).bind ?_
    rintro ⟨bs, placed₂⟩
    exact .refl _

lemma nestedBlocks_keeps {scope : String} {ms : List Message}
    (hm : ∀ placed, ∀ m ∈ ms,
      Keeps stays
        (messageBlock index encoding define placed m.name (TypeName.qualify scope m.name) m)
        (messageBlock index' encoding define' placed m.name (TypeName.qualify scope m.name) m))
    (placed : List String) :
    Keeps stays (nestedBlocks index encoding define placed scope ms)
      (nestedBlocks index' encoding define' placed scope ms) := by
  induction ms generalizing placed with
  | nil => exact .refl _
  | cons m ms ih =>
    rw [nestedBlocks, nestedBlocks]
    refine (hm placed m List.mem_cons_self).bind ?_
    rintro ⟨b, placed₁⟩
    refine (ih (fun p n hn => hm p n (List.mem_cons_of_mem m hn)) placed₁).bind ?_
    rintro ⟨bs, placed₂⟩
    exact .refl _

section

variable (hi : ∀ kind t, Keeps stays (index.definition kind t) (index'.definition kind t))
include hi

lemma fieldLine_keeps (scope : String) (placed : List String) (field : Field) :
    Keeps stays (fieldLine index encoding scope placed field)
      (fieldLine index' encoding scope placed field) := by
  rw [fieldLine, fieldLine]
  cases reference encoding scope field.type with
  | scalar type => exact .refl _
  | own kind t => exact (hi kind t).bind fun _ => .refl _
  | external kind t =>
    by_cases hp : t ∈ placed
    · simp only [if_pos hp]
      exact .refl _
    · simp only [if_neg hp]
      exact (hi kind t).bind fun _ => .refl _

lemma fieldLines_keeps (scope : String) (placed : List String) (fields : List Field) :
    Keeps stays (fieldLines index encoding scope placed fields)
      (fieldLines index' encoding scope placed fields) := by
  induction fields generalizing placed with
  | nil => exact .refl _
  | cons field fields ih =>
    refine (fieldLine_keeps hi scope placed field).bind ?_
    rintro ⟨line, owed⟩
    refine (ih _).bind ?_
    rintro ⟨lines, more⟩
    exact .refl _

lemma messageBlock_keeps (hd : ∀ placed o, Keeps stays (define placed o) (define' placed o))
    (placed : List String) (name scope : String) (m : Message) :
    Keeps stays (messageBlock index encoding define placed name scope m)
      (messageBlock index' encoding define' placed name scope m) := by
  induction m using Message.nested_induction generalizing placed name scope with
  | h m ih =>
    obtain ⟨own, fields, messages, enumerations⟩ := m
    rw [messageBlock, messageBlock]
    refine (fieldLines_keeps hi scope placed fields).bind ?_
    rintro ⟨lines, owed⟩
    refine (nestedBlocks_keeps (fun p n hn => ih n hn p n.name _) _).bind ?_
    rintro ⟨inner, placed₁⟩
    refine (defineAll_keeps hd placed₁ owed).bind ?_
    rintro ⟨flattened, placed₂⟩
    exact .refl _

lemma definer_keeps (hs : ¬ stays .unfinished) {budget budget' : Nat} (hb : budget ≤ budget')
    (placed : List String) (o : Owed) :
    Keeps stays (definer index encoding budget placed o)
      (definer index' encoding budget' placed o) := by
  induction budget generalizing budget' placed o with
  | zero => exact fun h => absurd h hs
  | succ budget ih =>
    obtain ⟨k, rfl⟩ : ∃ k, budget' = k + 1 := ⟨budget' - 1, by omega⟩
    obtain ⟨t, definition⟩ := o
    cases definition with
    | message m =>
      exact messageBlock_keeps hi (fun p o => ih (by omega) p o) placed _ t m
    | enumeration e => exact .refl _

end

lemma rootBlock_ne_unfinished (scope : String) (m : Message) :
    rootBlock index encoding scope m ≠ .error .unfinished := by
  intro h
  have he := rootBlock_ends index encoding scope m
  rw [h] at he
  obtain ⟨t, _, ht⟩ := he
  cases ht

lemma messageBlock_eq_rootBlock {budget : Nat} (hb : index.size ≤ budget) (scope : String)
    (m : Message) :
    messageBlock index encoding (definer index encoding budget) [] m.name
      (TypeName.qualify scope m.name) m = rootBlock index encoding scope m := by
  have hi (kind : TypeKind) (t : String) : Keeps (· ≠ CompileError.unfinished)
      (index.definition kind t) (index.definition kind t) := .refl _
  have hd (placed : List String) (o : Owed) : Keeps (· ≠ CompileError.unfinished)
      (definer index encoding index.size placed o) (definer index encoding budget placed o) :=
    definer_keeps hi (by simp) hb placed o
  refine Keeps.eq (messageBlock_keeps hi hd [] m.name (TypeName.qualify scope m.name) m) ?_
  exact fun e he hu => rootBlock_ne_unfinished scope m (hu ▸ he)

lemma rootBlock_keeps
    (hi : ∀ kind t, Keeps stays (index.definition kind t) (index'.definition kind t))
    (hs : ¬ stays .unfinished) (scope : String) (m : Message) :
    Keeps stays (rootBlock index encoding scope m) (rootBlock index' encoding scope m) := by
  -- room enough for both indexes
  rw [← messageBlock_eq_rootBlock (Nat.le_max_right index.size index'.size) scope m]
  exact messageBlock_keeps hi (definer_keeps hi hs (Nat.le_max_left _ _)) [] m.name _ m

lemma compile_keeps
    (hi : ∀ kind t, Keeps stays (index.definition kind t) (index'.definition kind t))
    (hs : ¬ stays .unfinished) (options : Options) (file : ProtoFile) :
    Keeps stays (compile index options file) (compile index' options file) := by
  rw [compile, compile]
  split
  · next m _ => exact (rootBlock_keeps hi hs file.scope m).bind fun _ => .refl _
  · exact .refl _

theorem compile_congr (hi : ∀ kind t, index'.definition? kind t = index.definition? kind t)
    (options : Options) (file : ProtoFile) :
    compile index' options file = compile index options file := by
  have hk : ∀ kind t, Keeps (· ≠ CompileError.unfinished) (index.definition kind t)
      (index'.definition kind t) := by
    intro kind t
    rw [TypeIndex.definition, TypeIndex.definition, hi]
    exact .refl _
  refine (compile_keeps hk (by simp) options file).eq ?_
  rintro e he rfl
  rcases compile_error he with ⟨t, ht⟩ | ⟨_, hs⟩
  · cases ht
  · cases hs

theorem compile_of_extends
    (hi : ∀ kind t d, index.definition? kind t = some d → index'.definition? kind t = some d)
    {options : Options} {file : ProtoFile} {text : String}
    (h : compile index options file = .ok text) : compile index' options file = .ok text := by
  have hk : ∀ kind t, Keeps (fun _ => False) (index.definition kind t)
      (index'.definition kind t) := by
    intro kind t
    cases hd : index.definition kind t with
    | ok d => exact TypeIndex.definition_eq_ok.mpr (hi kind t d (TypeIndex.definition_eq_ok.mp hd))
    | error e => exact False.elim
  have hc := compile_keeps hk (by simp) options file
  rwa [h] at hc

end TopicSchema.Schema
