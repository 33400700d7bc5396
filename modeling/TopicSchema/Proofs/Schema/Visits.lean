import Mathlib.Logic.Relation
import TopicSchema.Proofs.Schema.Agreement

/-! The messages that are taken up while a schema is written, one after another and from inside one
another, also where the writing fails in the end. -/

namespace TopicSchema.Schema

abbrev Writer (α : Type) := List String → α → Except CompileError (Block × List String)

def writeAll {α : Type} (write : Writer α) (placed : List String) :
    List α → Except CompileError (List Block × List String)
  | [] => .ok ([], placed)
  | a :: as => do
    let (block, placed) ← write placed a
    let (blocks, placed) ← writeAll write placed as
    .ok (block :: blocks, placed)

lemma defineAll_eq (define : Definer) (placed : List String) (owed : List Owed) :
    defineAll define placed owed = writeAll define placed owed := by
  induction owed generalizing placed with
  | nil => rfl
  | cons o owed ih => simp only [defineAll, writeAll, ih]

inductive Comes {α : Type} (write : Writer α) : List String → List α → List String → α → Prop
  | here {placed : List String} {a : α} {as : List α} : Comes write placed (a :: as) placed a
  | later {placed placed₁ q : List String} {a b : α} {as : List α} {block : Block} :
      write placed b = .ok (block, placed₁) → Comes write placed₁ as q a →
      Comes write placed (b :: as) q a

section

variable {α : Type} {write : Writer α} {placed placed' q : List String} {as : List α} {a : α}

lemma Comes.mem (h : Comes write placed as q a) : a ∈ as := by
  induction h with
  | here => exact List.mem_cons_self
  | later _ _ ih => exact List.mem_cons_of_mem _ ih

lemma Comes.error (h : Comes write placed as q a) {e : CompileError} (ha : write q a = .error e) :
    writeAll write placed as = .error e := by
  induction h with
  | here => exact bind_eq_error.mpr (Or.inl ha)
  | later hb _ ih => exact bind_eq_error.mpr (Or.inr ⟨_, hb, bind_eq_error.mpr (Or.inl (ih ha))⟩)

lemma exists_comes_of_error {e : CompileError} (h : writeAll write placed as = .error e) :
    ∃ q a, Comes write placed as q a ∧ write q a = .error e := by
  induction as generalizing placed with
  | nil => cases h
  | cons b as ih =>
    rcases bind_eq_error.mp h with hb | ⟨⟨block, placed₁⟩, hb, h⟩
    · exact ⟨placed, b, .here, hb⟩
    · rcases bind_eq_error.mp h with h | ⟨_, _, h⟩
      · obtain ⟨q, a, hc, ha⟩ := ih h
        exact ⟨q, a, .later hb hc, ha⟩
      · cases h

lemma Comes.mem_blocks (h : Comes write placed as q a) {blocks : List Block}
    (hw : writeAll write placed as = .ok (blocks, placed')) :
    ∃ block q', write q a = .ok (block, q') ∧ block ∈ blocks := by
  induction h generalizing blocks with
  | here =>
    obtain ⟨⟨block, placed₁⟩, hb, hw⟩ := bind_eq_ok.mp hw
    obtain ⟨_, _, hw⟩ := bind_eq_ok.mp hw
    cases hw
    exact ⟨block, placed₁, hb, List.mem_cons_self⟩
  | later hb _ ih =>
    obtain ⟨_, hb', hw⟩ := bind_eq_ok.mp hw
    cases hb.symm.trans hb'
    obtain ⟨⟨more, placed₂⟩, hm, hw⟩ := bind_eq_ok.mp hw
    cases hw
    obtain ⟨block, q', ha, hmem⟩ := ih hm
    exact ⟨block, q', ha, List.mem_cons_of_mem _ hmem⟩

lemma exists_comes_of_mem {blocks : List Block}
    (hw : writeAll write placed as = .ok (blocks, placed')) {block : Block} (h : block ∈ blocks) :
    ∃ q a q', Comes write placed as q a ∧ write q a = .ok (block, q') := by
  induction as generalizing placed blocks with
  | nil =>
    cases hw
    cases h
  | cons b as ih =>
    obtain ⟨⟨first, placed₁⟩, hb, hw⟩ := bind_eq_ok.mp hw
    obtain ⟨⟨more, placed₂⟩, hm, hw⟩ := bind_eq_ok.mp hw
    cases hw
    rcases List.mem_cons.mp h with rfl | h
    · exact ⟨placed, b, placed₁, .here, hb⟩
    · obtain ⟨q, a, q', hc, ha⟩ := ih hm h
      exact ⟨q, a, q', .later hb hc, ha⟩

end

/-- A message taken up to be written under the name `name`, when the types `placed` are placed. Its
fully-qualified name is `scope`, and `budget` is how deep definitions in it may nest. -/
structure Visit where
  budget : Nat
  placed : List String
  name : String
  scope : String
  message : Message

variable {index : TypeIndex} {encoding : Encoding} {scope : String} {m : Message}

namespace Visit

def root (index : TypeIndex) (scope : String) (m : Message) : Visit :=
  ⟨index.size, [], m.name, TypeName.qualify scope m.name, m⟩

def nested (v : Visit) (placed : List String) (n : Message) : Visit :=
  ⟨v.budget, placed, n.name, TypeName.qualify v.scope n.name, n⟩

def lines (index : TypeIndex) (encoding : Encoding) (v : Visit) :
    Except CompileError (List FieldLine × List Owed) :=
  fieldLines index encoding v.scope v.placed v.message.fields

def result (index : TypeIndex) (encoding : Encoding) (v : Visit) :
    Except CompileError (Block × List String) :=
  messageBlock index encoding (definer index encoding v.budget) v.placed v.name v.scope v.message

def inner (index : TypeIndex) (encoding : Encoding) (v : Visit) (owed : List Owed) :
    Except CompileError (List Block × List String) :=
  nestedBlocks index encoding (definer index encoding v.budget)
    (v.placed ++ owed.map (·.typeName)) v.scope v.message.messages

/-- In the course of the one message the other is taken up. Nested messages come after the fields,
definitions owed after these, and all that comes before has been written. -/
inductive Next (index : TypeIndex) (encoding : Encoding) (v : Visit) : Visit → Prop
  | nested {lines : List FieldLine} {owed : List Owed} {q : List String} {n : Message} :
      v.lines index encoding = .ok (lines, owed) →
      Comes (fun placed n => (v.nested placed n).result index encoding)
        (v.placed ++ owed.map (·.typeName)) v.message.messages q n →
      Next index encoding v (v.nested q n)
  | flattened {lines : List FieldLine} {owed : List Owed} {blocks : List Block}
      {placed q : List String} {budget : Nat} {t : String} {n : Message} :
      v.lines index encoding = .ok (lines, owed) →
      v.inner index encoding owed = .ok (blocks, placed) →
      Comes (definer index encoding v.budget) placed owed q ⟨t, .message n⟩ →
      v.budget = budget + 1 →
      Next index encoding v ⟨budget, q, TypeName.flattened t, t, n⟩

end Visit

def Visited (index : TypeIndex) (encoding : Encoding) (scope : String) (m : Message) :
    Visit → Prop :=
  Relation.ReflTransGen (Visit.Next index encoding) (Visit.root index scope m)

namespace Visit

variable {v w : Visit}

lemma inner_eq (v : Visit) (owed : List Owed) :
    v.inner index encoding owed =
      writeAll (fun placed n => (v.nested placed n).result index encoding)
        (v.placed ++ owed.map (·.typeName)) v.message.messages := by
  have h : ∀ placed ms, nestedBlocks index encoding (definer index encoding v.budget) placed v.scope
      ms = writeAll (fun placed n => (v.nested placed n).result index encoding) placed ms := by
    intro placed ms
    induction ms generalizing placed with
    | nil => rfl
    | cons n ms ih =>
      simp only [nestedBlocks, writeAll, ih]
      rfl
  exact h _ _

lemma result_eq (v : Visit) :
    v.result index encoding = (do
      let (lines, owed) ← v.lines index encoding
      let (inner, placed) ← v.inner index encoding owed
      let enums := v.message.enumerations.map fun e =>
        enumerationBlock e.name (TypeName.qualify v.scope e.name) e
      let (flattened, placed) ← writeAll (definer index encoding v.budget) placed owed
      .ok (.message v.name v.scope lines (inner ++ enums) flattened, placed)) := by
  obtain ⟨budget, placed, name, scope, own, fields, messages, enumerations⟩ := v
  simp only [result, messageBlock, ← defineAll_eq]
  rfl

lemma result_eq_error {e : CompileError} :
    v.result index encoding = .error e ↔
      v.lines index encoding = .error e ∨
      ∃ lines owed, v.lines index encoding = .ok (lines, owed) ∧
        (v.inner index encoding owed = .error e ∨
        ∃ blocks placed, v.inner index encoding owed = .ok (blocks, placed) ∧
          writeAll (definer index encoding v.budget) placed owed = .error e) := by
  rw [result_eq, bind_eq_error]
  refine or_congr_right ?_
  constructor
  · rintro ⟨⟨lines, owed⟩, hl, h⟩
    refine ⟨lines, owed, hl, ?_⟩
    rcases bind_eq_error.mp h with hi | ⟨⟨blocks, placed⟩, hi, h⟩
    · exact Or.inl hi
    · rcases bind_eq_error.mp h with hf | ⟨_, _, h⟩
      · exact Or.inr ⟨blocks, placed, hi, hf⟩
      · cases h
  · rintro ⟨lines, owed, hl, hi | ⟨blocks, placed, hi, hf⟩⟩
    · exact ⟨_, hl, bind_eq_error.mpr (Or.inl hi)⟩
    · exact ⟨_, hl, bind_eq_error.mpr (Or.inr ⟨_, hi, bind_eq_error.mpr (Or.inl hf)⟩)⟩

lemma exists_of_result_eq_ok {b : Block} {placed : List String}
    (h : v.result index encoding = .ok (b, placed)) :
    ∃ lines owed blocks placed₁ flattened, v.lines index encoding = .ok (lines, owed) ∧
      v.inner index encoding owed = .ok (blocks, placed₁) ∧
      writeAll (definer index encoding v.budget) placed₁ owed = .ok (flattened, placed) ∧
      b = .message v.name v.scope lines
        (blocks ++ v.message.enumerations.map fun e =>
          enumerationBlock e.name (TypeName.qualify v.scope e.name) e) flattened := by
  rw [result_eq] at h
  obtain ⟨⟨lines, owed⟩, hl, h⟩ := bind_eq_ok.mp h
  obtain ⟨⟨blocks, placed₁⟩, hi, h⟩ := bind_eq_ok.mp h
  obtain ⟨⟨flattened, placed₂⟩, hf, h⟩ := bind_eq_ok.mp h
  cases h
  exact ⟨lines, owed, blocks, placed₁, flattened, hl, hi, hf, rfl⟩

lemma definer_cases (budget : Nat) (placed : List String) (o : Owed) :
    definer index encoding budget placed o = .error .unfinished ∨
    (∃ name typeName e,
      definer index encoding budget placed o = .ok (enumerationBlock name typeName e, placed)) ∨
    ∃ k t n, budget = k + 1 ∧ o = ⟨t, .message n⟩ ∧
      definer index encoding budget placed o =
        (Visit.mk k placed (TypeName.flattened t) t n).result index encoding := by
  obtain ⟨t, definition⟩ := o
  cases budget with
  | zero => exact Or.inl rfl
  | succ k =>
    cases definition with
    | message n => exact Or.inr (Or.inr ⟨k, t, n, rfl, rfl, rfl⟩)
    | enumeration e => exact Or.inr (Or.inl ⟨_, _, e, rfl⟩)

lemma Next.error (h : Next index encoding v w) {e : CompileError}
    (hw : w.result index encoding = .error e) : v.result index encoding = .error e := by
  apply result_eq_error.mpr
  cases h with
  | nested hl hc =>
    refine Or.inr ⟨_, _, hl, Or.inl ?_⟩
    rw [inner_eq]
    exact hc.error hw
  | flattened hl hi hc hb =>
    refine Or.inr ⟨_, _, hl, Or.inr ⟨_, _, hi, ?_⟩⟩
    rw [hb] at hc ⊢
    exact hc.error hw

lemma exists_next_of_error {e : CompileError} (h : v.result index encoding = .error e) :
    v.lines index encoding = .error e ∨
      (∃ w, Next index encoding v w ∧ w.result index encoding = .error e) ∨ e = .unfinished := by
  rcases result_eq_error.mp h with hl | ⟨lines, owed, hl, hi | ⟨blocks, placed, hi, hf⟩⟩
  · exact Or.inl hl
  · rw [inner_eq] at hi
    obtain ⟨q, n, hc, hn⟩ := exists_comes_of_error hi
    exact Or.inr (Or.inl ⟨_, .nested hl hc, hn⟩)
  · obtain ⟨q, o, hc, ho⟩ := exists_comes_of_error hf
    rcases definer_cases v.budget q o with hd | ⟨_, _, _, hd⟩ | ⟨k, t, n, hb, rfl, hd⟩
    · cases hd.symm.trans ho
      exact Or.inr (Or.inr rfl)
    · cases hd.symm.trans ho
    · exact Or.inr (Or.inl ⟨_, .flattened hl hi hc hb, hd.symm.trans ho⟩)

lemma Next.mem_children (h : Next index encoding v w) {b : Block} {placed : List String}
    (hv : v.result index encoding = .ok (b, placed)) :
    ∃ c q, w.result index encoding = .ok (c, q) ∧ c ∈ b.children := by
  obtain ⟨lines, owed, blocks, placed₁, flattened, hl, hi, hf, rfl⟩ := exists_of_result_eq_ok hv
  cases h with
  | nested hl' hc =>
    cases hl.symm.trans hl'
    rw [inner_eq] at hi
    obtain ⟨c, q, hw, hm⟩ := hc.mem_blocks hi
    exact ⟨c, q, hw, List.mem_append_left _ (List.mem_append_left _ hm)⟩
  | flattened hl' hi' hc hb =>
    cases hl.symm.trans hl'
    cases hi.symm.trans hi'
    rw [hb] at hc hf
    obtain ⟨c, q, hw, hm⟩ := hc.mem_blocks hf
    exact ⟨c, q, hw, List.mem_append_right _ hm⟩

lemma exists_next_of_child {b c : Block} {placed : List String}
    (hv : v.result index encoding = .ok (b, placed)) (hc : c ∈ b.children)
    (hk : c.kind = .message) :
    ∃ w, Next index encoding v w ∧ ∃ q, w.result index encoding = .ok (c, q) := by
  obtain ⟨lines, owed, blocks, placed₁, flattened, hl, hi, hf, rfl⟩ := exists_of_result_eq_ok hv
  rcases List.mem_append.mp hc with hc | hc
  · rcases List.mem_append.mp hc with hc | hc
    · rw [inner_eq] at hi
      obtain ⟨q, n, q', hn, hw⟩ := exists_comes_of_mem hi hc
      exact ⟨_, .nested hl hn, q', hw⟩
    · obtain ⟨e, _, rfl⟩ := List.mem_map.mp hc
      cases hk
  · obtain ⟨q, o, q', ho, hw⟩ := exists_comes_of_mem hf hc
    rcases definer_cases v.budget q o with hd | ⟨_, _, _, hd⟩ | ⟨k, t, n, hb, rfl, hd⟩
    · cases hd.symm.trans hw
    · cases hd.symm.trans hw
      cases hk
    · exact ⟨_, .flattened hl hi ho hb, q', hd.symm.trans hw⟩

lemma Next.reachable {root : Message} (h : Next index encoding v w)
    (hv : Reachable index encoding scope root v.scope v.message) :
    Reachable index encoding scope root w.scope w.message := by
  cases h with
  | nested _ hc => exact .nested hv hc.mem
  | flattened hl _ hc _ =>
    obtain ⟨f, hf, hx⟩ := exists_external_of_owed hl hc.mem
    have hi := (fieldLines_eq_ok hl).2.2 _ hc.mem
    exact .external hv hf hx (TypeIndex.definition?_eq_message.mp hi).2

theorem next_induction (index : TypeIndex) (encoding : Encoding) {p : Visit → Prop}
    (h : ∀ v, (∀ w, Next index encoding v w → p w) → p v) (v : Visit) : p v := by
  obtain ⟨budget, placed, name, scope, m⟩ := v
  induction budget using Nat.strongRecOn generalizing placed name scope m with
  | ind budget ihb =>
    induction m using Message.nested_induction generalizing placed name scope with
    | h m ihm =>
      apply h
      intro w hw
      cases hw with
      | nested _ hc => exact ihm _ hc.mem _ _ _
      | flattened _ _ _ hb => exact ihb _ (Nat.le_of_eq hb.symm) _ _ _ _

end Visit

variable {v : Visit}

lemma Visited.reachable (h : Visited index encoding scope m v) :
    Reachable index encoding scope m v.scope v.message := by
  induction h with
  | refl => exact .root
  | tail _ hn ih => exact hn.reachable ih

lemma Visited.error (h : Visited index encoding scope m v) {e : CompileError}
    (hv : v.result index encoding = .error e) : rootBlock index encoding scope m = .error e := by
  induction h with
  | refl => exact hv
  | tail _ hn ih => exact ih (hn.error hv)

lemma exists_visited_of_error {e : CompileError} (h : rootBlock index encoding scope m = .error e) :
    ∃ v, Visited index encoding scope m v ∧ v.lines index encoding = .error e := by
  have hr : ∀ v : Visit, v.result index encoding = .error e →
      ∃ w, Relation.ReflTransGen (Visit.Next index encoding) v w ∧
        w.lines index encoding = .error e := by
    refine Visit.next_induction index encoding ?_
    intro v ih hv
    rcases Visit.exists_next_of_error hv with hl | ⟨w, hn, hw⟩ | rfl
    · exact ⟨v, .refl, hl⟩
    · obtain ⟨u, hu, hl⟩ := ih w hn hw
      exact ⟨u, .head hn hu, hl⟩
    · exact absurd h (rootBlock_ne_unfinished scope m)
  exact hr _ h

lemma Visited.mem_all (h : Visited index encoding scope m v) {root : Block} {placed : List String}
    (hr : rootBlock index encoding scope m = .ok (root, placed)) :
    ∃ b q, v.result index encoding = .ok (b, q) ∧ b ∈ root.all := by
  induction h with
  | refl => exact ⟨root, placed, hr, root.self_mem_all⟩
  | tail _ hn ih =>
    obtain ⟨b, q, hv, hb⟩ := ih
    obtain ⟨c, q', hw, hc⟩ := hn.mem_children hv
    exact ⟨c, q', hw, Block.child_mem_all hb hc⟩

lemma exists_visited_of_mem_all {root b : Block} {placed : List String}
    (hr : rootBlock index encoding scope m = .ok (root, placed)) (hb : b ∈ root.all)
    (hk : b.kind = .message) :
    ∃ v, Visited index encoding scope m v ∧ ∃ q, v.result index encoding = .ok (b, q) := by
  obtain ⟨outer, hw⟩ := exists_within hb
  clear hb
  induction hw with
  | root => exact ⟨_, .refl, placed, hr⟩
  | @child outer b c _ hc ih =>
    have hb : b.kind = .message := by
      cases b with
      | message => rfl
      | enumeration => cases hc
    obtain ⟨v, hv, q, hres⟩ := ih hb
    obtain ⟨w, hn, hw⟩ := Visit.exists_next_of_child hres hc hk
    exact ⟨w, hv.tail hn, hw⟩

end TopicSchema.Schema
