import Mathlib.Tactic.Lemma
import TopicSchema.Schema.Block
import TopicSchema.TypeName

namespace TopicSchema.Schema

def FieldLine.external? (scope : String) (line : FieldLine) : Option (TypeKind × String) :=
  match line.type with
  | .scalar _ => none
  | .named kind _ typeName =>
    if TypeName.parent typeName = scope then none else some (kind, typeName)

namespace Block

def kind : Block → TypeKind
  | message .. => .message
  | enumeration .. => .enumeration

def references (b : Block) : List (TypeKind × String) :=
  b.fields.filterMap (·.external? b.typeName)

mutual

def all : Block → List Block
  | message name typeName fields nested flattened =>
    message name typeName fields nested flattened :: (allOf nested ++ allOf flattened)
  | enumeration name typeName values => [enumeration name typeName values]

def allOf : List Block → List Block
  | [] => []
  | b :: bs => b.all ++ allOf bs

end

lemma allOf_append (bs cs : List Block) : allOf (bs ++ cs) = allOf bs ++ allOf cs := by
  induction bs with
  | nil => rfl
  | cons b bs ih => simp only [List.cons_append, allOf, ih, List.append_assoc]

lemma all_eq (b : Block) : b.all = b :: allOf b.children := by
  cases b with
  | message name typeName fields nested flattened =>
    simp only [all, children, Block.nested, Block.flattened, allOf_append]
  | enumeration name typeName values => rfl

lemma mem_allOf {b : Block} {bs : List Block} : b ∈ allOf bs ↔ ∃ c ∈ bs, b ∈ c.all := by
  induction bs with
  | nil => simp [allOf]
  | cons c bs ih => simp [allOf, ih]

lemma mem_all {b c : Block} : c ∈ b.all ↔ c = b ∨ ∃ d ∈ b.children, c ∈ d.all := by
  rw [all_eq, List.mem_cons, mem_allOf]

lemma self_mem_all (b : Block) : b ∈ b.all := mem_all.mpr (Or.inl rfl)

theorem children_induction {p : Block → Prop} (h : ∀ b, (∀ c ∈ b.children, p c) → p b)
    (b : Block) : p b := by
  refine Block.rec (motive_1 := p) (motive_2 := fun bs => ∀ c ∈ bs, p c) ?_ ?_ ?_ ?_ b
  · intro name typeName fields nested flattened hn hf
    apply h
    intro c hc
    rcases List.mem_append.mp hc with hc | hc
    · exact hn c hc
    · exact hf c hc
  · intro name typeName values
    exact h _ (by simp [children, Block.nested, Block.flattened])
  · simp
  · intro c cs hc hcs d hd
    rcases List.mem_cons.mp hd with rfl | hd
    · exact hc
    · exact hcs d hd

lemma child_mem_all {root b c : Block} (hb : b ∈ root.all) (hc : c ∈ b.children) :
    c ∈ root.all := by
  induction root using children_induction with
  | h root ih =>
    rcases mem_all.mp hb with rfl | ⟨d, hd, hb⟩
    · exact mem_all.mpr (Or.inr ⟨c, hc, c.self_mem_all⟩)
    · exact mem_all.mpr (Or.inr ⟨d, hd, ih d hd hb⟩)

end Block

/-- `b` is a block of the schema and `outer` are the blocks around it, the innermost first. -/
inductive Within (root : Block) : List Block → Block → Prop
  | root : Within root [] root
  | child {outer : List Block} {b c : Block} :
      Within root outer b → c ∈ b.children → Within root (b :: outer) c

lemma Within.mem_all {root b : Block} {outer : List Block} (h : Within root outer b) :
    b ∈ root.all := by
  induction h with
  | root => exact root.self_mem_all
  | child _ hc ih => exact Block.child_mem_all ih hc

lemma Within.outer_mem_all {root a b : Block} {outer : List Block} (h : Within root outer b)
    (ha : a ∈ outer) : a ∈ root.all := by
  induction h with
  | root => cases ha
  | child hb _ ih =>
    rcases List.mem_cons.mp ha with rfl | ha
    · exact hb.mem_all
    · exact ih ha

lemma Within.inside {root b c : Block} {outer inner : List Block} (hb : Within root outer b)
    (hc : Within b inner c) : Within root (inner ++ outer) c := by
  induction hc with
  | root => exact hb
  | child _ hd ih => exact .child ih hd

lemma exists_within {root b : Block} (h : b ∈ root.all) : ∃ outer, Within root outer b := by
  induction root using Block.children_induction with
  | h root ih =>
    rcases Block.mem_all.mp h with rfl | ⟨c, hc, hb⟩
    · exact ⟨[], .root⟩
    · obtain ⟨inner, hi⟩ := ih c hc hb
      exact ⟨inner ++ [root], Within.inside (.child .root hc) hi⟩

end TopicSchema.Schema
