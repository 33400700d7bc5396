import TopicSchema.Proofs.Schema.Closure

namespace TopicSchema.Schema

def Block.values : Block → List EnumValue
  | .message .. => []
  | .enumeration _ _ values => values

def Block.openingText : Block → String
  | .message name .. => "message " ++ name ++ " \x7b"
  | .enumeration name .. => "enum " ++ name ++ " \x7b"

/-- A line of the block `b`. A gap is the blank line before the flattened definition `d` in it. -/
inductive Row where
  | opening (b : Block)
  | field (b : Block) (f : FieldLine)
  | value (b : Block) (v : EnumValue)
  | gap (b d : Block)
  | closing (b : Block)

namespace Row

def line (dialect : Dialect) (depth : Nat) : Row → Line
  | opening (.message name ..) => .written depth ("message " ++ name ++ " \x7b")
  | opening (.enumeration name ..) => .written depth ("enum " ++ name ++ " \x7b")
  | field _ f => .written (depth + 1) (f.text dialect)
  | value _ v => .written (depth + 1) (valueText v)
  | gap .. => .blank
  | closing _ => .written depth "\x7d"

inductive Belongs (b : Block) : Row → Prop
  | opening : Belongs b (.opening b)
  | field {f : FieldLine} : f ∈ b.fields → Belongs b (.field b f)
  | value {v : EnumValue} : v ∈ b.values → Belongs b (.value b v)
  | gap {d : Block} : d ∈ b.flattened → Belongs b (.gap b d)
  | closing : Belongs b (.closing b)

end Row

namespace Block

mutual

def rows (depth : Nat) : Block → List (Nat × Row)
  | message name typeName fields nested flattened =>
    let b := message name typeName fields nested flattened
    (depth, .opening b) :: (fields.map fun f => (depth, .field b f))
      ++ nestedRows (depth + 1) nested
      ++ flattenedRows b (depth + 1) flattened
      ++ [(depth, .closing b)]
  | enumeration name typeName values =>
    let b := enumeration name typeName values
    (depth, .opening b) :: (values.map fun v => (depth, .value b v))
      ++ [(depth, .closing b)]

def nestedRows (depth : Nat) : List Block → List (Nat × Row)
  | [] => []
  | b :: bs => b.rows depth ++ nestedRows depth bs

def flattenedRows (outer : Block) (depth : Nat) : List Block → List (Nat × Row)
  | [] => []
  | b :: bs => (depth, .gap outer b) :: b.rows depth ++ flattenedRows outer depth bs

end

def layout (depth : Nat) (b : Block) : List (Nat × Row) :=
  [(depth, .opening b)] ++
    b.fields.map (fun f => (depth, .field b f)) ++
    b.values.map (fun v => (depth, .value b v)) ++
    b.nested.flatMap (·.rows (depth + 1)) ++
    b.flattened.flatMap (fun d => (depth + 1, .gap b d) :: d.rows (depth + 1)) ++
    [(depth, .closing b)]

lemma nestedRows_eq (depth : Nat) (bs : List Block) :
    nestedRows depth bs = bs.flatMap (·.rows depth) := by
  induction bs with
  | nil => rfl
  | cons b bs ih => rw [nestedRows, ih, List.flatMap_cons]

lemma flattenedRows_eq (outer : Block) (depth : Nat) (bs : List Block) :
    flattenedRows outer depth bs =
      bs.flatMap (fun d => (depth, .gap outer d) :: d.rows depth) := by
  induction bs with
  | nil => rfl
  | cons b bs ih => rw [flattenedRows, ih, List.flatMap_cons]

theorem rows_eq (depth : Nat) (b : Block) : b.rows depth = b.layout depth := by
  cases b with
  | message name typeName fields nested flattened =>
    simp [rows, layout, nestedRows_eq, flattenedRows_eq, Block.fields, Block.values, Block.nested,
      Block.flattened]
  | enumeration name typeName values =>
    simp [rows, layout, Block.fields, Block.values, Block.nested, Block.flattened]

lemma rows_child {b c : Block} (h : c ∈ b.children) (depth : Nat) :
    c.rows (depth + 1) <:+: b.rows depth := by
  rw [rows_eq depth b, layout]
  rcases List.mem_append.mp h with h | h
  · obtain ⟨before, rest, hs⟩ := List.append_of_mem h
    rw [hs]
    refine ⟨[(depth, .opening b)] ++ b.fields.map (fun f => (depth, .field b f)) ++
      b.values.map (fun v => (depth, .value b v)) ++ before.flatMap (·.rows (depth + 1)),
      rest.flatMap (·.rows (depth + 1)) ++
      b.flattened.flatMap (fun d => (depth + 1, .gap b d) :: d.rows (depth + 1)) ++
        [(depth, .closing b)], ?_⟩
    simp
  · obtain ⟨before, rest, hs⟩ := List.append_of_mem h
    rw [hs]
    refine ⟨[(depth, .opening b)] ++ b.fields.map (fun f => (depth, .field b f)) ++
      b.values.map (fun v => (depth, .value b v)) ++ b.nested.flatMap (·.rows (depth + 1)) ++
      before.flatMap (fun d => (depth + 1, .gap b d) :: d.rows (depth + 1)) ++
      [(depth + 1, .gap b c)],
      rest.flatMap (fun d => (depth + 1, .gap b d) :: d.rows (depth + 1)) ++
        [(depth, .closing b)], ?_⟩
    simp

mutual

theorem lines_eq_rows (dialect : Dialect) :
    ∀ (depth : Nat) (b : Block),
      b.lines dialect depth = (b.rows depth).map fun p => p.2.line dialect p.1
  | depth, message name typeName fields nested flattened => by
    rw [lines, rows, nestedLines_eq_rows dialect (depth + 1) nested,
      flattenedLines_eq_rows dialect (message name typeName fields nested flattened) (depth + 1)
        flattened]
    simp only [List.map_append, List.map_cons, List.map_map, List.map_nil]
    rfl
  | depth, enumeration name typeName values => by
    rw [lines, rows, List.map_append, List.map_cons, List.map_map]
    rfl

theorem nestedLines_eq_rows (dialect : Dialect) :
    ∀ (depth : Nat) (bs : List Block),
      nestedLines dialect depth bs = (nestedRows depth bs).map fun p => p.2.line dialect p.1
  | _, [] => rfl
  | depth, b :: bs => by
    rw [nestedLines, nestedRows, List.map_append, lines_eq_rows dialect depth b,
      nestedLines_eq_rows dialect depth bs]

theorem flattenedLines_eq_rows (dialect : Dialect) (outer : Block) :
    ∀ (depth : Nat) (bs : List Block),
      flattenedLines dialect depth bs =
        (flattenedRows outer depth bs).map fun p => p.2.line dialect p.1
  | _, [] => rfl
  | depth, b :: bs => by
    rw [flattenedLines, flattenedRows, List.map_append, List.map_cons,
      lines_eq_rows dialect depth b, flattenedLines_eq_rows dialect outer depth bs]
    rfl

end

end Block

lemma Within.rows {root b : Block} {outer : List Block} (h : Within root outer b) :
    b.rows outer.length <:+: root.rows 0 := by
  induction h with
  | root => exact List.infix_refl _
  | child _ hc ih => exact (Block.rows_child hc _).trans ih

lemma exists_belongs {root : Block} {depth : Nat} {p : Nat × Row} (h : p ∈ root.rows depth) :
    ∃ b ∈ root.all, p.2.Belongs b := by
  induction root using Block.children_induction generalizing depth with
  | h root ih =>
    have child {c : Block} (hc : c ∈ root.children) (hp : p ∈ c.rows (depth + 1)) :
        ∃ b ∈ root.all, p.2.Belongs b := by
      obtain ⟨b, hb, hp⟩ := ih c hc hp
      exact ⟨b, Block.mem_all.mpr (Or.inr ⟨c, hc, hb⟩), hp⟩
    rw [Block.rows_eq, Block.layout] at h
    simp only [List.mem_cons, List.mem_append, List.mem_map, List.mem_flatMap, List.not_mem_nil,
      or_false, or_assoc] at h
    rcases h with rfl | ⟨f, hf, rfl⟩ | ⟨v, hv, rfl⟩ | ⟨c, hc, hp⟩ | ⟨d, hd, rfl | hp⟩ | rfl
    · exact ⟨root, root.self_mem_all, .opening⟩
    · exact ⟨root, root.self_mem_all, .field hf⟩
    · exact ⟨root, root.self_mem_all, .value hv⟩
    · exact child (List.mem_append_left _ hc) hp
    · exact ⟨root, root.self_mem_all, .gap hd⟩
    · exact child (List.mem_append_right _ hd) hp
    · exact ⟨root, root.self_mem_all, .closing⟩

def Announced : List (Nat × Row) → Prop
  | [] => True
  | (depth, row) :: rest => (∀ b d, row = .gap b d → d.rows depth <+: rest) ∧ Announced rest

lemma Announced.append {xs ys : List (Nat × Row)} (hx : Announced xs) (hy : Announced ys) :
    Announced (xs ++ ys) := by
  induction xs with
  | nil => exact hy
  | cons p xs ih =>
    exact ⟨fun b d hg => (hx.1 b d hg).trans (List.prefix_append xs ys), ih hx.2⟩

lemma Announced.of_append {before rest : List (Nat × Row)} {depth : Nat} {b d : Block}
    (h : Announced (before ++ (depth, .gap b d) :: rest)) : d.rows depth <+: rest := by
  induction before with
  | nil => exact h.1 b d rfl
  | cons p before ih => exact ih h.2

lemma announced_map {α : Type} {f : α → Nat × Row} (h : ∀ a b d, (f a).2 ≠ .gap b d)
    (l : List α) : Announced (l.map f) := by
  induction l with
  | nil => trivial
  | cons a l ih => exact ⟨fun b d hg => absurd hg (h a b d), ih⟩

lemma announced_flatMap {α : Type} {f : α → List (Nat × Row)} {l : List α}
    (h : ∀ a ∈ l, Announced (f a)) : Announced (l.flatMap f) := by
  induction l with
  | nil => trivial
  | cons a l ih =>
    rw [List.flatMap_cons]
    exact (h a List.mem_cons_self).append (ih fun b hb => h b (List.mem_cons_of_mem _ hb))

lemma announced_rows (b : Block) (depth : Nat) : Announced (b.rows depth) := by
  induction b using Block.children_induction generalizing depth with
  | h b ih =>
    rw [Block.rows_eq, Block.layout]
    have ho : Announced [(depth, .opening b)] := ⟨by simp, trivial⟩
    have hc : Announced [(depth, .closing b)] := ⟨by simp, trivial⟩
    have hn : Announced (b.nested.flatMap (·.rows (depth + 1))) :=
      announced_flatMap fun c hc => ih c (List.mem_append_left _ hc) _
    have hf : Announced
        (b.flattened.flatMap fun d => (depth + 1, .gap b d) :: d.rows (depth + 1)) := by
      refine announced_flatMap fun d hd => ⟨?_, ih d (List.mem_append_right _ hd) _⟩
      intro c e hg
      cases hg
      exact List.prefix_refl _
    exact ((((ho.append (announced_map (by simp) _)).append
      (announced_map (by simp) _)).append hn).append hf).append hc

def FieldLine.typeName? (f : FieldLine) : Option String :=
  match f.type with
  | .scalar _ => none
  | .named _ _ typeName => some typeName

def FieldLine.Flattens (f : FieldLine) (typeName : String) : Prop :=
  ∃ kind, f.type = .named kind (TypeName.flattened typeName) typeName

/-- Of the field lines in the blocks `among` that name the type by its flattened name, the first in
the order of the text is one of `b`. -/
def FirstLine (among : Block → Prop) (root b : Block) (typeName : String) : Prop :=
  ∃ before depth f rest, root.rows 0 = before ++ (depth, .field b f) :: rest ∧ among b ∧
    f.Flattens typeName ∧
    ∀ n a g, (n, .field a g) ∈ before → among a → ¬ g.Flattens typeName

def Row.field? : Row → Option (Block × FieldLine)
  | field b f => some (b, f)
  | _ => none

def fieldRows (rows : List (Nat × Row)) : List (Block × FieldLine) :=
  rows.filterMap (·.2.field?)

def fieldsOf (bs : List Block) : List (Block × FieldLine) :=
  bs.flatMap fun b => b.fields.map fun f => (b, f)

lemma Row.field?_eq_some {row : Row} {b : Block} {f : FieldLine} :
    row.field? = some (b, f) ↔ row = .field b f := by
  cases row <;> simp [Row.field?]

lemma fieldRows_append (xs ys : List (Nat × Row)) :
    fieldRows (xs ++ ys) = fieldRows xs ++ fieldRows ys :=
  List.filterMap_append

lemma fieldsOf_append (bs cs : List Block) : fieldsOf (bs ++ cs) = fieldsOf bs ++ fieldsOf cs :=
  List.flatMap_append

lemma fieldRows_flatMap (rows : Block → List (Nat × Row)) {bs : List Block}
    (h : ∀ b ∈ bs, fieldRows (rows b) = fieldsOf b.all) :
    fieldRows (bs.flatMap rows) = fieldsOf (Block.allOf bs) := by
  induction bs with
  | nil => rfl
  | cons b bs ih =>
    rw [List.flatMap_cons, fieldRows_append, h b List.mem_cons_self,
      ih fun c hc => h c (List.mem_cons_of_mem _ hc), Block.allOf, fieldsOf_append]

theorem fieldRows_rows (b : Block) (depth : Nat) :
    fieldRows (b.rows depth) = fieldsOf b.all := by
  induction b using Block.children_induction generalizing depth with
  | h b ih =>
    have hl : fieldRows (b.fields.map fun f => (depth, .field b f)) =
        b.fields.map fun f => (b, f) := by
      simp [fieldRows, Row.field?, List.filterMap_map]
    have hv : fieldRows (b.values.map fun v => (depth, .value b v)) = [] := by
      simp [fieldRows, Row.field?]
    have hn : fieldRows (b.nested.flatMap (·.rows (depth + 1))) = fieldsOf (Block.allOf b.nested) :=
      fieldRows_flatMap _ fun c hc => ih c (List.mem_append_left _ hc) _
    have hf : fieldRows
        (b.flattened.flatMap fun d => (depth + 1, .gap b d) :: d.rows (depth + 1)) =
          fieldsOf (Block.allOf b.flattened) :=
      fieldRows_flatMap _ fun d hd => ih d (List.mem_append_right _ hd) _
    have ho : fieldRows [(depth, Row.opening b)] = [] := rfl
    have hc : fieldRows [(depth, Row.closing b)] = [] := rfl
    rw [Block.rows_eq, Block.layout, Block.all_eq, Block.children, Block.allOf_append]
    simp only [fieldRows_append, ho, hl, hv, hn, hf, hc, List.nil_append, List.append_nil,
      List.append_assoc, ← fieldsOf_append]
    rfl

lemma FieldLine.typeName?_of_external? {scope : String} {f : FieldLine}
    {r : TypeKind × String} (h : f.external? scope = some r) :
    f.typeName? = some r.2 ∧ TypeName.parent r.2 ≠ scope := by
  obtain ⟨label, type, name, number⟩ := f
  cases type with
  | scalar type => cases h
  | named kind written typeName =>
    simp only [FieldLine.external?] at h
    split at h
    · cases h
    · next hp =>
      cases h
      exact ⟨rfl, hp⟩

lemma FieldLine.external?_of_typeName? {scope t : String} {f : FieldLine}
    (h : f.typeName? = some t) (hp : TypeName.parent t ≠ scope) :
    ∃ kind, f.external? scope = some (kind, t) := by
  obtain ⟨label, type, name, number⟩ := f
  cases type with
  | scalar type => cases h
  | named kind written typeName =>
    cases h
    exact ⟨kind, if_neg hp⟩

def firstNaming (lines : List FieldLine) (typeName : String) : Nat :=
  lines.findIdx (·.typeName? = some typeName)

lemma firstNaming_cons_self {f : FieldLine} {t : String} (h : f.typeName? = some t)
    (lines : List FieldLine) : firstNaming (f :: lines) t = 0 := by
  simp [firstNaming, List.findIdx_cons, h]

lemma firstNaming_cons {f : FieldLine} {t : String} (h : f.typeName? ≠ some t)
    (lines : List FieldLine) : firstNaming (f :: lines) t = firstNaming lines t + 1 := by
  simp [firstNaming, List.findIdx_cons, h]

lemma pairwise_fresh (scope : String) (seen : List String) (lines : List FieldLine) :
    (fresh seen (lines.filterMap (·.external? scope))).Pairwise fun r s =>
      firstNaming lines r.2 < firstNaming lines s.2 := by
  induction lines generalizing seen with
  | nil => exact List.Pairwise.nil
  | cons f lines ih =>
    -- a line moves the first naming of every other type by one
    have step {seen : List String} (hf : ∀ t, f.typeName? = some t →
        TypeName.parent t = scope ∨ t ∈ seen) :
        ∀ r ∈ fresh seen (lines.filterMap (·.external? scope)),
          firstNaming (f :: lines) r.2 = firstNaming lines r.2 + 1 := by
      intro r hr
      obtain ⟨hs, hfind⟩ := mem_fresh.mp hr
      obtain ⟨g, _, hg⟩ := List.mem_filterMap.mp (List.mem_of_find?_eq_some hfind)
      refine firstNaming_cons ?_ lines
      intro hn
      rcases hf _ hn with hp | hm
      · exact (FieldLine.typeName?_of_external? hg).2 hp
      · exact hs hm
    have shift {seen : List String} (hf : ∀ t, f.typeName? = some t →
        TypeName.parent t = scope ∨ t ∈ seen) :
        (fresh seen (lines.filterMap (·.external? scope))).Pairwise fun r s =>
          firstNaming (f :: lines) r.2 < firstNaming (f :: lines) s.2 := by
      refine (ih seen).imp_of_mem ?_
      intro r s hr hs h
      rw [step hf r hr, step hf s hs]
      exact Nat.succ_lt_succ h
    cases he : f.external? scope with
    | none =>
      rw [List.filterMap_cons_none he]
      refine shift fun t ht => Or.inl ?_
      by_contra hp
      obtain ⟨kind, hx⟩ := FieldLine.external?_of_typeName? ht hp
      rw [he] at hx
      cases hx
    | some r =>
      have hr := (FieldLine.typeName?_of_external? he).1
      rw [List.filterMap_cons_some he, fresh]
      split
      · next hm =>
        refine shift fun t ht => Or.inr ?_
        cases hr.symm.trans ht
        exact hm
      · have hf : ∀ t, f.typeName? = some t → TypeName.parent t = scope ∨ t ∈ seen ++ [r.2] := by
          intro t ht
          cases hr.symm.trans ht
          simp
        refine List.pairwise_cons.mpr ⟨?_, shift hf⟩
        intro s hs
        rw [firstNaming_cons_self hr, step hf s hs]
        exact Nat.succ_pos _

variable {index : TypeIndex} {encoding : Encoding} {placed : List String}
variable {source : Copy} {root : Block}

lemma Placed.pairwise_flattened {seen : List String} {bs : List Block} (h : Placed seen bs)
    {b : Block} (hb : b ∈ bs) :
    b.flattened.Pairwise fun d e =>
      firstNaming b.fields d.typeName < firstNaming b.fields e.typeName := by
  induction bs generalizing seen with
  | nil => cases hb
  | cons c bs ih =>
    rcases List.mem_cons.mp hb with rfl | hb
    · have hp := pairwise_fresh b.typeName seen b.fields
      rwa [← Block.references, ← h.1, List.pairwise_map] at hp
    · exact ih h.2 hb

lemma flattens_iff (hr : Renders index encoding [] [source] [root] placed) {b : Block}
    (hb : b ∈ root.all) {f : FieldLine} (hf : f ∈ b.fields) {t : String} :
    (TypeName.parent t ≠ b.typeName ∧ f.Flattens t) ↔
      (f.external? b.typeName).map Prod.snd = some t := by
  constructor
  · rintro ⟨hp, kind, hk⟩
    have ht : f.typeName? = some t := by simp [FieldLine.typeName?, hk]
    obtain ⟨kind', hx⟩ := FieldLine.external?_of_typeName? ht hp
    rw [hx]
    rfl
  · intro h
    obtain ⟨⟨kind, _⟩, hx, rfl⟩ := Option.map_eq_some_iff.mp h
    obtain ⟨c, _, _, _, hq⟩ := exists_renders hr hb
    rw [hq.fields_eq] at hf
    obtain ⟨field, _, rfl⟩ := List.mem_map.mp hf
    refine ⟨(FieldLine.typeName?_of_external? hx).2, kind, ?_⟩
    rw [hq.head_eq.2.2, external?_writtenLine, external?_eq_some] at hx
    rw [writtenLine, reference_eq_external.mpr hx]
    rfl

lemma mem_references {b : Block} {t : String} :
    t ∈ b.references.map Prod.snd ↔
      ∃ f ∈ b.fields, (f.external? b.typeName).map Prod.snd = some t := by
  rw [Block.references, List.map_filterMap, List.mem_filterMap]

lemma mem_fieldsOf {bs : List Block} {a : Block} {f : FieldLine} :
    (a, f) ∈ fieldsOf bs ↔ a ∈ bs ∧ f ∈ a.fields := by
  simp [fieldsOf]

theorem FirstReference.firstLine (hr : Renders index encoding [] [source] [root] placed)
    {b : Block} {t : String} (h : FirstReference root b t) :
    FirstLine (fun a => TypeName.parent t ≠ a.typeName) root b t := by
  obtain ⟨outer, later, hs, hb, ht⟩ := h
  -- the first of the lines of `b` that refer to the type
  obtain ⟨g, hg, he⟩ := mem_references.mp ht
  obtain ⟨f, hfind⟩ := Option.isSome_iff_exists.mp
    (List.find?_isSome.mpr ⟨g, hg, decide_eq_true he⟩ :
      (b.fields.find? fun f => (f.external? b.typeName).map Prod.snd = some t).isSome)
  obtain ⟨hf, front, back, hl, hfront⟩ := List.find?_eq_some_iff_append.mp hfind
  have hrows : fieldRows (root.rows 0) =
      (fieldsOf outer ++ front.map fun g => (b, g)) ++
        (b, f) :: ((back.map fun g => (b, g)) ++ fieldsOf later) := by
    rw [fieldRows_rows, hs, fieldsOf_append, fieldsOf, fieldsOf, List.flatMap_cons, hl]
    simp [fieldsOf]
  obtain ⟨early, late, hsplit, hearly, hlate⟩ := List.filterMap_eq_append_iff.mp hrows
  obtain ⟨middle, ⟨depth, row⟩, rest, rfl, hmiddle, hrow, _⟩ := List.filterMap_eq_cons_iff.mp hlate
  obtain rfl := Row.field?_eq_some.mp hrow
  have hroot {a : Block} (ha : a ∈ outer ∨ a = b) : a ∈ root.all := by
    rw [hs, List.mem_append, List.mem_cons]
    exact ha.imp_right Or.inl
  have hmem : f ∈ b.fields := by simp [hl]
  obtain ⟨hp, hw⟩ := (flattens_iff hr (hroot (.inr rfl)) hmem).mpr (of_decide_eq_true hf)
  refine ⟨early ++ middle, depth, f, rest, by simp [hsplit], hp, hw, ?_⟩
  intro n a g hm hpa hwa
  rcases List.mem_append.mp hm with hm | hm
  · have hx : (a, g) ∈ fieldsOf outer ++ front.map fun g => (b, g) := by
      rw [← hearly]
      exact List.mem_filterMap.mpr ⟨_, hm, rfl⟩
    rcases List.mem_append.mp hx with hx | hx
    · obtain ⟨ha, hga⟩ := mem_fieldsOf.mp hx
      have hga' := (flattens_iff hr (hroot (.inl ha)) hga).mp ⟨hpa, hwa⟩
      refine hb (List.mem_map.mpr ?_)
      obtain ⟨r, hr, hrt⟩ := List.mem_map.mp (mem_references.mpr ⟨g, hga, hga'⟩)
      exact ⟨r, List.mem_flatMap.mpr ⟨a, ha, hr⟩, hrt⟩
    · obtain ⟨g', hg', heq⟩ := List.mem_map.mp hx
      cases heq
      have hga' := (flattens_iff hr (hroot (.inr rfl)) (by simp [hl, hg'])).mp ⟨hpa, hwa⟩
      simpa [hga'] using hfront g hg'
  · have hn := hmiddle _ hm
    cases hn

structure Arranged (root : Block) : Prop where
  once : (root.definitions.map (·.typeName)).Nodup
  owner : ∀ b ∈ root.all, ∀ d ∈ b.flattened,
    FirstLine (fun a => TypeName.parent d.typeName ≠ a.typeName) root b d.typeName
  last : ∀ outer b, Within root outer b → b.layout outer.length <:+: root.rows 0
  sorted : ∀ b ∈ root.all, b.flattened.Pairwise fun d e =>
    firstNaming b.fields d.typeName < firstNaming b.fields e.typeName
  gaps : ∀ before depth b d rest, root.rows 0 = before ++ (depth, .gap b d) :: rest →
    b ∈ root.all ∧ d ∈ b.flattened ∧ d.rows depth <+: rest ∧
      ∀ n a e, (n, .gap a e) ∉ before.getLast?

theorem arranged (hr : Renders index encoding [] [source] [root] placed) : Arranged root where
  once := nodup_definitions hr
  owner b hb d hd :=
    ((mem_flattened_iff hr).mp ⟨hb, List.mem_map_of_mem hd⟩).firstLine hr
  last outer b hw := by
    rw [← Block.rows_eq]
    exact hw.rows
  sorted b hb := hr.root_placed.pairwise_flattened hb
  gaps before depth b d rest h := by
    have hann := announced_rows root 0
    have hmem : (depth, Row.gap b d) ∈ root.rows 0 := by simp [h]
    obtain ⟨c, hc, hbelongs⟩ := exists_belongs hmem
    cases hbelongs with
    | gap hd =>
      refine ⟨hc, hd, ?_, ?_⟩
      · rw [h] at hann
        exact hann.of_append
      · intro n a e hlast
        obtain ⟨front, rfl⟩ := List.getLast?_eq_some_iff.mp hlast
        -- what follows a gap is the opening of a definition
        rw [h, List.append_assoc] at hann
        have hp := hann.of_append
        rw [Block.rows_eq] at hp
        cases (List.cons_prefix_cons.mp hp).1

end TopicSchema.Schema
