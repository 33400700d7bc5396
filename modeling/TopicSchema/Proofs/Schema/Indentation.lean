import Mathlib.Algebra.BigOperators.Group.List.Basic
import Mathlib.Algebra.Order.Ring.Int
import TopicSchema.Proofs.Schema.Identifiers

namespace TopicSchema.Schema

def Opens (line : List Char) : Prop :=
  [' ', '\x7b'] <:+ line

def Closes (line : List Char) : Prop :=
  line.dropWhile (· = ' ') = ['\x7d']

instance (line : List Char) : Decidable (Opens line) :=
  inferInstanceAs (Decidable (_ <:+ _))

instance (line : List Char) : Decidable (Closes line) :=
  inferInstanceAs (Decidable (_ = _))

def indentation (line : List Char) : Nat :=
  (line.takeWhile (· = ' ')).length

def change (line : List Char) : Int :=
  if Opens line then 1 else if Closes line then -1 else 0

def openAfter (lines : List (List Char)) : Int :=
  (lines.map change).sum

variable {depth : Int} {xs ys before rest : List (List Char)} {line opening closing : List Char}

lemma openAfter_nil : openAfter [] = 0 :=
  rfl

lemma openAfter_cons (line : List Char) (xs : List (List Char)) :
    openAfter (line :: xs) = change line + openAfter xs := by
  simp [openAfter]

lemma openAfter_append (xs ys : List (List Char)) :
    openAfter (xs ++ ys) = openAfter xs + openAfter ys := by
  simp [openAfter]

lemma Opens.change (h : Opens line) : change line = 1 :=
  if_pos h

lemma Opens.getLast? (h : Opens line) : line.getLast? = some '\x7b' := by
  obtain ⟨s, rfl⟩ := h
  simp

lemma Closes.getLast? (h : Closes line) : line.getLast? = some '\x7d' := by
  rw [← List.takeWhile_append_dropWhile (p := (· = ' ')) (l := line), h]
  simp

lemma Opens.not_closes (h : Opens line) : ¬ Closes line := by
  intro hc
  have := h.getLast?.symm.trans hc.getLast?
  exact absurd this (by decide)

lemma Closes.change (h : Closes line) : change line = -1 := by
  rw [Schema.change, if_neg fun ho => ho.not_closes h, if_pos h]

structure Fits (depth : Int) (line : List Char) : Prop where
  indented : line ≠ [] → (indentation line : Int) = 2 * if Closes line then depth - 1 else depth
  ended : line ≠ [] → Opens line ∨ Closes line ∨ line.getLast? = some ';'

structure Level (depth : Int) (lines : List (List Char)) : Prop where
  closed : openAfter lines = 0
  fits : ∀ before line rest, lines = before ++ line :: rest →
    0 ≤ openAfter before ∧ Fits (depth + openAfter before) line

lemma Level.nonneg (h : Level depth xs) (hs : xs = before ++ rest) : 0 ≤ openAfter before := by
  cases rest with
  | nil =>
    rw [List.append_nil] at hs
    exact (hs ▸ h.closed).ge
  | cons line rest => exact (h.fits before line rest hs).1

lemma Level.nil : Level depth [] where
  closed := rfl
  fits before line rest h := by simp at h

lemma Level.single (hc : change line = 0) (hf : Fits depth line) : Level depth [line] where
  closed := by simp [openAfter, hc]
  fits before other rest h := by
    cases before with
    | nil =>
      obtain ⟨rfl, _⟩ := List.cons.inj h
      simpa [openAfter_nil] using hf
    | cons b before => simp at h

lemma Level.append (hx : Level depth xs) (hy : Level depth ys) : Level depth (xs ++ ys) where
  closed := by rw [openAfter_append, hx.closed, hy.closed, Int.add_zero]
  fits before line rest h := by
    rcases List.append_eq_append_iff.mp h with ⟨zs, rfl, hz⟩ | ⟨zs, rfl, hz⟩
    · rw [openAfter_append, hx.closed, Int.zero_add]
      exact hy.fits zs line rest hz
    · cases zs with
      | nil =>
        rw [List.append_nil] at hx
        rw [hx.closed]
        exact hy.fits [] line rest hz.symm
      | cons z zs =>
        obtain ⟨rfl, rfl⟩ := List.cons.inj hz
        exact hx.fits before line zs rfl

lemma Level.flatMap {α : Type} {f : α → List (List Char)} {l : List α}
    (h : ∀ a ∈ l, Level depth (f a)) : Level depth (l.flatMap f) := by
  induction l with
  | nil => exact .nil
  | cons a l ih =>
    rw [List.flatMap_cons]
    exact (h a List.mem_cons_self).append (ih fun b hb => h b (List.mem_cons_of_mem _ hb))

lemma Level.map {α : Type} {f : α → List Char} {l : List α}
    (h : ∀ a ∈ l, Level depth [f a]) : Level depth (l.map f) := by
  rw [List.map_eq_flatMap]
  exact .flatMap h

lemma eq_or_exists_of_concat {α : Type} {l front back : List α} {a b : α}
    (h : l ++ [a] = front ++ b :: back) :
    (l = front ∧ a = b ∧ back = []) ∨ ∃ zs, l = front ++ b :: zs := by
  rcases List.append_eq_append_iff.mp h with ⟨zs, rfl, hz⟩ | ⟨zs, rfl, hz⟩
  · cases zs with
    | nil => simp_all
    | cons z zs => simp at hz
  · cases zs with
    | nil => simp_all
    | cons z zs =>
      obtain ⟨rfl, _⟩ := List.cons.inj hz
      exact Or.inr ⟨zs, rfl⟩

lemma Level.one_le (h : Level depth xs) (ho : Opens opening)
    (hs : opening :: xs ++ [closing] = before ++ line :: rest) (hb : before ≠ []) :
    1 ≤ openAfter before := by
  obtain ⟨b, before, rfl⟩ := List.exists_cons_of_ne_nil hb
  rw [List.cons_append, List.cons_append, List.cons.injEq] at hs
  obtain ⟨rfl, hs⟩ := hs
  have hn : 0 ≤ openAfter before := by
    rcases eq_or_exists_of_concat hs with ⟨rfl, _⟩ | ⟨zs, hx⟩
    · exact h.closed.ge
    · exact h.nonneg hx
  rw [openAfter_cons, ho.change]
  omega

lemma Level.wrap (h : Level (depth + 1) xs) (ho : Opens opening) (hfo : Fits depth opening)
    (hc : Closes closing) (hfc : Fits (depth + 1) closing) :
    Level depth (opening :: xs ++ [closing]) where
  closed := by
    rw [openAfter_append, openAfter_cons, openAfter_cons, openAfter_nil, h.closed, ho.change,
      hc.change]
    rfl
  fits before line rest hs := by
    cases before with
    | nil =>
      obtain ⟨rfl, _⟩ := List.cons.inj hs
      simpa [openAfter_nil] using hfo
    | cons b before =>
      have hle := h.one_le ho hs (List.cons_ne_nil b before)
      refine ⟨by omega, ?_⟩
      rw [List.cons_append, List.cons_append, List.cons.injEq] at hs
      obtain ⟨rfl, hs⟩ := hs
      rw [openAfter_cons, ho.change, ← Int.add_assoc]
      rcases eq_or_exists_of_concat hs with ⟨rfl, rfl, _⟩ | ⟨zs, rfl⟩
      · simpa [h.closed] using hfc
      · exact (h.fits before line zs rfl).2

structure WellLaid (name : String) (body : List (List Char)) : Prop where
  head : body.head? = some ("message " ++ name ++ " \x7b").toList
  nonneg : ∀ before rest, body = before ++ rest → 0 ≤ openAfter before
  indented : ∀ before line rest, body = before ++ line :: rest → line ≠ [] →
    (indentation line : Int) =
      2 * if Closes line then openAfter (before ++ [line]) else openAfter before
  ended : ∀ line ∈ body, line ≠ [] → Opens line ∨ Closes line ∨ line.getLast? = some ';'
  closed_iff : ∀ before line rest, body = before ++ line :: rest →
    (openAfter (before ++ [line]) = 0 ↔ rest = [])
  outermost : ∀ before line rest, body = before ++ line :: rest → Opens line →
    openAfter before = 0 → before = [] ∧ line = ("message " ++ name ++ " \x7b").toList

lemma Level.wellLaid {name : String} (h : Level 1 xs) (ho : Opens opening)
    (hfo : Fits 0 opening) (hc : Closes closing) (hfc : Fits 1 closing)
    (hname : opening = ("message " ++ name ++ " \x7b").toList) :
    WellLaid name (opening :: xs ++ [closing]) := by
  have hw : Level 0 (opening :: xs ++ [closing]) := h.wrap ho hfo hc hfc
  refine ⟨by simp [hname], fun before rest => hw.nonneg, ?_, ?_, ?_, ?_⟩
  · intro before line rest hs hne
    have hi := (hw.fits before line rest hs).2.indented hne
    rw [Int.zero_add] at hi
    rw [hi, openAfter_append, openAfter_cons, openAfter_nil]
    split
    · next hl => rw [hl.change]; rfl
    · rfl
  · intro line hl
    obtain ⟨before, rest, hs⟩ := List.append_of_mem hl
    exact (hw.fits before line rest hs).2.ended
  · intro before line rest hs
    cases rest with
    | nil => simpa [← hs] using hw.closed
    | cons next rest =>
      have hs' : opening :: xs ++ [closing] = (before ++ [line]) ++ next :: rest := by
        rw [hs, List.append_assoc, List.singleton_append]
      have hle := h.one_le ho hs' (by simp)
      simp only [reduceCtorEq, iff_false]
      omega
  · intro before line rest hs _ hz
    cases before with
    | nil => exact ⟨rfl, (List.cons.inj hs).1.symm.trans hname⟩
    | cons b before =>
      have hle := h.one_le ho hs (List.cons_ne_nil b before)
      omega

lemma takeWhile_blanks (n : Nat) {s : List Char} (h : s.head? ≠ some ' ') :
    (List.replicate n ' ' ++ s).takeWhile (· = ' ') = List.replicate n ' ' := by
  rw [List.takeWhile_append_of_pos (by simp)]
  cases s with
  | nil => simp
  | cons c s =>
    have hc : c ≠ ' ' := by simpa using h
    simp [hc]

lemma dropWhile_blanks (n : Nat) {s : List Char} (h : s.head? ≠ some ' ') :
    (List.replicate n ' ' ++ s).dropWhile (· = ' ') = s := by
  have hs := List.takeWhile_append_dropWhile (p := (· = ' ')) (l := List.replicate n ' ' ++ s)
  rw [takeWhile_blanks n h] at hs
  exact List.append_cancel_left hs

lemma indentation_content (depth : Nat) {text : String} (h : text.toList.head? ≠ some ' ') :
    indentation (Line.written depth text).content = 2 * depth := by
  rw [indentation, Line.content, takeWhile_blanks _ h, List.length_replicate]

lemma opens_content (depth : Nat) (text : String) :
    Opens (Line.written depth (text ++ " \x7b")).content := by
  refine ⟨List.replicate (2 * depth) ' ' ++ text.toList, ?_⟩
  simp [Line.content]

lemma closes_content (depth : Nat) : Closes (Line.written depth "\x7d").content :=
  dropWhile_blanks _ (by decide)

lemma fits_opening {depth : Nat} {text : String} (hh : text.toList.head? ≠ some ' ')
    (ho : Opens (Line.written depth text).content) :
    Fits depth (Line.written depth text).content where
  indented _ := by
    rw [indentation_content depth hh, if_neg ho.not_closes]
    push_cast
    rfl
  ended _ := Or.inl ho

lemma fits_closing (depth : Nat) : Fits (depth + 1) (Line.written depth "\x7d").content where
  indented _ := by
    rw [indentation_content depth (by decide), if_pos (closes_content depth)]
    push_cast
    omega
  ended _ := Or.inr (Or.inl (closes_content depth))

lemma level_blank : Level depth [Line.blank.content] := by
  refine .single (by decide) ⟨?_, ?_⟩
  · exact fun h => absurd rfl h
  · exact fun h => absurd rfl h

lemma level_statement (depth : Nat) {text : String} (hh : text.toList.head? ≠ some ' ')
    (hl : text.toList.getLast? = some ';') : Level depth [(Line.written depth text).content] := by
  have hlast : (Line.written depth text).content.getLast? = some ';' := by
    rw [Line.content, List.getLast?_append, hl]
    rfl
  have ho : ¬ Opens (Line.written depth text).content := by
    intro ho
    exact absurd (ho.getLast?.symm.trans hlast) (by decide)
  have hc : ¬ Closes (Line.written depth text).content := by
    intro hc
    exact absurd (hc.getLast?.symm.trans hlast) (by decide)
  refine .single (by rw [change, if_neg ho, if_neg hc])
    ⟨fun _ => ?_, fun _ => Or.inr (Or.inr hlast)⟩
  rw [indentation_content depth hh, if_neg hc]
  push_cast
  rfl

lemma head?_of_word {s : String} (h : Word s) (rest : List Char) :
    (s.toList ++ rest).head? ≠ some ' ' := by
  obtain ⟨c, cs, hc⟩ := List.exists_cons_of_ne_nil (l := s.toList) (by simpa using h.1)
  have hb := h.2.1
  rw [hc, List.mem_cons, not_or] at hb
  rw [hc]
  simpa using Ne.symm hb.1

lemma getLast?_semicolon (s : String) : (s ++ ";").toList.getLast? = some ';' := by
  rw [String.toList_append, List.getLast?_append]
  rfl

lemma level_field {f : FieldLine} (h : Word f.type.text) (dialect : Dialect) (depth : Nat) :
    Level depth [(Line.written depth (f.text dialect)).content] := by
  refine level_statement depth ?_ (getLast?_semicolon _)
  have hl : (labelText dialect f.label).toList.head? ≠ some ' ' := by
    cases dialect <;> cases f.label <;> decide
  simp only [FieldLine.text, String.toList_append, List.append_assoc]
  rw [List.head?_append]
  cases hc : (labelText dialect f.label).toList.head? with
  | none => exact head?_of_word h _
  | some c => rwa [hc] at hl

lemma level_value {v : EnumValue} (h : Word v.name) (depth : Nat) :
    Level depth [(Line.written depth (valueText v)).content] := by
  refine level_statement depth ?_ (getLast?_semicolon _)
  simp only [valueText, String.toList_append, List.append_assoc]
  exact head?_of_word h _

lemma Block.nestedLines_eq (dialect : Dialect) (depth : Nat) (bs : List Block) :
    Block.nestedLines dialect depth bs = bs.flatMap (·.lines dialect depth) := by
  induction bs with
  | nil => rfl
  | cons b bs ih => rw [Block.nestedLines, ih, List.flatMap_cons]

lemma Block.flattenedLines_eq (dialect : Dialect) (depth : Nat) (bs : List Block) :
    Block.flattenedLines dialect depth bs =
      bs.flatMap (fun b => .blank :: b.lines dialect depth) := by
  induction bs with
  | nil => rfl
  | cons b bs ih => rw [Block.flattenedLines, ih, List.flatMap_cons]

lemma fits_block (b : Block) (depth : Nat) :
    Opens (Line.written depth b.openingText).content ∧
      Fits depth (Line.written depth b.openingText).content := by
  have hh (word name : String) (hw : word.toList.head? ≠ some ' ') (hne : word ≠ "") :
      (word ++ name ++ " \x7b").toList.head? ≠ some ' ' := by
    obtain ⟨c, cs, hc⟩ := List.exists_cons_of_ne_nil (l := word.toList) (by simpa using hne)
    rw [hc] at hw
    simpa [hc] using hw
  cases b with
  | message name =>
    have ho := opens_content depth ("message " ++ name)
    exact ⟨ho, fits_opening (hh "message " name (by decide) (by decide)) ho⟩
  | enumeration name =>
    have ho := opens_content depth ("enum " ++ name)
    exact ⟨ho, fits_opening (hh "enum " name (by decide) (by decide)) ho⟩

theorem exists_level {b : Block} (h : ∀ c ∈ b.all, c.Spelled Word) (dialect : Dialect)
    (depth : Nat) :
    ∃ inner, (b.lines dialect depth).map Line.content =
        (Line.written depth b.openingText).content :: inner ++
          [(Line.written depth "\x7d").content] ∧
      Level (depth + 1) inner := by
  induction b using Block.children_induction generalizing depth with
  | h b ih =>
    have hb := h b b.self_mem_all
    have child {c : Block} (hc : c ∈ b.children) (n : Nat) :
        Level n ((c.lines dialect n).map Line.content) := by
      obtain ⟨inner, he, hl⟩ :=
        ih c hc (fun d hd => h d (Block.mem_all.mpr (Or.inr ⟨c, hc, hd⟩))) n
      obtain ⟨ho, hf⟩ := fits_block c n
      rw [he]
      exact hl.wrap ho hf (closes_content n) (fits_closing n)
    cases b with
    | message name typeName fields nested flattened =>
      rw [Block.lines, Block.nestedLines_eq, Block.flattenedLines_eq]
      refine ⟨fields.map (fun f => (Line.written (depth + 1) (f.text dialect)).content) ++
        nested.flatMap (fun c => (c.lines dialect (depth + 1)).map Line.content) ++
        flattened.flatMap (fun c => Line.blank.content ::
          (c.lines dialect (depth + 1)).map Line.content), ?_, ?_⟩
      · simp [Block.openingText, List.map_flatMap]
      · have hfields : Level (depth + 1)
            (fields.map fun f => (Line.written (depth + 1) (f.text dialect)).content) :=
          .map fun f hf => level_field (hb.fields f hf).2 dialect _
        have hnested : Level (depth + 1)
            (nested.flatMap fun c => (c.lines dialect (depth + 1)).map Line.content) :=
          .flatMap fun c hc => child (List.mem_append_left _ hc) _
        have hflattened : Level (depth + 1) (flattened.flatMap fun c => Line.blank.content ::
            (c.lines dialect (depth + 1)).map Line.content) :=
          .flatMap fun c hc => level_blank.append (child (List.mem_append_right _ hc) _)
        exact (hfields.append hnested).append hflattened
    | enumeration name typeName values =>
      rw [Block.lines]
      refine ⟨values.map fun v => (Line.written (depth + 1) (valueText v)).content, ?_, ?_⟩
      · simp [Block.openingText]
      · exact .map fun v hv => level_value (hb.values v hv) _

theorem compile_wellLaid {files : List ProtoFile} {options : Options} {file : ProtoFile}
    {text : String} (hn : Identified files) (hf : file ∈ files)
    (h : compile (.ofFiles files) options file = .ok text) :
    ∃ m body, file.messages = [m] ∧
      Text.pieces '\n' text.toList =
        ("syntax = \"" ++ options.dialect.text ++ "\";").toList :: [] :: body ++ [[]] ∧
      WellLaid m.name body := by
  obtain ⟨source, root, hs⟩ := exists_isSchema h
  obtain ⟨placed, hr⟩ := hs.renders
  obtain ⟨hin, hname⟩ := hs.source_in hf
  have hwords {b : Block} (hb : b ∈ root.all) : b.Spelled Word :=
    words_of_mem_all hn hr (TypeIndex.ofFiles_from files) hin
      (hname ▸ (hn.spelled hin).name.word) hb
  obtain ⟨m, _, hm, rfl, _, rfl⟩ := hs
  obtain ⟨lines, owed, inner, placed₁, flattened, rfl, _⟩ := hr.of_message
  refine ⟨m, _, hm, pieces_schemaText _ fun b hb => ((hwords hb).mono fun _ => Word.oneLine).plain,
    ?_⟩
  rw [← content_lines]
  obtain ⟨between, he, hl⟩ := exists_level (fun b => hwords) options.dialect 0
  obtain ⟨ho, hfo⟩ := fits_block _ 0
  rw [he]
  refine hl.wellLaid ho hfo (closes_content 0) (fits_closing 0) ?_
  rfl

theorem compile_wellLaid_node :
    Identified nodeFiles ∧ ∃ file ∈ nodeFiles, ∃ text,
      compile (.ofFiles nodeFiles) {} file = .ok text ∧
      ∃ m body, file.messages = [m] ∧
        Text.pieces '\n' text.toList =
          ("syntax = \"" ++ ({} : Options).dialect.text ++ "\";").toList :: [] :: body ++ [[]] ∧
        WellLaid m.name body := by
  have hn : Identified nodeFiles :=
    ⟨by decide +kernel, by decide +kernel, by decide +kernel⟩
  exact ⟨hn, _, List.mem_cons_self, _, rfl, compile_wellLaid hn List.mem_cons_self rfl⟩

end TopicSchema.Schema
