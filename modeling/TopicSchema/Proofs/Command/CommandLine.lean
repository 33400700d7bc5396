import TopicSchema.Command.Arguments
import TopicSchema.Proofs.Pieces

namespace TopicSchema

namespace Command

def attached (name value : String) : String :=
  name ++ "=" ++ value

def CompileArguments.commandLine (a : CompileArguments) : List String :=
  "compile" :: attached "--descriptor-set" a.descriptorSet ::
    (a.files.map (attached "--file") ++
      [attached "--syntax" a.options.dialect.text, attached "--encoding" a.options.encoding.text,
        attached "--out" a.out])

lemma toList_attached (name value : String) :
    (attached name value).toList = name.toList ++ '=' :: value.toList := by
  simp [attached]

lemma ofArgument_attached {name : String} {s : Setting} (hs : (name, s) ∈ longNames)
    (value : String) : Token.ofArgument (attached name value) = .setting s (some value) := by
  have hn : '=' ∉ name.toList ∧ longNames.lookup name = some s ∧
      ∃ rest, name.toList = '-' :: '-' :: rest := by
    simp only [longNames, List.mem_cons, Prod.mk.injEq, List.not_mem_nil, or_false] at hs
    rcases hs with ⟨rfl, rfl⟩ | ⟨rfl, rfl⟩ | ⟨rfl, rfl⟩ | ⟨rfl, rfl⟩ | ⟨rfl, rfl⟩ <;>
      exact ⟨by decide, by decide, _, rfl⟩
  obtain ⟨he, hl, rest, hr⟩ := hn
  have ha : Token.ofArgument (attached name value) = Token.ofLong (attached name value) := by
    rw [Token.ofArgument, toList_attached, hr]
    rfl
  rw [ha, Token.ofLong, toList_attached, Text.cutFirst_append he]
  simp [hl]

variable {g g' : Given} {name value : String} {s : Setting}

lemma read_attached (hs : (name, s) ∈ longNames) (hg : g.set? value s = some g')
    (rest : List String) : g.read (attached name value :: rest) = g'.read rest := by
  have hd : attached name value ≠ "--" := by
    intro h
    have he := congrArg String.toList h
    rw [toList_attached] at he
    have hm : '=' ∈ "--".toList := he ▸ by simp
    simp at hm
  rw [Given.read.eq_def]
  simp only [if_neg hd, ofArgument_attached hs value, hg]

lemma read_files (g : Given) (names rest : List String) :
    g.read (names.map (attached "--file") ++ rest) =
      { g with files := g.files ++ names }.read rest := by
  induction names generalizing g with
  | nil => simp
  | cons n names ih =>
    have hg : g.set? n .file = some { g with files := g.files ++ [n] } := rfl
    rw [List.map_cons, List.cons_append, read_attached (by decide) hg, ih]
    simp

theorem ofArguments_commandLine (a : CompileArguments) (hd : a.descriptorSet ≠ "")
    (hf : a.files ≠ []) (ho : a.out ≠ "") : Invocation.ofArguments a.commandLine = .compile a := by
  obtain ⟨set, files, ⟨dialect, encoding⟩, out⟩ := a
  obtain ⟨f, files, rfl⟩ := List.exists_cons_of_ne_nil hf
  have h₁ : Given.set? {} set .descriptorSet = some ⟨some set, [], none, none, none⟩ := by
    simpa [Given.set?] using hd
  have h₂ : Given.set? ⟨some set, f :: files, none, none, none⟩ dialect.text .dialect =
      some ⟨some set, f :: files, some dialect, none, none⟩ := by
    simp [Given.set?, Dialect.parse_text]
  have h₃ : Given.set? ⟨some set, f :: files, some dialect, none, none⟩ encoding.text .encoding =
      some ⟨some set, f :: files, some dialect, some encoding, none⟩ := by
    simp [Given.set?, Encoding.parse_text]
  have h₄ : Given.set? ⟨some set, f :: files, some dialect, some encoding, none⟩ out .out =
      some ⟨some set, f :: files, some dialect, some encoding, some out⟩ := by
    simpa [Given.set?] using ho
  rw [CompileArguments.commandLine, Invocation.ofArguments, if_pos rfl,
    read_attached (by decide) h₁, read_files, List.nil_append, read_attached (by decide) h₂,
    read_attached (by decide) h₃, read_attached (by decide) h₄]
  rfl

end Command

end TopicSchema
