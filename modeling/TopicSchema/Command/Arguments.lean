import TopicSchema.Options
import TopicSchema.Text.Pieces

/-! The command line. Without arguments the program is a plugin; with `compile` it reads a
descriptor set from a file. -/

namespace TopicSchema.Command

open Text

structure CompileArguments where
  descriptorSet : String
  files : List String
  options : Options
  out : String
deriving DecidableEq, Repr

inductive Invocation where
  | plugin
  | compile (arguments : CompileArguments)
  | version
  | help
  | invalid
deriving DecidableEq, Repr

inductive Setting where
  | descriptorSet | file | dialect | encoding | out
deriving DecidableEq, Repr

inductive Token where
  | setting (setting : Setting) (value : Option String)
  | help
  | unknown
deriving DecidableEq, Repr

def longNames : List (String × Setting) :=
  [("--descriptor-set", .descriptorSet), ("--file", .file), ("--syntax", .dialect),
    ("--encoding", .encoding), ("--out", .out)]

def Token.ofLong (argument : String) : Token :=
  match cutFirst '=' argument.toList with
  | some (name, value) =>
    match longNames.lookup (String.ofList name) with
    | some s => .setting s (some (String.ofList value))
    | none => .unknown
  | none =>
    match longNames.lookup argument with
    | some s => .setting s none
    | none => if argument = "--help" then .help else .unknown

def Token.ofArgument (argument : String) : Token :=
  match argument.toList with
  | '-' :: '-' :: _ => ofLong argument
  | ['-', 'o'] => .setting .out none
  | '-' :: 'o' :: '=' :: value => .setting .out (some (String.ofList value))
  | '-' :: 'o' :: value => .setting .out (some (String.ofList value))
  | '-' :: 'h' :: _ => .help
  | _ => .unknown

def isValue (argument : String) : Bool :=
  argument.toList.head? != some '-' || argument == "-"

structure Given where
  descriptorSet : Option String := none
  files : List String := []
  dialect : Option Dialect := none
  encoding : Option Encoding := none
  out : Option String := none
deriving DecidableEq, Repr

namespace Given

def set? (g : Given) (value : String) : Setting → Option Given
  | .descriptorSet =>
    if g.descriptorSet.isSome ∨ value = "" then none else some { g with descriptorSet := value }
  | .file => some { g with files := g.files ++ [value] }
  | .dialect =>
    match g.dialect, Dialect.parse value with
    | none, .ok d => some { g with dialect := d }
    | _, _ => none
  | .encoding =>
    match g.encoding, Encoding.parse value with
    | none, .ok e => some { g with encoding := e }
    | _, _ => none
  | .out => if g.out.isSome ∨ value = "" then none else some { g with out := value }

def invocation (g : Given) : Invocation :=
  match g.descriptorSet, g.files, g.out with
  | some descriptorSet, file :: files, some out =>
    .compile ⟨descriptorSet, file :: files, ⟨g.dialect.getD .proto2, g.encoding.getD .binary⟩, out⟩
  | _, _, _ => .invalid

def read (g : Given) : List String → Invocation
  | [] => g.invocation
  | argument :: rest =>
    if argument = "--" then if rest = [] then g.invocation else .invalid
    else match Token.ofArgument argument, rest with
      | .setting s (some value), rest =>
        match g.set? value s with
        | some g => g.read rest
        | none => .invalid
      | .setting s none, value :: rest =>
        if isValue value then
          match g.set? value s with
          | some g => g.read rest
          | none => .invalid
        else .invalid
      | .setting _ none, [] => .invalid
      | .help, _ => .help
      | .unknown, _ => .invalid

end Given

def Invocation.ofArguments : List String → Invocation
  | [] => .plugin
  | first :: rest =>
    if first = "compile" then Given.read {} rest
    else if first = "--" ∧ rest = [] then .plugin
    else if first = "--version" then .version
    else if first = "--help" then .help
    else if first = "help" ∧ (rest = [] ∨ rest = ["compile"] ∨ rest = ["help"]) then .help
    else match first.toList with
      | '-' :: 'V' :: _ => .version
      | '-' :: 'h' :: _ => .help
      | _ => .invalid

example : Invocation.ofArguments ["compile", "--descriptor-set=s", "--file", "", "-oout"] =
    .compile ⟨"s", [""], {}, "out"⟩ := by decide +kernel
example : Invocation.ofArguments
    ["compile", "--descriptor-set", "s", "--file", "f", "--out", "--"] = .invalid := by
  decide +kernel

end TopicSchema.Command
