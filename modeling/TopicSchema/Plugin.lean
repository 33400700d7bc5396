import TopicSchema.Batch
import TopicSchema.DescriptorSet
import TopicSchema.Options.Parameter
import TopicSchema.Wire.Writer

/-! Generation on behalf of a protobuf compiler, which hands over one record and takes one in
return. -/

namespace TopicSchema

structure GeneratorRequest where
  requested : List String := []
  parameter : Option String := none
  files : List FileDescriptor := []
deriving Repr, Inhabited

inductive GeneratorError where
  | wire (error : Wire.DecodeError)
  | definition (error : DescriptorError)
  | compile (error : CompileError)
deriving DecidableEq, Repr

def GeneratorError.message : GeneratorError → String
  | wire error => "failed to decode CodeGeneratorRequest: " ++ error.message
  | definition error => error.message
  | compile error => error.message

namespace GeneratorRequest

def add (r : GeneratorRequest) : Entry → GeneratorRequest
  | .text 1 s => { r with requested := r.requested ++ [s] }
  | .text 2 s => { r with parameter := s }
  | .record 15 entries => { r with files := r.files ++ [.ofEntries entries] }
  | _ => r

def ofEntries (entries : List Entry) : GeneratorRequest :=
  entries.foldl add {}

def entries (r : GeneratorRequest) : List Entry :=
  r.requested.map (.text 1) ++ r.parameter.toList.map (.text 2)
    ++ r.files.map fun f => .record 15 f.entries

theorem foldl_add_requested (r : GeneratorRequest) (names : List String) :
    (names.map (.text 1)).foldl add r = { r with requested := r.requested ++ names } := by
  induction names generalizing r with
  | nil => simp
  | cons name names ih => simp [add, ih]

theorem foldl_add_files (r : GeneratorRequest) (files : List FileDescriptor) :
    (files.map fun f => Entry.record 15 f.entries).foldl add r =
      { r with files := r.files ++ files } := by
  induction files generalizing r with
  | nil => simp
  | cons f files ih => simp [add, ih, FileDescriptor.ofEntries_entries]

theorem ofEntries_entries (r : GeneratorRequest) : ofEntries r.entries = r := by
  obtain ⟨requested, parameter, files⟩ := r
  cases parameter <;>
    simp [ofEntries, entries, List.foldl_append, foldl_add_requested, foldl_add_files, add]

def respond (r : GeneratorRequest) : Except GeneratorError Response :=
  match Options.ofParameter (r.parameter.getD "") with
  | .error e => .ok { error := some e.message }
  | .ok options => do
    let files ← (FileDescriptor.definitions r.files).mapError .definition
    (Request.assemble { files, requested := r.requested, options }).mapError .compile

end GeneratorRequest

namespace OutputFile

def add (f : OutputFile) : Entry → OutputFile
  | .text 1 s => { f with name := s }
  | .text 15 s => { f with content := s }
  | _ => f

def ofEntries (entries : List Entry) : OutputFile :=
  entries.foldl add ⟨"", ""⟩

def entries (f : OutputFile) : List Entry :=
  [.text 1 f.name, .text 15 f.content]

theorem ofEntries_entries (f : OutputFile) : ofEntries f.entries = f :=
  rfl

end OutputFile

namespace Response

def add (r : Response) : Entry → Response
  | .text 1 s => { r with error := s }
  | .record 15 entries => { r with files := r.files ++ [.ofEntries entries] }
  | _ => r

def ofEntries (entries : List Entry) : Response :=
  entries.foldl add {}

def entries (r : Response) : List Entry :=
  r.error.toList.map (.text 1) ++ r.files.map fun f => .record 15 f.entries

theorem foldl_add_files (r : Response) (files : List OutputFile) :
    (files.map fun f => Entry.record 15 f.entries).foldl add r =
      { r with files := r.files ++ files } := by
  induction files generalizing r with
  | nil => simp
  | cons f files ih => simp [add, ih, OutputFile.ofEntries_entries]

theorem ofEntries_entries (r : Response) : ofEntries r.entries = r := by
  obtain ⟨files, error⟩ := r
  cases error <;> simp [ofEntries, entries, foldl_add_files, add]

end Response

def generate (input : Wire.Bytes) : Except GeneratorError Wire.Bytes := do
  let entries ← (Wire.decode .generatorRequest input).mapError .wire
  let response ← (GeneratorRequest.ofEntries entries).respond
  .ok (Wire.encode response.entries)

end TopicSchema
