import TopicSchema.Batch
import TopicSchema.Command.Arguments
import TopicSchema.Command.Disk
import TopicSchema.Plugin

/-! Runs of the program on a disk. What is to be written is settled before the first file is
touched. -/

namespace TopicSchema.Command

structure Failure where
  message : String
  cause : Option String := none
deriving DecidableEq, Repr

def Failure.report (f : Failure) : String :=
  "Error: " ++ f.message ++ "\n" ++
    match f.cause with
    | some cause => "\nCaused by:\n    " ++ cause ++ "\n"
    | none => ""

def isJson (path : String) : Bool :=
  (Path.extension? path).map String.toLower == some "json"

def readFailure (path cause : String) : Failure :=
  let form := if isJson path then "json" else "set"
  ⟨"failed to read descriptor " ++ form ++ ": " ++ path, some cause⟩

def setFailure : DescriptorSetError → Failure
  | .wire e => ⟨(DescriptorSetError.wire e).message, some e.message⟩
  | .json p => ⟨(DescriptorSetError.json p).message, some p.message⟩
  | .definition e => ⟨e.message, none⟩

def definitions (path : String) (content : Except OsError (List UInt8)) :
    Except Failure (List ProtoFile) :=
  match content with
  | .error e => .error (readFailure path e.message)
  | .ok bytes =>
    if isJson path then
      match String.fromUTF8? bytes.toByteArray with
      | some text => (DescriptorSet.ofJson text).mapError setFailure
      | none => .error (readFailure path "stream did not contain valid UTF-8")
    else (DescriptorSet.ofBytes bytes).mapError setFailure

inductive Step where
  | directory (path : String)
  | file (path content : String)
  | line (text : String)
deriving DecidableEq, Repr

def stepsFor (out : String) (f : OutputFile) : List Step :=
  let path := Path.join out f.name
  (Path.parent? path).toList.map .directory ++ [.file path f.content, .line ("  → " ++ path)]

def Step.failure (e : OsError) : Step → Failure
  | directory path => ⟨"failed to create " ++ path, some e.message⟩
  | file path _ => ⟨"failed to write " ++ path, some e.message⟩
  | line _ => ⟨e.message, none⟩

def steps (arguments : CompileArguments) (content : Except OsError (List UInt8)) :
    Except Failure (List Step) := do
  let files ← definitions arguments.descriptorSet content
  let request : Request := { files, requested := arguments.files, options := arguments.options }
  match request.assemble with
  | .error e => .error ⟨e.message, none⟩
  | .ok response =>
    match response.error with
    | some message => .error ⟨message, none⟩
    | none => .ok (response.files.flatMap (stepsFor arguments.out))

def opening (arguments : CompileArguments) : String :=
  "Compiling Pub/Sub schemas from " ++ arguments.descriptorSet

def generatorFailure : GeneratorError → Failure
  | .wire e => ⟨(GeneratorError.wire e).message, some e.message⟩
  | e => ⟨e.message, none⟩

def versionLine : String :=
  "protoc-gen-pubsub-schema 0.6.0"

def usageLine : String :=
  "Usage: protoc-gen-pubsub-schema [compile --descriptor-set <PATH> --file <NAME>... "
    ++ "[--syntax <SYNTAX>] [--encoding <ENCODING>] --out <PATH>]"

structure Outcome where
  exitCode : Nat
  output : List UInt8
  errors : String
  disk : Disk
deriving Repr

def bytesOf (text : String) : List UInt8 :=
  text.toUTF8.data.toList

def lineBytes (text : String) : List UInt8 :=
  bytesOf (text ++ "\n")

def perform (disk : Disk) : Step → Disk × Except OsError (List UInt8)
  | .directory path =>
    let (disk, result) := disk.provideDirectories path
    (disk, result.map fun _ => [])
  | .file path content =>
    match disk.writeFile path (bytesOf content) with
    | .ok disk => (disk, .ok [])
    | .error e => (disk, .error e)
  | .line text => (disk, .ok (lineBytes text))

def performAll (disk : Disk) (printed : List UInt8) : List Step → Outcome
  | [] => ⟨0, printed, "", disk⟩
  | step :: rest =>
    match perform disk step with
    | (disk, .ok more) => performAll disk (printed ++ more) rest
    | (disk, .error e) => ⟨1, printed, (step.failure e).report, disk⟩

def compile (disk : Disk) (arguments : CompileArguments) : Outcome :=
  let printed := lineBytes (opening arguments)
  match steps arguments (disk.readFile arguments.descriptorSet) with
  | .ok steps => performAll disk printed steps
  | .error f => ⟨1, printed, f.report, disk⟩

def plugin (disk : Disk) (input : List UInt8) : Outcome :=
  match generate input with
  | .ok output => ⟨0, output, "", disk⟩
  | .error e => ⟨1, [], (generatorFailure e).report, disk⟩

def run (disk : Disk) (arguments : List String) (input : List UInt8) : Outcome :=
  match Invocation.ofArguments arguments with
  | .plugin => plugin disk input
  | .compile arguments => compile disk arguments
  | .version => ⟨0, lineBytes versionLine, "", disk⟩
  | .help => ⟨0, lineBytes usageLine, "", disk⟩
  | .invalid => ⟨2, [], usageLine ++ "\n", disk⟩

end TopicSchema.Command
