import TopicSchema.Compile

namespace TopicSchema

structure Request where
  files : List ProtoFile := []
  requested : List String := []
  options : Options := {}
deriving Repr, Inhabited

structure OutputFile where
  name : String
  content : String
deriving DecidableEq, Repr, Inhabited

structure Response where
  files : List OutputFile := []
  error : Option String := none
deriving DecidableEq, Repr, Inhabited

def outputName (source : String) : String :=
  let s := source.toList
  let suffix := ".proto".toList
  let stem := if suffix.isSuffixOf s then s.take (s.length - suffix.length) else s
  String.ofList (stem ++ ".pps".toList)

namespace Request

def file? (request : Request) (name : String) : Option ProtoFile :=
  request.files.reverse.find? (·.name == name)

def schema (request : Request) (index : TypeIndex) (name : String) :
    Except CompileError OutputFile :=
  match request.file? name with
  | some file => do
    let content ← compile index request.options file
    .ok ⟨outputName name, content⟩
  | none => .error (.unknownFile name)

def schemas (request : Request) (index : TypeIndex) :
    List String → Except CompileError (List OutputFile)
  | [] => .ok []
  | name :: names => do
    let file ← request.schema index name
    let files ← request.schemas index names
    .ok (file :: files)

/-- A file that cannot be a schema is reported in the response; a request that contradicts itself
has no response. -/
def assemble (request : Request) : Except CompileError Response :=
  match request.schemas (TypeIndex.ofFiles request.files) request.requested with
  | .ok files => .ok { files }
  | .error e => if e.isIntegrity then .error e else .ok { error := some e.message }

end Request

example : outputName "a/b.proto" = "a/b.pps" ∧ outputName "b" = "b.pps" := by decide
example : outputName ".proto.proto" = ".proto.pps" := by decide

end TopicSchema
