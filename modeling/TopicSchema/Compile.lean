import TopicSchema.Schema.Flattening
import TopicSchema.Schema.Layout

namespace TopicSchema

def compile (index : TypeIndex) (options : Options) (file : ProtoFile) :
    Except CompileError String :=
  match file.messages with
  | [m] => do
    let (root, _) ← Schema.rootBlock index options.encoding file.scope m
    .ok (Schema.schemaText options.dialect root)
  | messages => .error (.shape file.name messages.length)

end TopicSchema
