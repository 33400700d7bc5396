namespace TopicSchema

inductive CompileError where
  | shape (file : String) (found : Nat)
  | unknownFile (file : String)
  | unresolvedType (typeName : String)
  | unfinished
deriving DecidableEq, Repr

namespace CompileError

def isIntegrity : CompileError → Bool
  | unknownFile _ => true
  | unresolvedType _ => true
  | shape .. => false
  | unfinished => false

def message : CompileError → String
  | shape file found =>
    file ++ ": only one top-level type may be defined in a file (found " ++ toString found
      ++ " top-level messages); use nested types or imports "
      ++ "(see https://cloud.google.com/pubsub/docs/schemas#schema_types)"
  | unknownFile file => "requested file `" ++ file ++ "` was not supplied with the request"
  | unresolvedType typeName => "type `" ++ typeName ++ "` is not defined in any supplied file"
  | unfinished => "definitions are nested more deeply than there are types"

end CompileError

end TopicSchema
