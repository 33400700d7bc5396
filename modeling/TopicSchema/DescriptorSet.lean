import TopicSchema.Descriptor.Definitions
import TopicSchema.Descriptor.Records
import TopicSchema.Json.Reader
import TopicSchema.Wire.Reader

namespace TopicSchema

inductive DescriptorSetError where
  | wire (error : Wire.DecodeError)
  | json (problem : Json.Problem)
  | definition (error : DescriptorError)
deriving DecidableEq, Repr

def Json.Problem.message : Json.Problem → String
  | malformed => "not JSON"
  | truncated => "unexpected end"
  | mismatched => "unexpected value"

def DescriptorSetError.message : DescriptorSetError → String
  | wire error => "failed to decode descriptor set: " ++ error.message
  | json problem => "failed to parse descriptor set JSON: " ++ problem.message
  | definition error => error.message

def FileDescriptor.ofSet (entries : List Entry) : List FileDescriptor :=
  (entries.filterMap (Entry.record? 1)).map .ofEntries

namespace DescriptorSet

def definitions (files : List FileDescriptor) : Except DescriptorSetError (List ProtoFile) :=
  (FileDescriptor.definitions files).mapError .definition

def ofBytes (input : Wire.Bytes) : Except DescriptorSetError (List ProtoFile) := do
  let entries ← (Wire.decode .fileDescriptorSet input).mapError .wire
  definitions (FileDescriptor.ofSet entries)

def ofJson (text : String) : Except DescriptorSetError (List ProtoFile) := do
  let entries ← (Json.decode text).mapError .json
  definitions (FileDescriptor.ofSet entries)

end DescriptorSet

end TopicSchema
