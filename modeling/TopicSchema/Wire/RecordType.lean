/-! The record types of descriptors and of the generator protocol: the number, name and content of
each field. -/

namespace TopicSchema.Wire

inductive RecordType where
  | generatorRequest
  | version
  | fileDescriptorSet
  | fileDescriptor
  | descriptor
  | extensionRange
  | reservedRange
  | extensionRangeOptions
  | fieldDescriptor
  | oneofDescriptor
  | enumDescriptor
  | enumReservedRange
  | enumValueDescriptor
  | serviceDescriptor
  | methodDescriptor
  | fileOptions
  | messageOptions
  | fieldOptions
  | oneofOptions
  | enumOptions
  | enumValueOptions
  | serviceOptions
  | methodOptions
  | uninterpretedOption
  | namePart
  | sourceCodeInfo
  | location
  | generatorResponse
  | generatedFile
deriving DecidableEq, Repr

inductive Content where
  | int32 | uint64 | int64 | bool | double
  | int32s
  | text | bytes
  | record (type : RecordType)
deriving DecidableEq, Repr

structure FieldRule where
  number : Nat
  name : String
  content : Content
deriving DecidableEq, Repr

namespace RecordType

def name : RecordType → String
  | .generatorRequest => "CodeGeneratorRequest"
  | .version => "Version"
  | .fileDescriptorSet => "FileDescriptorSet"
  | .fileDescriptor => "FileDescriptorProto"
  | .descriptor => "DescriptorProto"
  | .extensionRange => "ExtensionRange"
  | .reservedRange => "ReservedRange"
  | .extensionRangeOptions => "ExtensionRangeOptions"
  | .fieldDescriptor => "FieldDescriptorProto"
  | .oneofDescriptor => "OneofDescriptorProto"
  | .enumDescriptor => "EnumDescriptorProto"
  | .enumReservedRange => "EnumReservedRange"
  | .enumValueDescriptor => "EnumValueDescriptorProto"
  | .serviceDescriptor => "ServiceDescriptorProto"
  | .methodDescriptor => "MethodDescriptorProto"
  | .fileOptions => "FileOptions"
  | .messageOptions => "MessageOptions"
  | .fieldOptions => "FieldOptions"
  | .oneofOptions => "OneofOptions"
  | .enumOptions => "EnumOptions"
  | .enumValueOptions => "EnumValueOptions"
  | .serviceOptions => "ServiceOptions"
  | .methodOptions => "MethodOptions"
  | .uninterpretedOption => "UninterpretedOption"
  | .namePart => "NamePart"
  | .sourceCodeInfo => "SourceCodeInfo"
  | .location => "Location"
  | .generatorResponse => "CodeGeneratorResponse"
  | .generatedFile => "File"

def uninterpreted : FieldRule :=
  ⟨999, "uninterpreted_option", .record .uninterpretedOption⟩

def fields : RecordType → List FieldRule
  | .generatorRequest =>
    [⟨1, "file_to_generate", .text⟩, ⟨2, "parameter", .text⟩,
      ⟨3, "compiler_version", .record .version⟩, ⟨15, "proto_file", .record .fileDescriptor⟩]
  | .version =>
    [⟨1, "major", .int32⟩, ⟨2, "minor", .int32⟩, ⟨3, "patch", .int32⟩, ⟨4, "suffix", .text⟩]
  | .fileDescriptorSet =>
    [⟨1, "file", .record .fileDescriptor⟩]
  | .fileDescriptor =>
    [⟨1, "name", .text⟩, ⟨2, "package", .text⟩, ⟨3, "dependency", .text⟩,
      ⟨4, "message_type", .record .descriptor⟩, ⟨5, "enum_type", .record .enumDescriptor⟩,
      ⟨6, "service", .record .serviceDescriptor⟩, ⟨7, "extension", .record .fieldDescriptor⟩,
      ⟨8, "options", .record .fileOptions⟩, ⟨9, "source_code_info", .record .sourceCodeInfo⟩,
      ⟨10, "public_dependency", .int32s⟩, ⟨11, "weak_dependency", .int32s⟩, ⟨12, "syntax", .text⟩]
  | .descriptor =>
    [⟨1, "name", .text⟩, ⟨2, "field", .record .fieldDescriptor⟩,
      ⟨3, "nested_type", .record .descriptor⟩, ⟨4, "enum_type", .record .enumDescriptor⟩,
      ⟨5, "extension_range", .record .extensionRange⟩, ⟨6, "extension", .record .fieldDescriptor⟩,
      ⟨7, "options", .record .messageOptions⟩, ⟨8, "oneof_decl", .record .oneofDescriptor⟩,
      ⟨9, "reserved_range", .record .reservedRange⟩, ⟨10, "reserved_name", .text⟩]
  | .extensionRange =>
    [⟨1, "start", .int32⟩, ⟨2, "end", .int32⟩, ⟨3, "options", .record .extensionRangeOptions⟩]
  | .reservedRange =>
    [⟨1, "start", .int32⟩, ⟨2, "end", .int32⟩]
  | .extensionRangeOptions =>
    [uninterpreted]
  | .fieldDescriptor =>
    [⟨1, "name", .text⟩, ⟨2, "extendee", .text⟩, ⟨3, "number", .int32⟩, ⟨4, "label", .int32⟩,
      ⟨5, "r#type", .int32⟩, ⟨6, "type_name", .text⟩, ⟨7, "default_value", .text⟩,
      ⟨8, "options", .record .fieldOptions⟩, ⟨9, "oneof_index", .int32⟩, ⟨10, "json_name", .text⟩,
      ⟨17, "proto3_optional", .bool⟩]
  | .oneofDescriptor =>
    [⟨1, "name", .text⟩, ⟨2, "options", .record .oneofOptions⟩]
  | .enumDescriptor =>
    [⟨1, "name", .text⟩, ⟨2, "value", .record .enumValueDescriptor⟩,
      ⟨3, "options", .record .enumOptions⟩, ⟨4, "reserved_range", .record .enumReservedRange⟩,
      ⟨5, "reserved_name", .text⟩]
  | .enumReservedRange =>
    [⟨1, "start", .int32⟩, ⟨2, "end", .int32⟩]
  | .enumValueDescriptor =>
    [⟨1, "name", .text⟩, ⟨2, "number", .int32⟩, ⟨3, "options", .record .enumValueOptions⟩]
  | .serviceDescriptor =>
    [⟨1, "name", .text⟩, ⟨2, "method", .record .methodDescriptor⟩,
      ⟨3, "options", .record .serviceOptions⟩]
  | .methodDescriptor =>
    [⟨1, "name", .text⟩, ⟨2, "input_type", .text⟩, ⟨3, "output_type", .text⟩,
      ⟨4, "options", .record .methodOptions⟩, ⟨5, "client_streaming", .bool⟩,
      ⟨6, "server_streaming", .bool⟩]
  | .fileOptions =>
    [⟨1, "java_package", .text⟩, ⟨8, "java_outer_classname", .text⟩, ⟨9, "optimize_for", .int32⟩,
      ⟨10, "java_multiple_files", .bool⟩, ⟨11, "go_package", .text⟩,
      ⟨16, "cc_generic_services", .bool⟩, ⟨17, "java_generic_services", .bool⟩,
      ⟨18, "py_generic_services", .bool⟩, ⟨20, "java_generate_equals_and_hash", .bool⟩,
      ⟨23, "deprecated", .bool⟩, ⟨27, "java_string_check_utf8", .bool⟩,
      ⟨31, "cc_enable_arenas", .bool⟩, ⟨36, "objc_class_prefix", .text⟩,
      ⟨37, "csharp_namespace", .text⟩, ⟨39, "swift_prefix", .text⟩,
      ⟨40, "php_class_prefix", .text⟩, ⟨41, "php_namespace", .text⟩,
      ⟨42, "php_generic_services", .bool⟩, ⟨44, "php_metadata_namespace", .text⟩,
      ⟨45, "ruby_package", .text⟩, uninterpreted]
  | .messageOptions =>
    [⟨1, "message_set_wire_format", .bool⟩, ⟨2, "no_standard_descriptor_accessor", .bool⟩,
      ⟨3, "deprecated", .bool⟩, ⟨7, "map_entry", .bool⟩, uninterpreted]
  | .fieldOptions =>
    [⟨1, "ctype", .int32⟩, ⟨2, "packed", .bool⟩, ⟨3, "deprecated", .bool⟩, ⟨5, "lazy", .bool⟩,
      ⟨6, "jstype", .int32⟩, ⟨10, "weak", .bool⟩, uninterpreted]
  | .oneofOptions =>
    [uninterpreted]
  | .enumOptions =>
    [⟨2, "allow_alias", .bool⟩, ⟨3, "deprecated", .bool⟩, uninterpreted]
  | .enumValueOptions =>
    [⟨1, "deprecated", .bool⟩, uninterpreted]
  | .serviceOptions =>
    [⟨33, "deprecated", .bool⟩, uninterpreted]
  | .methodOptions =>
    [⟨33, "deprecated", .bool⟩, ⟨34, "idempotency_level", .int32⟩, uninterpreted]
  | .uninterpretedOption =>
    [⟨2, "name", .record .namePart⟩, ⟨3, "identifier_value", .text⟩,
      ⟨4, "positive_int_value", .uint64⟩, ⟨5, "negative_int_value", .int64⟩,
      ⟨6, "double_value", .double⟩, ⟨7, "string_value", .bytes⟩, ⟨8, "aggregate_value", .text⟩]
  | .namePart =>
    [⟨1, "name_part", .text⟩, ⟨2, "is_extension", .bool⟩]
  | .sourceCodeInfo =>
    [⟨1, "location", .record .location⟩]
  | .location =>
    [⟨1, "path", .int32s⟩, ⟨2, "span", .int32s⟩, ⟨3, "leading_comments", .text⟩,
      ⟨4, "trailing_comments", .text⟩, ⟨6, "leading_detached_comments", .text⟩]
  | .generatorResponse =>
    [⟨1, "error", .text⟩, ⟨15, "file", .record .generatedFile⟩]
  | .generatedFile =>
    [⟨1, "name", .text⟩, ⟨15, "content", .text⟩]

def field? (type : RecordType) (number : Nat) : Option FieldRule :=
  type.fields.find? (·.number == number)

end RecordType

end TopicSchema.Wire
