namespace TopicSchema

inductive Dialect where
  | proto2 | proto3
deriving DecidableEq, Repr, Inhabited

inductive Encoding where
  | binary | json
deriving DecidableEq, Repr, Inhabited

structure Options where
  dialect : Dialect := .proto2
  encoding : Encoding := .binary
deriving DecidableEq, Repr, Inhabited

inductive OptionError where
  | dialect (value : String)
  | encoding (value : String)
deriving DecidableEq, Repr

namespace Dialect

def key : String := "schema-syntax"

def text : Dialect → String
  | proto2 => "proto2"
  | proto3 => "proto3"

def parse (s : String) : Except OptionError Dialect :=
  if s = "proto2" then .ok proto2
  else if s = "proto3" then .ok proto3
  else .error (.dialect s)

theorem parse_text (d : Dialect) : parse d.text = .ok d := by
  cases d <;> rfl

theorem eq_text_of_parse {s : String} {d : Dialect} (h : parse s = .ok d) : s = d.text := by
  unfold parse at h
  split at h
  · next hs => cases h; exact hs
  · split at h
    · next hs => cases h; exact hs
    · cases h

end Dialect

namespace Encoding

def key : String := "message-encoding"

def text : Encoding → String
  | binary => "binary"
  | json => "json"

def parse (s : String) : Except OptionError Encoding :=
  if s = "binary" then .ok binary
  else if s = "json" then .ok json
  else .error (.encoding s)

theorem parse_text (e : Encoding) : parse e.text = .ok e := by
  cases e <;> rfl

theorem eq_text_of_parse {s : String} {e : Encoding} (h : parse s = .ok e) : s = e.text := by
  unfold parse at h
  split at h
  · next hs => cases h; exact hs
  · split at h
    · next hs => cases h; exact hs
    · cases h

end Encoding

namespace OptionError

def key : OptionError → String
  | dialect _ => Dialect.key
  | encoding _ => Encoding.key

def value : OptionError → String
  | dialect v => v
  | encoding v => v

def expected : OptionError → String
  | dialect _ => "proto2, proto3"
  | encoding _ => "binary, json"

def message (e : OptionError) : String :=
  "invalid value `" ++ e.value ++ "` for parameter `" ++ e.key ++ "` (expected one of: "
    ++ e.expected ++ ")"

end OptionError

end TopicSchema
