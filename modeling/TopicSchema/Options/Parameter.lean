import TopicSchema.Options
import TopicSchema.Text.Blank
import TopicSchema.Text.Pieces

/-! Options given as one text, such as `schema-syntax=proto3,message-encoding=json`. The text may be
shared with other tools, so keys of theirs and bare words are passed over. -/

namespace TopicSchema.Options

open Text

def assignments (parameter : String) : List (String × String) :=
  (pieces ',' parameter.toList).filterMap fun item =>
    (cutFirst '=' (trim item)).map fun (key, value) =>
      (String.ofList (trim key), String.ofList (trim value))

def assign (options : Options) (key value : String) : Except OptionError Options :=
  if key = Dialect.key then (Dialect.parse value).map fun d => { options with dialect := d }
  else if key = Encoding.key then (Encoding.parse value).map fun e => { options with encoding := e }
  else .ok options

def assignAll (options : Options) : List (String × String) → Except OptionError Options
  | [] => .ok options
  | (key, value) :: rest =>
    match options.assign key value with
    | .ok options => options.assignAll rest
    | .error e => .error e

def ofParameter (parameter : String) : Except OptionError Options :=
  assignAll {} (assignments parameter)

example : ofParameter "paths=x, schema-syntax = proto3 ,verbose" = .ok { dialect := .proto3 } := rfl
example : ofParameter "schema-syntax=a=b" = .error (.dialect "a=b") := rfl

end TopicSchema.Options
