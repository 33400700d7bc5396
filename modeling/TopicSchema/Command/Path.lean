import TopicSchema.Text.Pieces

/-! Paths as text. Empty parts and the part `.` say nothing, except at the front. -/

namespace TopicSchema.Path

open Text

def parts (path : String) : List String :=
  (pieces '/' path.toList).map String.ofList

def ofParts (parts : List String) : String :=
  "/".intercalate parts

def isAbsolute (path : String) : Bool :=
  path.toList.head? == some '/'

def join (base name : String) : String :=
  if isAbsolute name then name
  else if base = "" ∨ base.toList.getLast? = some '/' then base ++ name
  else base ++ "/" ++ name

def isVoid (part : String) : Bool :=
  part == "" || part == "."

def trimVoid (parts : List String) : List String :=
  (parts.reverse.dropWhile isVoid).reverse

def parent? (path : String) : Option String :=
  match parts path with
  | [] => none
  | first :: rest =>
    match trimVoid rest with
    | [] => if first = "" then none else some ""
    | rest =>
      let rest := trimVoid rest.dropLast
      if first = "" ∧ rest = [] then some "/" else some (ofParts (first :: rest))

def fileName? (path : String) : Option String :=
  let last := match parts path with
    | [] => none
    | first :: rest => (trimVoid rest).getLast?.or (if isVoid first then none else some first)
  last.filter (· != "..")

def extension? (path : String) : Option String :=
  match (fileName? path).bind fun name => cutLast '.' name.toList with
  | some (_ :: _, extension) => some (String.ofList extension)
  | _ => none

example : join "o" "a/b" = "o/a/b" ∧ join "o/" "a" = "o/a" ∧ join "o" "/a" = "/a" := by decide
example : parent? "o/x//y/./a.pps" = some "o/x//y" := by decide
example : parent? "./a" = some "." ∧ parent? "a" = some "" ∧ parent? "//a" = some "/" := by decide
example : extension? "d.x/set.JSON/" = some "JSON" ∧ extension? "d.x/.json" = none := by decide

end TopicSchema.Path
