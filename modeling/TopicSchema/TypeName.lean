import TopicSchema.Text.Pieces
import TopicSchema.Text.UpperCase

/-! Fully-qualified type names such as `.shop.Order.Line`, with a leading dot. The scope of a name
is everything before its last dot; the scope of a file without a package is empty. -/

namespace TopicSchema.TypeName

open Text

def qualify (scope name : String) : String :=
  scope ++ "." ++ name

def parent (name : String) : String :=
  match cutLast '.' name.toList with
  | some (scope, _) => String.ofList scope
  | none => ""

def short (name : String) : String :=
  match cutLast '.' name.toList with
  | some (_, last) => String.ofList last
  | none => name

/-- Drops the dots and writes the character after each in upper case. `capital` says that a dot has
been passed and no character written since. -/
def camelCase (capital : Bool) : List Char → List Char
  | [] => []
  | c :: s =>
    if c = '.' then camelCase true s
    else if capital then upperCase c ++ camelCase false s
    else c :: camelCase false s

def flattened (name : String) : String :=
  String.ofList (camelCase false name.toList)

example : qualify ".shop" "Order" = ".shop.Order" := by decide
example : parent ".shop.Order" = ".shop" ∧ short ".shop.Order" = "Order" := by decide
example : parent "Order" = "" ∧ short "Order" = "Order" := by decide
example : flattened ".shop.order.Line" = "ShopOrderLine" := by decide
example : flattened "a..bC." = "aBC" := by decide

end TopicSchema.TypeName
