/-! Records as the list of their fields, in the order in which they were written. A field that holds
many values has an entry for each of them, and an absent field has none. -/

namespace TopicSchema

inductive Entry where
  | integer (number : Nat) (value : Int)
  | boolean (number : Nat) (value : Bool)
  | double (number : Nat) (value : List UInt8)
  | text (number : Nat) (value : String)
  | bytes (number : Nat) (value : List UInt8)
  | record (number : Nat) (entries : List Entry)
deriving Repr, Inhabited

namespace Entry

def record? (number : Nat) : Entry → Option (List Entry)
  | record n entries => if n = number then some entries else none
  | _ => none

end Entry

end TopicSchema
