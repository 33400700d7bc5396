namespace TopicSchema.Text

def pieces (separator : Char) : List Char → List (List Char)
  | [] => [[]]
  | c :: s =>
    if c = separator then [] :: pieces separator s
    else match pieces separator s with
      | [] => [[c]]
      | p :: ps => (c :: p) :: ps

def cutFirst (separator : Char) : List Char → Option (List Char × List Char)
  | [] => none
  | c :: s =>
    if c = separator then some ([], s)
    else (cutFirst separator s).map fun (a, b) => (c :: a, b)

def cutLast (separator : Char) : List Char → Option (List Char × List Char)
  | [] => none
  | c :: s => match cutLast separator s with
    | some (a, b) => some (c :: a, b)
    | none => if c = separator then some ([], s) else none

theorem pieces_ne_nil (separator : Char) (s : List Char) : pieces separator s ≠ [] := by
  cases s with
  | nil => simp [pieces]
  | cons c s =>
    rw [pieces]
    split
    · simp
    · split <;> simp

example : pieces '.' ".a..b".toList = ["", "a", "", "b"].map String.toList := by decide
example : cutFirst '=' "k=v=w".toList = some ("k".toList, "v=w".toList) := by decide

example : cutLast '.' ".a.b".toList = some (".a".toList, "b".toList) := by decide

end TopicSchema.Text
