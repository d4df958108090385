/-!
# Text in pieces

Cutting a text at a separator, taking a known beginning off it and reading digits. `pieces` is the one
cut behind target triples and argument strings: it keeps empty pieces, so `n` separators give `n + 1`
pieces.
-/
namespace RecordLayout.Text

/-- The pieces between the separators, empty ones included. -/
def pieces (sep : Char) : List Char → List (List Char)
  | [] => [[]]
  | c :: cs =>
    match pieces sep cs with
    | [] => [[c]]
    | p :: ps => if c = sep then [] :: p :: ps else (c :: p) :: ps

/-- There is always a first piece, be it empty. -/
theorem pieces_ne_nil (sep : Char) (cs : List Char) : pieces sep cs ≠ [] := by
  cases cs with
  | nil => simp [pieces]
  | cons c cs =>
    simp only [pieces]
    split
    · simp
    · split <;> simp

/-- What follows `start` in `s`, if `s` starts with it. -/
def after? (start s : String) : Option String :=
  (start.toList.isPrefixOf? s.toList).map String.ofList

def startsWith (start s : String) : Bool := start.toList.isPrefixOf s.toList

/-- The number that decimal digits write. -/
def decimalValue (ds : List Char) : Nat := ds.foldl (fun n d => n * 10 + (d.toNat - 48)) 0

end RecordLayout.Text
