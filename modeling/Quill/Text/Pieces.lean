/-! # Pieces of texts

The pieces of a text between the occurrences of a separating character.  There is one piece more
than there are separators, and pieces may be empty. -/

namespace Quill.Text

/-- The pieces of a list of characters, after those already found; `piece` holds the characters
since the last separator, the last first. -/
def splitChars (separator : Char) (done : List String) (piece : List Char) :
    List Char → List String
  | [] => (String.ofList piece.reverse :: done).reverse
  | c :: rest =>
    if c = separator then splitChars separator (String.ofList piece.reverse :: done) [] rest
    else splitChars separator done (c :: piece) rest

def pieces (separator : Char) (s : String) : List String := splitChars separator [] [] s.toList

theorem length_splitChars (separator : Char) (done : List String) (piece cs : List Char) :
    (splitChars separator done piece cs).length = done.length + cs.count separator + 1 := by
  induction cs generalizing done piece with
  | nil => simp [splitChars]
  | cons c cs ih =>
    rw [splitChars]
    split
    · rename_i h
      simp [ih, h]
      omega
    · rename_i h
      simp [ih, h]

@[simp]
theorem length_pieces (separator : Char) (s : String) :
    (pieces separator s).length = s.toList.count separator + 1 := by
  simp [pieces, length_splitChars]

end Quill.Text
