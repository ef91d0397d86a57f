/-!
# Splitting a text

The pieces of a text between the occurrences of a separator.
-/

namespace FrameLang.Text

/-- The pieces of a text between the occurrences of a separator; there is always at least
one piece. -/
def splitOn (separator : Char) : List Char → List (List Char)
  | [] => [[]]
  | c :: rest =>
      if c = separator then [] :: splitOn separator rest
      else
        match splitOn separator rest with
        | [] => [[c]]
        | piece :: pieces => (c :: piece) :: pieces

/-- The components of a dotted name; the empty text is one empty component. -/
def components (text : String) : List String :=
  (splitOn '.' text.toList).map String.ofList

end FrameLang.Text
