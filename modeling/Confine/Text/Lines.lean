/-!
The lines of a text. A line ends with a line feed, of which a carriage return right before it is
part; what follows the last line feed is a line only if it is not empty, and it keeps a carriage
return at its end.
-/

namespace Confine.Text

/-- A line that a line feed has ended, from its characters in reverse: one carriage return at its
end belongs to the line feed. -/
def closeLine : List Char → List Char
  | '\r' :: rev => rev.reverse
  | rev => rev.reverse

/-- The lines of a text, after the lines `done` (latest first) and the characters `rev` (latest
first) of the line that is being read. -/
def linesFrom (done : List (List Char)) (rev : List Char) : List Char → List (List Char)
  | [] => (if rev.isEmpty then done else rev.reverse :: done).reverse
  | c :: rest =>
    if c = '\n' then linesFrom (closeLine rev :: done) [] rest
    else linesFrom done (c :: rev) rest

/-- The lines of a text, without their ends. -/
def lines (s : List Char) : List (List Char) := linesFrom [] [] s

end Confine.Text
