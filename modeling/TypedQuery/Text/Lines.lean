/-!
Lines of a text.  A line ends at a line feed, which takes a carriage return before it along; what
follows the last line feed is a line only when it is not empty.
-/

namespace TypedQuery
namespace Text

/-- Splits into lines; `done` holds the current line, reversed. -/
def linesFrom (done : List Char) : List Char → List (List Char)
  | [] => if done.isEmpty then [] else [done.reverse]
  | '\n' :: rest =>
    (match done with
      | '\r' :: line => line.reverse
      | line => line.reverse) :: linesFrom [] rest
  | c :: rest => linesFrom (c :: done) rest

def lines (cs : List Char) : List (List Char) := linesFrom [] cs

end Text
end TypedQuery
