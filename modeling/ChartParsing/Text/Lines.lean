/-!
# Lines of a text

A line ends with a new-line character, or with a carriage return and a new-line; neither
belongs to the line.  A last line without its new-line counts when it holds a character,
and a carriage return that no new-line follows belongs to its line.
-/

namespace ChartParsing
namespace Text

/-- The lines of a text, in order. -/
def lines : List Char → List (List Char)
  | [] => []
  | '\r' :: '\n' :: cs => [] :: lines cs
  | '\n' :: cs => [] :: lines cs
  | c :: cs =>
      match lines cs with
      | [] => [[c]]
      | line :: rest => (c :: line) :: rest

@[simp] theorem lines_nil : lines [] = [] := rfl

@[simp] theorem lines_newline
    (cs : List Char) :
    lines ('\n' :: cs) = [] :: lines cs := by
  simp [lines]

@[simp] theorem lines_return_newline
    (cs : List Char) :
    lines ('\r' :: '\n' :: cs) = [] :: lines cs := by
  simp [lines]

end Text
end ChartParsing
