import ChartParsing.Chart.Cell

/-!
# The layout of a chart

The cells of a sentence of `n` tokens stand in one array, by the length of their spans and
then by their first position.  That is also the order in which they are filled, so a cell
comes after all cells of shorter spans.

**Addresses.** A span that lies in the sentence has a slot of its own (`Span.slot`).  The product
that is halved for it is at most twice the number of cells, so that no table there is room for
makes it overflow.
-/

namespace ChartParsing

/-- The spans of a sentence of `n` tokens, in the order of their slots. -/
def spans (n : Nat) : List Span :=
  (List.range n).flatMap fun shorter =>
    (List.range (n - shorter)).map fun start => ⟨start, shorter + 1⟩

/-- The place of a span among those of a sentence of `n` tokens. -/
def Span.slot (n : Nat) (s : Span) : Nat :=
  (s.len - 1) * (2 * n + 2 - s.len) / 2 + s.start

/-- The cell of a span that lies in the sentence, if it has been filled. -/
def cellAt? (n : Nat) (cells : Array Cell) (s : Span) : Option Cell :=
  if s.Within n then cells[s.slot n]? else none

end ChartParsing
