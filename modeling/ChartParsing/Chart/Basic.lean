import ChartParsing.Chart.Fill

/-!
# Charts

A chart holds a grammar and at most one sentence with its filled cells.  It can be filled
again and again; each time it forgets the sentence it held, and an empty sentence leaves it
empty.

**Queries.** The cells of the spans of the sentence are found by `cell?`.  A query from outside
may be any two words (`cell`); it breaks off if its end is no word.
-/

namespace ChartParsing

/-- Why a sentence could not be parsed, or its trees not listed.  To find no parse is not an
error. -/
inductive ParseError
  | emptyInput
  | treesBeforeParse
  deriving DecidableEq, Repr

/-- The wording of an error. -/
def ParseError.message : ParseError → String
  | emptyInput => "Cannot parse empty sentence"
  | treesBeforeParse => "Trees requested before the chart was filled"

/-- A table of the derivations of a sentence. -/
structure Chart where
  grammar : Grammar
  tokens : List String
  cells : Array Cell
  deriving DecidableEq, Repr

namespace Chart

/-- A chart without a sentence. -/
def empty (grammar : Grammar) : Chart :=
  ⟨grammar, [], #[]⟩

/-- Forgets the sentence. -/
def clear (c : Chart) : Chart :=
  empty c.grammar

/-- The number of tokens. -/
def len (c : Chart) : Nat :=
  c.tokens.length

/-- There is a sentence in the chart. -/
def isFilled (c : Chart) : Bool :=
  !c.cells.isEmpty

/-- The span of the whole sentence. -/
def root (c : Chart) : Span :=
  .whole c.len

/-- The cell of a span, if the span lies in the sentence. -/
def cell? (c : Chart) (s : Span) : Option Cell :=
  cellAt? c.len c.cells s

/-- The answer to a query, which may be any two words.  Unless the query is empty, its end is
compared with the end of the sentence before its slot is looked up. -/
def cell (c : Chart) (s : Span) : Except Abort (Option Cell) :=
  if s.len = 0 then .ok none
  else s.stop.map fun stop => if c.len < stop then none else c.cells[s.slot c.len]?

/-- The number of derivations of the whole sentence from the start symbol, once there is a
sentence. -/
def count? (c : Chart) : Option Nat :=
  (c.cell? c.root).map (·.count c.grammar.start)

/-- Puts a sentence into the chart and counts its derivations from the start symbol. -/
def fill (c : Chart) (tokens : List String) : Except ParseError Nat × Chart :=
  if tokens.isEmpty then
    (.error .emptyInput, c.clear)
  else
    let filled : Chart := ⟨c.grammar, tokens, c.grammar.fillCells tokens⟩
    (.ok (filled.count?.getD 0), filled)

/-- The spans of the sentence with their cells, in the order in which they are filled. -/
def contents (c : Chart) : List (Span × Cell) :=
  (spans c.len).filterMap fun s => (c.cell? s).map (s, ·)

/-- The number of symbols in all cells. -/
def entryCount (c : Chart) : Nat :=
  (c.cells.toList.flatMap (·.symbols)).length

end Chart
end ChartParsing
