import ChartParsing.Grammar.Basic
import ChartParsing.Span

/-!
# Cells of a chart

A cell says which symbols derive a span.  The cell of a single token holds the symbols that
become its word.  The cell of a longer span holds an entry for each of its symbols: in how
many ways the symbol derives the span, and how the span splits in each case.
-/

namespace ChartParsing

/-- One way to derive a span: a symbol over its left part and one over its right part. -/
structure Split where
  left : Span
  leftSymbol : Symbol
  right : Span
  rightSymbol : Symbol
  deriving DecidableEq, Repr

/-- The derivations of a span from one symbol: their number, and the ways to split. -/
structure Entry where
  count : Nat
  splits : List Split
  deriving DecidableEq, Repr

/-- What is known about a span. -/
inductive Cell
  /-- A single token, with the symbols that become it. -/
  | leaf (word : String) (symbols : List Symbol)
  /-- A longer span, with an entry for each symbol in ascending order. -/
  | internal (entries : List (Symbol × Entry))
  deriving DecidableEq, Repr

namespace Cell

/-- The symbols that derive the span. -/
def symbols : Cell → List Symbol
  | leaf _ symbols => symbols
  | internal entries => entries.map Prod.fst

/-- No symbol derives the span. -/
def isEmpty (cell : Cell) : Bool :=
  cell.symbols.isEmpty

/-- The entry of a symbol; single tokens have none. -/
def lookup : Cell → Symbol → Option Entry
  | leaf _ _, _ => none
  | internal entries, symbol => entries.lookup symbol

/-- The number of derivations from a symbol, if there is any.  A symbol becomes a single
token in one way. -/
def derivations? (cell : Cell) (symbol : Symbol) : Option Nat :=
  match cell with
  | leaf _ symbols => if symbol ∈ symbols then some 1 else none
  | internal _ => (cell.lookup symbol).map Entry.count

/-- The number of derivations of the span from a symbol. -/
def count (cell : Cell) (symbol : Symbol) : Nat :=
  (cell.derivations? symbol).getD 0

end Cell
end ChartParsing
