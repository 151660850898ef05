import ChartParsing.Chart.Layout

/-!
# Filling a chart

**Input.** A grammar and a sentence.

**Algorithm.** Cells are filled from the shortest spans to the whole sentence.  The cell of
one token holds the symbols that become its word.  A longer span is cut in every place, and
for each cut the binary rules are found whose two symbols derive the two parts; the counts
of both parts multiply, and the ways to derive a symbol add up.

Only the start symbol is kept in the cell of the whole sentence, also when the sentence is
one token long.
-/

namespace ChartParsing

/-- One rule applied at one cut of a span. -/
structure Way where
  head : Symbol
  count : Nat
  split : Split
  deriving DecidableEq, Repr

namespace Grammar

/-- The symbols that are kept in the cell of a span: all, but only the start symbol for the
whole sentence. -/
def keeps (g : Grammar) (n : Nat) (s : Span) (symbol : Symbol) : Bool :=
  s.len != n || symbol == g.start

/-- The ways to derive a span that is cut after `k` tokens, from the cells of both parts. -/
def waysAt (g : Grammar) (s : Span) (k : Nat) (left right : Cell) : List Way :=
  left.symbols.flatMap fun leftSymbol =>
    match left.derivations? leftSymbol with
    | none => []
    | some m =>
        (g.binaryRulesByLeft leftSymbol).filterMap fun rule =>
          (right.derivations? rule.right).map fun m' =>
            ⟨rule.head, m * m', ⟨s.left k, leftSymbol, s.right k, rule.right⟩⟩

/-- The ways to derive a span, by the place of the cut. -/
def ways (g : Grammar) (cell? : Span → Option Cell) (s : Span) : List Way :=
  (List.range' 1 (s.len - 1)).flatMap fun k =>
    match cell? (s.left k), cell? (s.right k) with
    | some left, some right => g.waysAt s k left right
    | _, _ => []

/-- The entry that the ways to derive a symbol add up to. -/
def entryOf? (ways : List Way) (symbol : Symbol) : Option Entry :=
  match ways.filter (·.head == symbol) with
  | [] => none
  | own => some ⟨(own.map Way.count).foldr (· + ·) 0, own.map Way.split⟩

/-- The entries of the given symbols. -/
def entriesOf (ways : List Way) (symbols : List Symbol) : List (Symbol × Entry) :=
  symbols.filterMap fun symbol => (entryOf? ways symbol).map (symbol, ·)

/-- The cell of a span, from the cells of shorter spans. -/
def cellOf (g : Grammar) (tokens : List String) (cell? : Span → Option Cell) (s : Span) :
    Cell :=
  let keeps := g.keeps tokens.length s
  if s.len = 1 then
    let word := tokens.getD s.start ""
    .leaf word ((g.lexicalHeads word).filter keeps)
  else
    .internal (entriesOf (g.ways cell? s) (g.nonterminals.filter keeps))

/-- Fills the next cell after those filled so far. -/
def fillNext (g : Grammar) (tokens : List String) (cells : Array Cell) (s : Span) :
    Array Cell :=
  cells.push (g.cellOf tokens (cellAt? tokens.length cells) s)

/-- The cells of a sentence. -/
def fillCells (g : Grammar) (tokens : List String) : Array Cell :=
  (spans tokens.length).foldl (g.fillNext tokens) #[]

end Grammar
end ChartParsing
