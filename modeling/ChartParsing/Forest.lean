import Std.Data.HashMap
import ChartParsing.Chart.Basic
import ChartParsing.Tree

/-!
# Forests

A forest lists the trees that a filled chart records.  The trees of a symbol over a span are
listed once and remembered, so that every larger tree that reaches them shares them.

**Order.** Trees come in the order of the recorded splits; for one split, every left tree in
order is combined with every right tree in order.

**Two readings.** `Chart.treesAt` lists trees by plain recursion on the length of the span,
and `Chart.recallTrees` does the same with a memory of earlier answers.
-/

namespace ChartParsing

/-- Every left tree under a symbol with every right tree. -/
def joinTrees (symbol : String) (lefts rights : List Tree) : List Tree :=
  lefts.flatMap fun left => rights.map fun right => .node symbol left right

/-- Both parts of a split are shorter than the span. -/
def Split.Shortens (split : Split) (s : Span) : Prop :=
  split.left.len < s.len ∧ split.right.len < s.len

instance (split : Split) (s : Span) : Decidable (split.Shortens s) :=
  inferInstanceAs (Decidable (split.left.len < s.len ∧ split.right.len < s.len))

namespace Chart

/-- The trees of a span of the sentence from a symbol, by plain recursion. -/
def treesAt (c : Chart) (s : Span) (symbol : Symbol) : List Tree :=
  match cellAt? c.len c.cells s with
  | none => []
  | some (.leaf word symbols) =>
      if symbol ∈ symbols then [.leaf (c.grammar.name symbol) word] else []
  | some (.internal entries) =>
      match entries.lookup symbol with
      | none => []
      | some entry =>
          entry.splits.flatMap fun split =>
            if _h : split.Shortens s then
              joinTrees (c.grammar.name symbol)
                (c.treesAt split.left split.leftSymbol)
                (c.treesAt split.right split.rightSymbol)
            else
              []
termination_by s.len
decreasing_by
  · exact _h.1
  · exact _h.2

end Chart

/-- The trees listed so far, by span and symbol. -/
abbrev Memory := Std.HashMap (Span × Symbol) (List Tree)

/-- The trees of a span of the sentence from a symbol, taken from the memory where it has
them, and the memory that now holds them. -/
def Chart.recallTrees (c : Chart) (s : Span) (symbol : Symbol) (memory : Memory) :
    List Tree × Memory :=
  match memory[(s, symbol)]? with
  | some trees => (trees, memory)
  | none =>
      let (trees, memory) : List Tree × Memory :=
        match cellAt? c.len c.cells s with
        | none => ([], memory)
        | some (.leaf word symbols) =>
            (if symbol ∈ symbols then [.leaf (c.grammar.name symbol) word] else [], memory)
        | some (.internal entries) =>
            match entries.lookup symbol with
            | none => ([], memory)
            | some entry =>
                entry.splits.foldl
                  (fun (acc : List Tree × Memory) split =>
                    if _h : split.Shortens s then
                      let lefts := c.recallTrees split.left split.leftSymbol acc.2
                      let rights := c.recallTrees split.right split.rightSymbol lefts.2
                      (acc.1 ++ joinTrees (c.grammar.name symbol) lefts.1 rights.1, rights.2)
                    else
                      acc)
                  ([], memory)
      (trees, memory.insert (s, symbol) trees)
termination_by s.len
decreasing_by
  · exact _h.1
  · exact _h.2

/-- The trees of a filled chart, with those listed so far. -/
structure Forest where
  chart : Chart
  memory : Memory

namespace Forest

/-- A forest of a chart, which must hold a sentence. -/
def ofChart (chart : Chart) : Except ParseError Forest :=
  if chart.isFilled then .ok ⟨chart, ∅⟩ else .error .treesBeforeParse

/-- The trees of a span from a symbol, which are remembered. -/
def treesOf (f : Forest) (s : Span) (symbol : Symbol) : List Tree × Forest :=
  let answer := f.chart.recallTrees s symbol f.memory
  (answer.1, { f with memory := answer.2 })

/-- The answer to a query, which may be any two words, for a symbol.  A query that the chart
does not answer breaks off, and leaves the forest as it was.  So no such query is ever
remembered, and the chart can be asked before the memory. -/
def collect (f : Forest) (s : Span) (symbol : Symbol) : Except Abort (List Tree) × Forest :=
  match f.chart.cell s with
  | .error abort => (.error abort, f)
  | .ok _ =>
      let answer := f.treesOf s symbol
      (.ok answer.1, answer.2)

/-- The trees of the whole sentence from the start symbol. -/
def trees (f : Forest) : List Tree × Forest :=
  f.treesOf f.chart.root f.chart.grammar.start

end Forest
end ChartParsing
