import ChartParsing.Forest

/-!
# Listing trees, step by step

How the trees of a span come out of a chart is said here as two relations that call themselves
wherever an entry records a split.  Nothing in them makes a recursion end: that a relation holds
of some trees says that the recursion ends with them.

**Plain recursion.** `Chart.Lists` looks the cell of a span up.  It lists a leaf or nothing, or it
joins the trees of both parts of each recorded split, in order.

**Recursion with a memory.** `Chart.Recalls` takes what the memory has.  Else it does the same,
hands the memory through all of its calls, and keeps what it lists, also where there is no cell or
no entry.
-/

namespace ChartParsing
namespace Chart

/-- The entry of a symbol in the cell that a query stands for. -/
def entryAt? (c : Chart) (s : Span) (A : Symbol) : Option Entry :=
  (c.cell? s).bind (·.lookup A)

/-- The trees of a span from a symbol that is not recorded with splits: a leaf of a cell that holds
the symbol, and else nothing. -/
inductive AtOnce
    (c : Chart)
    (s : Span)
    (A : Symbol) :
    List Tree → Prop
  | missing
      (hcell : c.cell? s = none) :
      AtOnce c s A []
  | leaf
      {word : String} {symbols : List Symbol}
      (hcell : c.cell? s = some (.leaf word symbols))
      (hA : A ∈ symbols) :
      AtOnce c s A [.leaf (c.grammar.name A) word]
  | noLeaf
      {word : String} {symbols : List Symbol}
      (hcell : c.cell? s = some (.leaf word symbols))
      (hA : A ∉ symbols) :
      AtOnce c s A []
  | noEntry
      {entries : List (Symbol × Entry)}
      (hcell : c.cell? s = some (.internal entries))
      (hentry : entries.lookup A = none) :
      AtOnce c s A []

mutual

/-- Plain recursion ends with these trees of a span from a symbol. -/
inductive Lists
    (c : Chart) :
    Span → Symbol → List Tree → Prop
  | atOnce
      {s : Span} {A : Symbol} {trees : List Tree}
      (h : c.AtOnce s A trees) :
      Lists c s A trees
  | entry
      {s : Span} {A : Symbol} {entry : Entry} {trees : List Tree}
      (hentry : c.entryAt? s A = some entry)
      (hsplits : ListsSplits c (c.grammar.name A) entry.splits trees) :
      Lists c s A trees

/-- Plain recursion ends with these trees under a symbol for splits, in order. -/
inductive ListsSplits
    (c : Chart) :
    String → List Split → List Tree → Prop
  | nil
      {symbol : String} :
      ListsSplits c symbol [] []
  | cons
      {symbol : String} {split : Split} {splits : List Split}
      {lefts rights trees : List Tree}
      (hlefts : Lists c split.left split.leftSymbol lefts)
      (hrights : Lists c split.right split.rightSymbol rights)
      (hrest : ListsSplits c symbol splits trees) :
      ListsSplits c symbol (split :: splits) (joinTrees symbol lefts rights ++ trees)

end

mutual

/-- Starting with a memory, the recursion ends with these trees of a span from a symbol, and with
this memory. -/
inductive Recalls
    (c : Chart) :
    Memory → Span → Symbol → List Tree → Memory → Prop
  | known
      {memory : Memory} {s : Span} {A : Symbol} {trees : List Tree}
      (hknown : memory[(s, A)]? = some trees) :
      Recalls c memory s A trees memory
  | atOnce
      {memory : Memory} {s : Span} {A : Symbol} {trees : List Tree}
      (hfresh : memory[(s, A)]? = none)
      (h : c.AtOnce s A trees) :
      Recalls c memory s A trees (memory.insert (s, A) trees)
  | entry
      {memory memory' : Memory} {s : Span} {A : Symbol} {entry : Entry} {trees : List Tree}
      (hfresh : memory[(s, A)]? = none)
      (hentry : c.entryAt? s A = some entry)
      (hsplits : RecallsSplits c (c.grammar.name A) memory entry.splits trees memory') :
      Recalls c memory s A trees (memory'.insert (s, A) trees)

/-- The same under a symbol for splits, with the memory handed from one to the next. -/
inductive RecallsSplits
    (c : Chart) :
    String → Memory → List Split → List Tree → Memory → Prop
  | nil
      {symbol : String} {memory : Memory} :
      RecallsSplits c symbol memory [] [] memory
  | cons
      {symbol : String} {memory memoryLeft memoryRight memory' : Memory}
      {split : Split} {splits : List Split} {lefts rights trees : List Tree}
      (hlefts : Recalls c memory split.left split.leftSymbol lefts memoryLeft)
      (hrights : Recalls c memoryLeft split.right split.rightSymbol rights memoryRight)
      (hrest : RecallsSplits c symbol memoryRight splits trees memory') :
      RecallsSplits c symbol memory (split :: splits) (joinTrees symbol lefts rights ++ trees)
        memory'

end

end Chart
end ChartParsing
