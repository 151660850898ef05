import ChartParsing.Chart.Basic
import ChartParsing.Grammar.Printer

/-!
# Messages

What the library reports about its work, beside its answers: one message about a grammar
that was loaded, and messages about a chart that was filled, with one line for every cell.
-/

namespace ChartParsing

/-- How much detail a message gives. -/
inductive Level
  | info
  | debug
  | trace
  deriving DecidableEq, Repr

/-- The name of a level. -/
def Level.name : Level → String
  | info => "INFO"
  | debug => "DEBUG"
  | trace => "TRACE"

/-- One message. -/
structure Message where
  level : Level
  text : String
  deriving DecidableEq, Repr

/-- The message with its level in front. -/
def Message.line (m : Message) : String :=
  m.level.name ++ " " ++ m.text

/-- What is reported when a grammar was read from a text. -/
def Grammar.loadMessage (g : Grammar) : Message :=
  ⟨.debug, "Loaded grammar: " ++ toString g.rules.length ++ " rules, " ++
    toString g.symbols.length ++ " nonterminals, start " ++ g.name g.start⟩

namespace Chart

/-- The symbols of a cell with their counts. -/
def cellText (c : Chart) (cell : Cell) : String :=
  ", ".intercalate <|
    cell.symbols.map fun symbol =>
      c.grammar.name symbol ++ ": " ++ toString (cell.count symbol)

/-- How many tokens, derivations and entries a chart holds. -/
def summaryMessage (c : Chart) : Message :=
  ⟨.debug, "Parsed " ++ toString c.len ++ " tokens: " ++ toString (c.count?.getD 0) ++
    " derivations, " ++ toString c.entryCount ++ " chart entries"⟩

/-- What is reported when a chart was filled; nothing while it holds no sentence. -/
def fillMessages (c : Chart) : List Message :=
  if c.isFilled then
    c.summaryMessage ::
      c.contents.map fun (s, cell) => ⟨.trace, s.text ++ " " ++ c.cellText cell⟩
  else
    []

end Chart
end ChartParsing
