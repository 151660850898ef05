import ChartParsing.Grammar.Basic
import ChartParsing.Grammar.Error

/-!
# Writing grammars

A grammar is written as its start symbol and one rule a line.  A word stands in single
quotes if it holds none, else in double quotes if it holds none of those, and else in single
quotes with a backslash before each single quote and each backslash.
-/

namespace ChartParsing

/-- A word in the quotes that need the fewest backslashes. -/
def quoteWord (word : String) : String :=
  let cs := word.toList
  if !cs.contains '\'' then "'" ++ word ++ "'"
  else if !cs.contains '"' then "\"" ++ word ++ "\""
  else String.ofList (Text.Quoted.write '\'' cs)

/-- The name of the head of a rule, under the given names of symbols. -/
def Rule.headName (names : List String) : Rule → String
  | binary r => names.getD r.head.index ""
  | lexical head _ => names.getD head.index ""

/-- The written parts of the body of a rule, under the given names of symbols. -/
def Rule.bodyTexts (names : List String) : Rule → List String
  | binary r => [names.getD r.left.index "", names.getD r.right.index ""]
  | lexical _ word => [quoteWord word]

/-- A rule as it is written. -/
def Grammar.ruleText (g : Grammar) (rule : Rule) : String :=
  productionText (rule.headName g.symbols) (rule.bodyTexts g.symbols)

/-- All rules as they are written, in order. -/
def Grammar.ruleTexts (g : Grammar) : List String :=
  g.rules.map g.ruleText

/-- The grammar as a text. -/
def Grammar.text (g : Grammar) : String :=
  "%start " ++ g.name g.start ++ "\n" ++ String.join (g.ruleTexts.map (· ++ "\n"))

end ChartParsing
