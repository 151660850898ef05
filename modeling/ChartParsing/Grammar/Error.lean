import ChartParsing.Grammar.Token

/-!
# What can be wrong with a grammar

A grammar text can have a faulty line, and a grammar can be put together wrongly.  Each
cause is a constructor; its wording stands in `Fault.message` and `GrammarError.message`.
-/

namespace ChartParsing

/-- What is wrong with a line of a grammar text. -/
inductive Fault
  | emptyAlternative (head : String)
  | unexpected (token : Token)
  | startWithoutSymbol
  | unknownDirective (name : String)
  | continuationWithoutRule
  deriving DecidableEq, Repr

/-- The wording of a fault. -/
def Fault.message : Fault → String
  | emptyAlternative head => "empty alternative for " ++ head
  | unexpected token => "unexpected '" ++ token.describe ++ "'"
  | startWithoutSymbol => "expected '%start SYMBOL'"
  | unknownDirective name => "unknown directive %" ++ name
  | continuationWithoutRule => "'|' without a rule to continue"

/-- Why no grammar could be made. -/
inductive GrammarError
  | duplicateSymbol (name : String)
  | missingSymbol (name : String)
  | duplicateRule (head : String) (body : List String)
  /-- A production whose body is neither two symbols nor one word. -/
  | notNormalForm (head : String) (body : List String)
  | malformed (line : Nat) (fault : Fault)
  | noRules
  deriving DecidableEq, Repr

/-- A production as it is written. -/
def productionText (head : String) (body : List String) : String :=
  head ++ " -> " ++ " ".intercalate body

/-- The wording of an error. -/
def GrammarError.message : GrammarError → String
  | duplicateSymbol name => "Duplicate Symbol: " ++ name
  | missingSymbol name => "Missing Symbol: " ++ name
  | duplicateRule head body => "Duplicate Rule: " ++ productionText head body
  | notNormalForm head body => "Not in CNF: " ++ productionText head body
  | malformed line fault =>
      "Syntax error at line " ++ toString line ++ ": " ++ fault.message
  | noRules => "Grammar has no rules"

end ChartParsing
