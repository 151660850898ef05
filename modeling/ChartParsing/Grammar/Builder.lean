import ChartParsing.Grammar.Basic
import ChartParsing.Grammar.Error
import ChartParsing.Grammar.Printer

/-!
# Building grammars

A grammar is built from declarations of symbols and rules, one after another.  A rule may
only name symbols that were declared before it.  A repeated declaration is refused or
ignored, as the declaration itself says.

**Algorithm.** `Builder.add` judges one declaration against what was declared before, and
the first declaration that is refused decides the error (`Grammar.ofDeclarations`).  The
start symbol is looked up last.
-/

namespace ChartParsing

/-- What a declaration says about repeating an earlier one. -/
inductive Repeats
  | refused
  | ignored
  deriving DecidableEq, Repr

/-- What is declared: a symbol, a rule over names of symbols, or a rule for a word. -/
inductive Item
  | nonterminal (name : String)
  | production (head : String) (body : List String)
  | lexical (head : String) (word : String)
  deriving DecidableEq, Repr

/-- One step of building a grammar. -/
structure Declaration where
  item : Item
  repeats : Repeats
  deriving DecidableEq, Repr

/-- The symbols and rules declared so far, in the order of their first declaration. -/
structure Builder where
  symbols : List String
  rules : List Rule
  deriving DecidableEq, Repr

namespace Builder

/-- Nothing declared. -/
def empty : Builder :=
  ⟨[], []⟩

/-- The symbol declared under a name. -/
def resolve (b : Builder) (name : String) : Except GrammarError Symbol :=
  match b.symbols.idxOf? name with
  | some index => .ok ⟨index⟩
  | none => .error (.missingSymbol name)

/-- Declares a symbol. -/
def addSymbol (b : Builder) (repeats : Repeats) (name : String) :
    Except GrammarError Builder :=
  if name ∈ b.symbols then
    match repeats with
    | .refused => .error (.duplicateSymbol name)
    | .ignored => .ok b
  else
    .ok { b with symbols := b.symbols ++ [name] }

/-- Declares a rule over declared symbols. -/
def addRule (b : Builder) (repeats : Repeats) (rule : Rule) :
    Except GrammarError Builder :=
  if rule ∈ b.rules then
    match repeats with
    | .refused => .error (.duplicateRule (rule.headName b.symbols) (rule.bodyTexts b.symbols))
    | .ignored => .ok b
  else
    .ok { b with rules := b.rules ++ [rule] }

/-- Follows one declaration.  Whether a body has two names is judged first, and then the
names are looked up in the order left, right, head. -/
def add (b : Builder) (d : Declaration) : Except GrammarError Builder :=
  match d.item with
  | .nonterminal name => b.addSymbol d.repeats name
  | .production head [left, right] => do
      let left ← b.resolve left
      let right ← b.resolve right
      let head ← b.resolve head
      b.addRule d.repeats (.binary ⟨head, left, right⟩)
  | .production head body => .error (.notNormalForm head body)
  | .lexical head word => do
      let head ← b.resolve head
      b.addRule d.repeats (.lexical head word)

/-- Follows declarations in order, up to the first that is refused. -/
def addAll (b : Builder) : List Declaration → Except GrammarError Builder
  | [] => .ok b
  | d :: rest => do (← b.add d).addAll rest

/-- The grammar of what was declared, with a start symbol of the given name. -/
def toGrammar (b : Builder) (start : String) : Except GrammarError Grammar := do
  let start ← b.resolve start
  if b.rules.isEmpty then .error .noRules
  else .ok (Grammar.ofRules b.symbols start b.rules)

end Builder

/-- The grammar that declarations describe, or the first error in them. -/
def Grammar.ofDeclarations (declarations : List Declaration) (start : String) :
    Except GrammarError Grammar := do
  (← Builder.empty.addAll declarations).toGrammar start

end ChartParsing
