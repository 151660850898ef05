/-!
# Grammars in Chomsky normal form

A grammar has named symbols, a start symbol, and rules of two shapes: a symbol becomes two
symbols, or a symbol becomes one word.  Symbols are handled by their place in the order in
which they were declared.

A chart asks a grammar two questions: which symbols become a given word, and which binary
rules begin with a given symbol on the right.  Both answers are tabulated once, when the
grammar is made from its rules (`Grammar.ofRules`).
-/

namespace ChartParsing

/-- A symbol of a grammar, by its place in the order of declaration. -/
structure Symbol where
  index : Nat
  deriving DecidableEq, Hashable, Repr

/-- A rule by which `head` becomes `left` followed by `right`. -/
structure BinaryRule where
  head : Symbol
  left : Symbol
  right : Symbol
  deriving DecidableEq, Repr

/-- A rule in Chomsky normal form. -/
inductive Rule
  | binary (rule : BinaryRule)
  | lexical (head : Symbol) (word : String)
  deriving DecidableEq, Repr

/-- The symbols that become each word, by the first rule of each word. -/
abbrev Lexicon := List (String × List Symbol)

/-- Adds a symbol at the end of those that become a word. -/
def Lexicon.add (word : String) (head : Symbol) : Lexicon → Lexicon
  | [] => [(word, [head])]
  | (other, heads) :: rest =>
      if other = word then (other, heads ++ [head]) :: rest
      else (other, heads) :: Lexicon.add word head rest

/-- The lexicon of a list of rules. -/
def Lexicon.ofRules (rules : List Rule) : Lexicon :=
  rules.foldl
    (fun lexicon rule =>
      match rule with
      | .lexical head word => Lexicon.add word head lexicon
      | .binary _ => lexicon)
    []

/-- The binary rules by the first symbol of their body, for so many symbols. -/
def tabulateByLeft (size : Nat) (rules : List Rule) : Array (List BinaryRule) :=
  rules.foldl
    (fun table rule =>
      match rule with
      | .binary r => table.modify r.left.index (· ++ [r])
      | .lexical _ _ => table)
    (Array.replicate size [])

/-- A grammar in Chomsky normal form, with the tables that a chart asks. -/
structure Grammar where
  /-- The names of the symbols, in the order of declaration. -/
  symbols : List String
  start : Symbol
  /-- The rules, in the order in which they were added. -/
  rules : List Rule
  lexicon : Lexicon
  byLeft : Array (List BinaryRule)
  deriving DecidableEq, Repr

namespace Grammar

/-- The grammar with the given rules. -/
def ofRules (symbols : List String) (start : Symbol) (rules : List Rule) : Grammar where
  symbols := symbols
  start := start
  rules := rules
  lexicon := Lexicon.ofRules rules
  byLeft := tabulateByLeft symbols.length rules

/-- Every symbol of the grammar, by ascending index. -/
def nonterminals (g : Grammar) : List Symbol :=
  (List.range g.symbols.length).map Symbol.mk

/-- The name of a symbol. -/
def name (g : Grammar) (symbol : Symbol) : String :=
  g.symbols.getD symbol.index ""

/-- The symbol of a given name. -/
def symbol? (g : Grammar) (name : String) : Option Symbol :=
  (g.symbols.idxOf? name).map Symbol.mk

/-- The symbols that become a word by one lexical rule, in the order of the rules. -/
def lexicalHeads (g : Grammar) (word : String) : List Symbol :=
  (g.lexicon.lookup word).getD []

/-- The binary rules whose body begins with a symbol, in the order of the rules. -/
def binaryRulesByLeft (g : Grammar) (left : Symbol) : List BinaryRule :=
  g.byLeft.getD left.index []

end Grammar
end ChartParsing
