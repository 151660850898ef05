import Std.Data.HashMap
import Std.Data.HashSet
import ChartParsing.Grammar.Draft

/-!
# Registers of names and rules

A register is a draft that never searches its lists.  It finds the symbol of a name in a table,
and keeps the rules declared so far as a set.  Its grammar takes the table of names along, beside
the two tables that a chart asks.

**Algorithm.** `Register.addSymbol` enters a new name in the table with the number of names before
it, and `Register.addRule` enters a new rule in the set; everything else is done as in a draft.
-/

namespace ChartParsing

deriving instance Hashable for BinaryRule, Rule

/-- A draft with a table of its names and the set of its rules. -/
structure Register extends Draft where
  index : Std.HashMap String Symbol
  seen : Std.HashSet Rule

/-- A grammar with a table of its names. -/
structure IndexedGrammar extends Grammar where
  index : Std.HashMap String Symbol

/-- The symbol that the table has under a name. -/
def IndexedGrammar.symbolOf? (g : IndexedGrammar) (name : String) : Option Symbol :=
  g.index[name]?

namespace Register

/-- Nothing declared, and nothing refused. -/
def empty : Register :=
  ⟨Draft.empty, ∅, ∅⟩

/-- Remembers a refusal, if it is the first. -/
def refuse (r : Register) (e : GrammarError) : Register :=
  { r with toDraft := r.toDraft.refuse e }

/-- The symbol that the table has under a name; a name that is not in it is a refusal. -/
def lookup (r : Register) (name : String) : Option Symbol × Register :=
  match r.index[name]? with
  | some A => (some A, r)
  | none => (none, r.refuse (.missingSymbol name))

/-- Declares a symbol. -/
def addSymbol (r : Register) (repeats : Repeats) (name : String) : Register :=
  if name ∈ r.index then
    match repeats with
    | .refused => r.refuse (.duplicateSymbol name)
    | .ignored => r
  else
    { r with
      symbols := r.symbols ++ [name]
      index := r.index.insert name ⟨r.symbols.length⟩ }

/-- Declares a rule over declared symbols. -/
def addRule (r : Register) (repeats : Repeats) (rule : Rule) : Register :=
  if rule ∈ r.seen then
    match repeats with
    | .refused =>
        r.refuse (.duplicateRule (rule.headName r.symbols) (rule.bodyTexts r.symbols))
    | .ignored => r
  else
    { r with rules := r.rules ++ [rule], seen := r.seen.insert rule }

/-- Follows one declaration.  All names of a rule are looked up, in the order left, right,
head, before the rule is added. -/
def add (r : Register) (x : Declaration) : Register :=
  match x.item with
  | .nonterminal name => r.addSymbol x.repeats name
  | .production head [left, right] =>
      let (left?, r) := r.lookup left
      let (right?, r) := r.lookup right
      let (head?, r) := r.lookup head
      match left?, right?, head? with
      | some left, some right, some head => r.addRule x.repeats (.binary ⟨head, left, right⟩)
      | _, _, _ => r
  | .production head body => r.refuse (.notNormalForm head body)
  | .lexical head word =>
      let (head?, r) := r.lookup head
      match head? with
      | some head => r.addRule x.repeats (.lexical head word)
      | none => r

/-- Follows declarations in order. -/
def addAll (r : Register) (declarations : List Declaration) : Register :=
  declarations.foldl add r

/-- The grammar of what was declared, with a start symbol of the given name, or the first
refusal. -/
def toGrammar (r : Register) (start : String) : Except GrammarError IndexedGrammar :=
  let (start?, r) := r.lookup start
  match r.refusal?, start? with
  | some e, _ => .error e
  | none, none => .error .noRules
  | none, some start =>
      if r.rules.isEmpty then .error .noRules
      else .ok ⟨Grammar.ofRules r.symbols start r.rules, r.index⟩

end Register
end ChartParsing
