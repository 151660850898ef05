import ChartParsing.Grammar.Builder

/-!
# Drafts of grammars

A draft takes declarations without ever stopping.  A declaration that is refused adds nothing,
the first refusal is kept, and the declarations behind it are followed as if nothing had
happened.  Only when the grammar is asked for does the refusal come out.

**Algorithm.** `Draft.add` looks every name of a declaration up, whether or not an earlier one
was found; `Draft.refuse` keeps the first refusal.  A `Builder` stops at the first refusal
instead, and describes the same grammar.
-/

namespace ChartParsing

/-- The symbols and rules declared so far, and the first refusal. -/
structure Draft extends Builder where
  refusal? : Option GrammarError
  deriving DecidableEq, Repr

namespace Draft

/-- Nothing declared, and nothing refused. -/
def empty : Draft :=
  ⟨Builder.empty, none⟩

/-- Remembers a refusal, if it is the first. -/
def refuse (d : Draft) (e : GrammarError) : Draft :=
  { d with refusal? := some (d.refusal?.getD e) }

/-- The symbol declared under a name; a name that is not declared is a refusal. -/
def lookup (d : Draft) (name : String) : Option Symbol × Draft :=
  match d.symbols.idxOf? name with
  | some index => (some ⟨index⟩, d)
  | none => (none, d.refuse (.missingSymbol name))

/-- Declares a symbol. -/
def addSymbol (d : Draft) (repeats : Repeats) (name : String) : Draft :=
  if name ∈ d.symbols then
    match repeats with
    | .refused => d.refuse (.duplicateSymbol name)
    | .ignored => d
  else
    { d with symbols := d.symbols ++ [name] }

/-- Declares a rule over declared symbols. -/
def addRule (d : Draft) (repeats : Repeats) (rule : Rule) : Draft :=
  if rule ∈ d.rules then
    match repeats with
    | .refused =>
        d.refuse (.duplicateRule (rule.headName d.symbols) (rule.bodyTexts d.symbols))
    | .ignored => d
  else
    { d with rules := d.rules ++ [rule] }

/-- Follows one declaration.  All names of a rule are looked up, in the order left, right,
head, before the rule is added. -/
def add (d : Draft) (x : Declaration) : Draft :=
  match x.item with
  | .nonterminal name => d.addSymbol x.repeats name
  | .production head [left, right] =>
      let (left?, d) := d.lookup left
      let (right?, d) := d.lookup right
      let (head?, d) := d.lookup head
      match left?, right?, head? with
      | some left, some right, some head => d.addRule x.repeats (.binary ⟨head, left, right⟩)
      | _, _, _ => d
  | .production head body => d.refuse (.notNormalForm head body)
  | .lexical head word =>
      let (head?, d) := d.lookup head
      match head? with
      | some head => d.addRule x.repeats (.lexical head word)
      | none => d

/-- Follows declarations in order. -/
def addAll (d : Draft) (declarations : List Declaration) : Draft :=
  declarations.foldl add d

/-- The grammar of what was declared, with a start symbol of the given name, or the first
refusal. -/
def toGrammar (d : Draft) (start : String) : Except GrammarError Grammar :=
  let (start?, d) := d.lookup start
  match d.refusal?, start? with
  | some e, _ => .error e
  | none, none => .error .noRules
  | none, some start =>
      if d.rules.isEmpty then .error .noRules
      else .ok (Grammar.ofRules d.symbols start d.rules)

end Draft
end ChartParsing
