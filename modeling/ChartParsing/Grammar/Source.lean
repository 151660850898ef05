import ChartParsing.Grammar.Builder

/-!
# Reading grammars

A grammar text is read line by line.  A line is blank, names the start symbol, gives a head
and its alternatives, or goes on with alternatives of the latest head:

    %start S
    S -> NP VP | 'hi'
       | 'hello'

An alternative is one quoted word or a sequence of names.

**Algorithm.** Tokens are cut into lines, lines are read as statements, statements are
turned into declarations, and the declarations build the grammar.  So a faulty line is
reported before a sequence of names that is not two names long, and that before a missing
start symbol.  Without a start line the first head is the start symbol.
-/

namespace ChartParsing

/-- The right side of a written production. -/
inductive Body
  | word (text : String)
  | names (list : List String)
  deriving DecidableEq, Repr

/-- What a line of a grammar text says. -/
inductive Statement
  | blank
  | start (name : String)
  | productions (head : String) (bodies : List Body)
  deriving DecidableEq, Repr

namespace Statement

/-- The names in an alternative of a head; `alternative` is kept for the error message. -/
def readNames (line : Nat) (head : String) (alternative : List Token) :
    List Token → Except GrammarError (List String)
  | [] => .ok []
  | .symbol name :: rest => do
      return name :: (← readNames line head alternative rest)
  | .word _ :: _ => .error (.notNormalForm head (alternative.map Token.describe))
  | token :: _ => .error (.malformed line (.unexpected token))

/-- One alternative of a head. -/
def readBody (line : Nat) (head : String) : List Token → Except GrammarError Body
  | [] => .error (.malformed line (.emptyAlternative head))
  | [.word text] => .ok (.word text)
  | alternative => do
      return .names (← readNames line head alternative alternative)

/-- The alternatives of a head, cut at the bars. -/
def readAlternatives (line : Nat) (head : String) (tokens : List Token) :
    Except GrammarError Statement := do
  return .productions head (← (tokens.splitOn .bar).mapM (readBody line head))

/-- A line that begins with a directive. -/
def readDirective (line : Nat) (directive : String) (arguments : List Token) :
    Except GrammarError Statement :=
  if directive = "start" then
    match arguments with
    | [.symbol name] => .ok (.start name)
    | _ => .error (.malformed line .startWithoutSymbol)
  else
    .error (.malformed line (.unknownDirective directive))

/-- One line, which may go on with the alternatives of the head given. -/
def readLine (line : Nat) (head? : Option String) :
    List Token → Except GrammarError Statement
  | [] => .ok .blank
  | .directive directive :: rest => readDirective line directive rest
  | .symbol head :: .arrow :: rest => readAlternatives line head rest
  | .bar :: rest =>
      match head? with
      | some head => readAlternatives line head rest
      | none => .error (.malformed line .continuationWithoutRule)
  | token :: _ => .error (.malformed line (.unexpected token))

/-- The head whose alternatives a statement gives. -/
def head? : Statement → Option String
  | productions head _ => some head
  | _ => none

/-- The start symbol that a statement names. -/
def start? : Statement → Option String
  | start name => some name
  | _ => none

/-- Successive lines, the first of them with the given number. -/
def readLines (line : Nat) (latest? : Option String) :
    List (List Token) → Except GrammarError (List Statement)
  | [] => .ok []
  | tokens :: rest => do
      let statement ← readLine line latest? tokens
      return statement :: (← readLines (line + 1) (statement.head?.or latest?) rest)

/-- The declarations of one production: its symbols, head first, and then its rule. -/
def bodyItems (head : String) : Body → List Item
  | .word text => [.nonterminal head, .lexical head text]
  | .names list =>
      .nonterminal head :: (list.map Item.nonterminal ++ [.production head list])

/-- The declarations that a statement stands for; repeats are ignored. -/
def declarations : Statement → List Declaration
  | productions head bodies =>
      (bodies.flatMap (bodyItems head)).map (⟨·, .ignored⟩)
  | _ => []

/-- The start symbol of a text: the one named last, or else the first head. -/
def startOf? (statements : List Statement) : Option String :=
  (statements.filterMap start?).getLast?.or (statements.filterMap head?).head?

end Statement

namespace Grammar

/-- The statements of a grammar text. -/
def statementsOfText (text : List Char) : Except GrammarError (List Statement) :=
  Statement.readLines 1 none ((Token.ofText text).splitOn .newline)

/-- The grammar that a text describes. -/
def ofText (text : List Char) : Except GrammarError Grammar := do
  let statements ← statementsOfText text
  match Statement.startOf? statements with
  | none => .error .noRules
  | some start => ofDeclarations (statements.flatMap Statement.declarations) start

end Grammar
end ChartParsing
