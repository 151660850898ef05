import ChartParsing.Grammar.Draft

/-!
# Loading grammars line by line

A loader goes through the lines of a grammar text once.  It declares symbols and rules in a draft
while it reads them, the names of an alternative even before it knows whether the alternative is
one.  A faulty line ends the loading at once.  A declaration that the draft refuses does not: the
draft keeps it, and it comes out when all lines have been read and the grammar is asked for.

**Algorithm.** `Loader.readLine` tells the shapes of lines apart, `Loader.addAlternatives` declares
the alternatives of a head, and `Loader.load` reads all lines of a text.  A `Statement` is read
before anything is declared instead, and the text describes the same grammar.
-/

namespace ChartParsing

/-- What a loader has come to. -/
structure Loader where
  draft : Draft
  /-- The start symbol that was named last. -/
  start? : Option String
  /-- The head of the first line with a head. -/
  firstHead? : Option String
  /-- The head that a line without one goes on with. -/
  latestHead? : Option String
  deriving DecidableEq, Repr

namespace Loader

/-- Nothing read. -/
def empty : Loader :=
  ⟨Draft.empty, none, none, none⟩

/-- Declares one name of an alternative; `alternative` is kept for the error message. -/
def addName
    (line : Nat)
    (head : String)
    (alternative : List Token)
    (read : Draft × List String) :
    Token → Except GrammarError (Draft × List String)
  | .symbol name => .ok (read.1.add ⟨.nonterminal name, .ignored⟩, read.2 ++ [name])
  | .word _ => .error (.notNormalForm head (alternative.map Token.describe))
  | token => .error (.malformed line (.unexpected token))

/-- Declares one alternative of a head. -/
def addAlternative (line : Nat) (head : String) (d : Draft) :
    List Token → Except GrammarError Draft
  | [] => .error (.malformed line (.emptyAlternative head))
  | [.word text] => .ok (d.add ⟨.lexical head text, .ignored⟩)
  | alternative => do
      let (d, names) ← alternative.foldlM (addName line head alternative) (d, [])
      return d.add ⟨.production head names, .ignored⟩

/-- Declares the alternatives of a head, cut at the bars. -/
def addAlternatives (line : Nat) (head : String) (d : Draft) (tokens : List Token) :
    Except GrammarError Draft :=
  (tokens.splitOn .bar).foldlM (addAlternative line head) d

/-- A line that begins with a directive. -/
def readDirective (l : Loader) (line : Nat) (directive : String) (arguments : List Token) :
    Except GrammarError Loader :=
  if directive = "start" then
    match arguments with
    | [.symbol name] => .ok { l with start? := some name }
    | _ => .error (.malformed line .startWithoutSymbol)
  else
    .error (.malformed line (.unknownDirective directive))

/-- One line. -/
def readLine (l : Loader) (line : Nat) : List Token → Except GrammarError Loader
  | [] => .ok l
  | .directive directive :: rest => l.readDirective line directive rest
  | .symbol head :: .arrow :: rest => do
      let draft ← addAlternatives line head (l.draft.add ⟨.nonterminal head, .ignored⟩) rest
      return ⟨draft, l.start?, l.firstHead?.or (some head), some head⟩
  | .bar :: rest =>
      match l.latestHead? with
      | some head => do
          return { l with draft := ← addAlternatives line head l.draft rest }
      | none => .error (.malformed line .continuationWithoutRule)
  | token :: _ => .error (.malformed line (.unexpected token))

/-- Successive lines, the first of them with the given number. -/
def readLines (l : Loader) (line : Nat) : List (List Token) → Except GrammarError Loader
  | [] => .ok l
  | tokens :: rest => do (← l.readLine line tokens).readLines (line + 1) rest

/-- The grammar that was read, or the first declaration that was refused.  Without a start line the
first head is the start symbol. -/
def toGrammar (l : Loader) : Except GrammarError Grammar :=
  match l.start?.or l.firstHead? with
  | none => .error .noRules
  | some start => l.draft.toGrammar start

/-- The grammar that a text describes. -/
def load (text : List Char) : Except GrammarError Grammar := do
  (← empty.readLines 1 ((Token.ofText text).splitOn .newline)).toGrammar

end Loader
end ChartParsing
