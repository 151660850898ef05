import ChartParsing.Forest
import ChartParsing.Message
import ChartParsing.Sentence

/-!
# Batches of sentences

A batch parses sentences one after another under one grammar, on one chart.  A sentence
without a parse, or without tokens, never stops it: every sentence has an outcome.

**Output.** An outcome is the sentence with its count or its error, the trees if they were
asked for, and the count that was expected.
-/

namespace ChartParsing

/-- What came of one sentence. -/
structure Outcome where
  sentence : String
  count : Except ParseError Nat
  /-- The texts of the trees, if they were asked for. -/
  trees : List String
  expected : Option Nat

namespace Outcome

/-- A count was expected, and the sentence has another one or none. -/
def mismatch (o : Outcome) : Bool :=
  match o.expected, o.count with
  | none, _ => false
  | some expected, .ok count => expected != count
  | some _, .error _ => true

/-- The sentence was parsed and has no derivation. -/
def isUnparsed (o : Outcome) : Bool :=
  match o.count with
  | .ok count => count == 0
  | .error _ => false

/-- The sentence and its count, or its error. -/
def headline (o : Outcome) : String :=
  match o.count with
  | .ok count => o.sentence ++ "\t" ++ toString count
  | .error e => o.sentence ++ "\terror: " ++ e.message

/-- The headline, and each tree on a line of its own. -/
def text (o : Outcome) : String :=
  o.headline ++ String.join (o.trees.map ("\n" ++ ·))

/-- What was expected of the sentence and what came of it. -/
def comparison (o : Outcome) : String :=
  let expected := (o.expected.map toString).getD ""
  let got :=
    match o.count with
    | .ok count => toString count
    | .error e => "error: " ++ e.message
  "'" ++ o.sentence ++ "' expected " ++ expected ++ " got " ++ got

end Outcome

/-- A grammar to parse sentences with, and whether to list their trees. -/
structure Batch where
  grammar : Grammar
  withTrees : Bool
  deriving DecidableEq, Repr

namespace Batch

/-- The texts of the trees of the sentence in a chart. -/
def treeTexts (c : Chart) : List String :=
  match Forest.ofChart c with
  | .ok forest => forest.trees.1.map Tree.text
  | .error _ => []

/-- Parses one sentence on a chart. -/
def parse (b : Batch) (c : Chart) (s : Sentence) : Outcome × Chart :=
  let (count, filled) := c.fill s.tokens
  let trees := if b.withTrees && count.toBool then treeTexts filled else []
  (⟨s.text, count, trees, s.expected⟩, filled)

/-- Parses sentences in order, each on the chart that the one before left. -/
def runFrom (b : Batch) (c : Chart) : List Sentence → List Outcome
  | [] => []
  | s :: rest =>
      let (outcome, next) := b.parse c s
      outcome :: b.runFrom next rest

/-- The outcomes of sentences, in order. -/
def run (b : Batch) (sentences : List Sentence) : List Outcome :=
  b.runFrom (.empty b.grammar) sentences

/-- What is reported before a sentence is parsed. -/
def sentenceMessage (number : Nat) (s : Sentence) : Message :=
  ⟨.debug, "Sentence " ++ toString number ++ ": " ++ s.text⟩

/-- What is reported while sentences are parsed, the first of them with the given number. -/
def messagesFrom (b : Batch) (number : Nat) (c : Chart) : List Sentence → List Message
  | [] => []
  | s :: rest =>
      let next := (c.fill s.tokens).2
      sentenceMessage number s :: next.fillMessages ++ b.messagesFrom (number + 1) next rest

/-- What is reported about all outcomes: how many there are, how many sentences have no
parse, and how many differ from what was expected. -/
def closingMessage (outcomes : List Outcome) : Message :=
  ⟨.info, "Parsed " ++ toString outcomes.length ++ " sentences, " ++
    toString (outcomes.countP Outcome.isUnparsed) ++ " with no parse, " ++
    toString (outcomes.countP Outcome.mismatch) ++ " mismatches"⟩

/-- Everything that is reported while a batch runs. -/
def messages (b : Batch) (sentences : List Sentence) : List Message :=
  b.messagesFrom 1 (.empty b.grammar) sentences ++ [closingMessage (b.run sentences)]

end Batch
end ChartParsing
