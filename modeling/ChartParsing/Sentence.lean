import ChartParsing.Text.Blank
import ChartParsing.Text.Delimited
import ChartParsing.Text.Lines
import ChartParsing.Text.Numeral

/-!
# Sentences with expected counts

A file of sentences has one sentence a line.  After the last colon of a line stands how many
parses the sentence should have; without a colon nothing is expected of it.  Empty lines and
lines that start with a number sign, a percent sign or a semicolon are skipped.

**Algorithm.** Every line is trimmed and read by itself (`Sentence.ofLine`), and the first
line whose count cannot be read decides the error.
-/

namespace ChartParsing

/-- A sentence to parse, and how many parses it should have. -/
structure Sentence where
  tokens : List String
  expected : Option Nat
  deriving DecidableEq, Repr

/-- A line whose text after the last colon is no count. -/
structure SentenceError where
  line : Nat
  given : String
  deriving DecidableEq, Repr

/-- The wording of an error. -/
def SentenceError.message (e : SentenceError) : String :=
  "Bad test sentence at line " ++ toString e.line ++
    ": expected a parse count, got '" ++ e.given ++ "'"

/-- Cuts a text at the last occurrence of a character. -/
def cutLast (mark : Char) : List Char → Option (List Char × List Char)
  | [] => none
  | c :: cs =>
      match cutLast mark cs with
      | some (before, after) => some (c :: before, after)
      | none => if c = mark then some ([], cs) else none

namespace Sentence

/-- The sentence of the words of a text, of which nothing is expected. -/
def ofText (text : List Char) : Sentence :=
  ⟨(Text.words text).map String.ofList, none⟩

/-- The tokens, one blank between them. -/
def text (s : Sentence) : String :=
  " ".intercalate s.tokens

/-- A trimmed line is skipped. -/
def isSkipped : List Char → Bool
  | [] => true
  | c :: _ => c == '#' || c == '%' || c == ';'

/-- The sentence of a trimmed line that is not skipped. -/
def ofContent (number : Nat) (content : List Char) : Except SentenceError Sentence :=
  match cutLast ':' content with
  | none => .ok (ofText content)
  | some (before, after) =>
      let given := Text.trim after
      match Text.Numeral.read given with
      | some count => .ok { ofText before with expected := some count }
      | none => .error ⟨number, String.ofList given⟩

/-- The sentence of a line, unless the line is skipped. -/
def ofLine (number : Nat) (line : List Char) : Except SentenceError (Option Sentence) :=
  let content := Text.trim line
  if isSkipped content then .ok none
  else (ofContent number content).map some

/-- The sentences of successive lines, the first of them with the given number. -/
def ofLines (number : Nat) : List (List Char) → Except SentenceError (List Sentence)
  | [] => .ok []
  | line :: rest => do
      let sentence? ← ofLine number line
      let sentences ← ofLines (number + 1) rest
      return sentence?.toList ++ sentences

/-- The sentences of a file. -/
def readAll (text : List Char) : Except SentenceError (List Sentence) :=
  ofLines 1 (Text.lines text)

end Sentence
end ChartParsing
