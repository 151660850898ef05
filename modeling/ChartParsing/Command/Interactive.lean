import ChartParsing.Batch
import ChartParsing.Text.Backspace
import ChartParsing.Text.Lines

/-!
# Parsing line by line

Without a file of sentences the command prompts for a line, parses it with its trees, and
prompts for the next, until the input ends.  A line without words is passed over.  In a line
that is typed, a backspace takes back what is before it; a line that cannot be edited so
breaks the session off.
-/

namespace ChartParsing
namespace Command

/-- What stands in front of each line. -/
def prompt : String :=
  "~> "

/-- How a session ends. -/
inductive Ending
  | inputEnded
  | brokenOff
  deriving DecidableEq, Repr

/-- What is printed in a session, and how it ends. -/
structure Transcript where
  text : String
  ending : Ending
  deriving DecidableEq, Repr

/-- What is printed for a line, and the chart it leaves; nothing if the line cannot be edited. -/
def answerLine? (b : Batch) (c : Chart) (line : List Char) : Option (String × Chart) := do
  let sentence := Sentence.ofText (← Text.applyBackspaces? line)
  if sentence.tokens.isEmpty then
    return ("", c)
  else
    let (outcome, next) := b.parse c sentence
    return (outcome.text ++ "\n", next)

/-- The session over the given lines, with a prompt before each of them and before the end. -/
def answerLines (b : Batch) (c : Chart) : List (List Char) → Transcript
  | [] => ⟨prompt, .inputEnded⟩
  | line :: rest =>
      match answerLine? b c line with
      | none => ⟨prompt, .brokenOff⟩
      | some (answer, next) =>
          let later := answerLines b next rest
          ⟨prompt ++ answer ++ later.text, later.ending⟩

/-- The session over the given input. -/
def session (g : Grammar) (input : List Char) : Transcript :=
  answerLines ⟨g, true⟩ (.empty g) (Text.lines input)

end Command
end ChartParsing
