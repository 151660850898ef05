import ChartParsing.Command.Files
import ChartParsing.Command.Interactive
import ChartParsing.Command.Options
import ChartParsing.Grammar.Source

/-!
# Running the command

The command reads a grammar, and then parses a file of sentences or the lines of its input.

A run ends with 0, or with 1 when a check finds a sentence that differs from what was expected
of it, or with 2 when the arguments, the grammar or the sentences cannot be read.  In the last
case nothing is printed but the reason.  A session that breaks off ends with 101.
-/

namespace ChartParsing
namespace Command

/-- What a run of the command leaves. -/
structure Report where
  code : Nat
  stdout : String
  stderr : String
  deriving DecidableEq, Repr

/-- Why there is nothing to parse. -/
inductive Failure
  | grammarFile (path : String) (error : FileError)
  | grammar (path : String) (error : GrammarError)
  | sentenceFile (error : FileError)
  | sentence (error : SentenceError)
  deriving DecidableEq, Repr

/-- The wording of a failure. -/
def Failure.message : Failure → String
  | grammarFile path error => path ++ ": Can't read grammar: " ++ error.message
  | grammar path error => path ++ ": " ++ error.message
  | sentenceFile error => "Can't read sentences: " ++ error.message
  | sentence error => error.message

/-- The report of a failure. -/
def Failure.report (failure : Failure) : Report :=
  ⟨2, "", "Error: " ++ failure.message ++ "\n"⟩

/-- The grammar in a file, and what is left of the standard input when it is read. -/
def loadGrammar (read : Reader) (path : String) (input : List Char) :
    Except Failure (Grammar × List Char) := do
  let (text, rest) ← (readText read path input).mapError (.grammarFile path)
  let grammar ← (Grammar.ofText text).mapError (.grammar path)
  return (grammar, rest)

/-- The sentences in a file. -/
def loadSentences (read : Reader) (path : String) (input : List Char) :
    Except Failure (List Sentence) := do
  let (text, _) ← (readText read path input).mapError .sentenceFile
  (Sentence.readAll text).mapError .sentence

/-- The lines about the outcomes that differ from what was expected, and their number. -/
def checkText (outcomes : List Outcome) : String :=
  let mismatches := outcomes.filter Outcome.mismatch
  String.join (mismatches.map fun o => "Mismatch: " ++ o.comparison ++ "\n") ++
    toString mismatches.length ++ " of " ++ toString outcomes.length ++
    " sentences mismatched\n"

/-- The report on the outcomes of a file of sentences. -/
def reportOutcomes (check : Bool) (outcomes : List Outcome) : Report :=
  let stdout := String.join (outcomes.map fun o => o.text ++ "\n")
  if check then
    ⟨if outcomes.any Outcome.mismatch then 1 else 0, stdout, checkText outcomes⟩
  else
    ⟨0, stdout, ""⟩

/-- The exit code of a session. -/
def Ending.code : Ending → Nat
  | inputEnded => 0
  | brokenOff => 101

/-- The report on a session. -/
def Transcript.report (t : Transcript) : Report :=
  ⟨t.ending.code, t.text, ""⟩

/-- Parses what the options name. -/
def perform (read : Reader) (input : List Char) (o : Options) : Except Failure Report := do
  let (grammar, rest) ← loadGrammar read o.grammar input
  match o.sentences with
  | none => return (session grammar rest).report
  | some path =>
      let sentences ← loadSentences read path rest
      return reportOutcomes o.check (Batch.run ⟨grammar, o.trees⟩ sentences)

/-- Runs the command under options that were understood. -/
def execute (read : Reader) (input : List Char) (o : Options) : Report :=
  match perform read input o with
  | .ok report => report
  | .error failure => failure.report

/-- The report on arguments that were not understood. -/
def usageReport : Report :=
  ⟨2, "", "error: usage: GRAMMAR [SENTENCES] [--trees] [--check] [--verbose]\n"⟩

/-- Runs the command. -/
def run (read : Reader) (input : List Char) (arguments : List String) : Report :=
  match Options.ofArguments? arguments with
  | some o => execute read input o
  | none => usageReport

end Command
end ChartParsing
