import ChartParsing.Command.Run

/-!
# The command

The outer layer of the command: it reads the files and the standard input, and prints what
the pure part answers.
-/

namespace ChartParsing
namespace Command

/-- Why the system could not read a file. -/
def FileError.ofError : IO.Error → FileError
  | .inappropriateType _ code _ => if code == 21 then .isDirectory else .notDirectory
  | .permissionDenied _ _ _ => .notPermitted
  | .invalidArgument _ _ _ => .nameTooLong
  | _ => .missing

/-- Reads a text file. -/
def readFile (path : String) : IO (Except FileError Content) := do
  try
    match String.fromUTF8? (← IO.FS.readBinFile path) with
    | some text => return .ok (.text text)
    | none => return .error .notText
  catch e =>
    return .error (FileError.ofError e)

/-- Prints what the options ask to be told about the work, apart from the cells. -/
def printMessages (o : Options) (messages : List Message) : IO Unit := do
  if o.verbose then
    for m in messages do
      if m.level != .trace then IO.eprintln m.line

/-- Prints a report and returns its exit code. -/
def printReport (r : Report) : IO UInt32 := do
  (← IO.getStdout).putStr r.stdout
  (← IO.getStderr).putStr r.stderr
  return r.code.toUInt32

/-- Answers lines until the input ends or a line cannot be edited. -/
partial def converse (o : Options) (b : Batch) (c : Chart) : IO Ending := do
  let stdout ← IO.getStdout
  stdout.putStr prompt
  stdout.flush
  match Text.lines (← (← IO.getStdin).getLine).toList with
  | [] => return .inputEnded
  | line :: _ =>
      match answerLine? b c line with
      | none => return .brokenOff
      | some (answer, next) =>
          unless answer.isEmpty do printMessages o next.fillMessages
          stdout.putStr answer
          converse o b next

/-- Reads the files that the options name, and parses what they hold. -/
def performFiles (o : Options) : IO UInt32 := do
  let grammarText ← readFile o.grammar
  match loadGrammar (fun _ => grammarText) o.grammar [] with
  | .error failure => printReport failure.report
  | .ok (grammar, _) =>
      printMessages o [grammar.loadMessage]
      match o.sentences with
      | none =>
          let ending ← converse o ⟨grammar, true⟩ (.empty grammar)
          return ending.code.toUInt32
      | some path =>
          let sentenceText ← readFile path
          match loadSentences (fun _ => sentenceText) path [] with
          | .error failure => printReport failure.report
          | .ok sentences =>
              let batch : Batch := ⟨grammar, o.trees⟩
              printMessages o (batch.messages sentences)
              printReport (reportOutcomes o.check (batch.run sentences))

end Command
end ChartParsing

/-- Runs the command. -/
def main (arguments : List String) : IO UInt32 :=
  match ChartParsing.Command.Options.ofArguments? arguments with
  | some o => ChartParsing.Command.performFiles o
  | none => ChartParsing.Command.printReport ChartParsing.Command.usageReport
