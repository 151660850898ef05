/-!
# Options of the command line

The command takes the path of a grammar, then perhaps the path of a file of sentences, and
three flags in any place:

    GRAMMAR [SENTENCES] [--trees] [--check] [--verbose]

A flag may be given once, and `-v` is short for `--verbose`.  After two dashes alone every
argument is a path; one dash alone is a path too, and no path is empty.
-/

namespace ChartParsing
namespace Command

/-- What the command line asks for. -/
structure Options where
  grammar : String
  /-- Without a file of sentences, lines are read from the standard input. -/
  sentences : Option String
  /-- List the trees of every sentence. -/
  trees : Bool
  /-- Report the sentences whose count is not the expected one. -/
  check : Bool
  /-- Report what is done. -/
  verbose : Bool
  deriving DecidableEq, Repr

/-- The flags. -/
inductive Flag
  | trees
  | check
  | verbose
  deriving DecidableEq, Repr

/-- The arguments sorted into paths and flags, each in the order in which it was given. -/
structure Arguments where
  paths : List String
  flags : List Flag
  deriving DecidableEq, Repr

/-- The flag that an argument gives, if it gives one. -/
def Flag.ofArgument? : String → Option Flag
  | "--trees" => some .trees
  | "--check" => some .check
  | "--verbose" => some .verbose
  | "-v" => some .verbose
  | _ => none

/-- The argument is a path wherever it stands: it does not start with a dash, or is one. -/
def isPath (argument : String) : Bool :=
  argument == "-" || argument.toList.head? != some '-'

/-- Sorts arguments; an argument that looks like a flag and is none makes it fail. -/
def Arguments.ofList? : List String → Option Arguments
  | [] => some ⟨[], []⟩
  | argument :: rest =>
      if argument = "--" then
        some ⟨rest, []⟩
      else if isPath argument then
        (ofList? rest).map fun a => { a with paths := argument :: a.paths }
      else do
        let flag ← Flag.ofArgument? argument
        let a ← ofList? rest
        return { a with flags := flag :: a.flags }

/-- No element occurs twice. -/
def allDistinct [DecidableEq α] : List α → Bool
  | [] => true
  | x :: xs => decide (x ∉ xs) && allDistinct xs

/-- The options that arguments state; nothing if they are not understood. -/
def Options.ofArguments? (arguments : List String) : Option Options := do
  let ⟨paths, flags⟩ ← Arguments.ofList? arguments
  let options (grammar : String) (sentences : Option String) : Options :=
    ⟨grammar, sentences, .trees ∈ flags, .check ∈ flags, .verbose ∈ flags⟩
  if !allDistinct flags || "" ∈ paths then none
  else
    match paths with
    | [grammar] => some (options grammar none)
    | [grammar, sentences] => some (options grammar (some sentences))
    | _ => none

end Command
end ChartParsing
