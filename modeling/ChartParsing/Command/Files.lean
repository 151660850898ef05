/-!
# Files

What the command needs to know about files: what a path leads to, or why it cannot be read.
A path may lead to the standard input, which is used up by reading it.
-/

namespace ChartParsing
namespace Command

/-- Why a file could not be read as a text. -/
inductive FileError
  | missing
  | notDirectory
  | isDirectory
  | nameTooLong
  | notPermitted
  | notText
  deriving DecidableEq, Repr

/-- The wording of an error. -/
def FileError.message : FileError → String
  | missing => "No such file or directory (os error 2)"
  | notDirectory => "Not a directory (os error 20)"
  | isDirectory => "Is a directory (os error 21)"
  | nameTooLong => "File name too long (os error 36)"
  | notPermitted => "Permission denied (os error 13)"
  | notText => "stream did not contain valid UTF-8"

/-- What can be read at the end of a path. -/
inductive Content
  | text (content : String)
  | standardInput
  deriving DecidableEq, Repr

/-- Answers what a path leads to. -/
abbrev Reader := String → Except FileError Content

/-- The text that a path leads to, and what is left of the standard input when it is read. -/
def readText (read : Reader) (path : String) (input : List Char) :
    Except FileError (List Char × List Char) := do
  match ← read path with
  | .text content => return (content.toList, input)
  | .standardInput => return (input, [])

end Command
end ChartParsing
