import ChartParsing.Text.Blank

/-!
# Texts cut at delimiters

A text is cut at each of a set of delimiter characters.  Blanks around a piece are trimmed
and empty pieces vanish; the delimiters are dropped, or kept as pieces of their own.

**Algorithm.** `pieces` skips the blanks in front, takes everything up to the next
delimiter as a piece, deals with that delimiter, and goes on with what follows it.  Blanks
that are delimiters are cut at, not skipped.
-/

namespace ChartParsing
namespace Text

/-- What becomes of the delimiters between the pieces of a text. -/
inductive Delimiters
  | dropped
  | kept
  deriving DecidableEq, Repr

/-- The pieces that a delimiter leaves: itself, when delimiters are kept. -/
def Delimiters.piece : Delimiters → Char → List (List Char)
  | .dropped, _ => []
  | .kept, d => [[d]]

/-- Drops the leading blanks that are not themselves delimiters. -/
def skipBlanks (delims cs : List Char) : List Char :=
  cs.dropWhile fun c => isBlank c && !delims.contains c

/-- The characters before the first delimiter. -/
def beforeDelimiter (delims cs : List Char) : List Char :=
  cs.takeWhile fun c => !delims.contains c

/-- The text from the first delimiter on. -/
def fromDelimiter (delims cs : List Char) : List Char :=
  cs.dropWhile fun c => !delims.contains c

/-- The piece that a stretch of text without delimiters leaves, if it is not empty. -/
def stretch (cs : List Char) : List (List Char) :=
  if cs.isEmpty then [] else [trimEnd cs]

theorem length_skipBlanks_le
    (delims cs : List Char) :
    (skipBlanks delims cs).length ≤ cs.length :=
  (List.dropWhile_sublist _).length_le

theorem length_fromDelimiter_le
    (delims cs : List Char) :
    (fromDelimiter delims cs).length ≤ cs.length :=
  (List.dropWhile_sublist _).length_le

/-- The trimmed, non-empty pieces of a text between its delimiters, in order. -/
def pieces (mode : Delimiters) (delims cs : List Char) : List (List Char) :=
  match _h : fromDelimiter delims (skipBlanks delims cs) with
  | [] =>
      stretch (beforeDelimiter delims (skipBlanks delims cs))
  | d :: rest =>
      stretch (beforeDelimiter delims (skipBlanks delims cs)) ++
        (mode.piece d ++ pieces mode delims rest)
termination_by cs.length
decreasing_by
  have hskip := length_skipBlanks_le delims cs
  have hfrom := length_fromDelimiter_le delims (skipBlanks delims cs)
  simp only [_h, List.length_cons] at hfrom
  omega

/-- The characters that separate the words of a sentence. -/
def wordDelimiters : List Char :=
  [' ', '\t', '\r', '\n']

/-- The words of a sentence. -/
def words (cs : List Char) : List (List Char) :=
  pieces .dropped wordDelimiters cs

end Text
end ChartParsing
