import ChartParsing.Grammar.Token
import ChartParsing.Text.Cursor

/-!
# Reading tokens with a cursor

A tokenizer reads a grammar text from left to right with a cursor, and gives one token after
another until the text ends.  It tries the kinds of tokens in turn; an attempt that fails puts
the cursor back to where it was.

**Algorithm.** `readToken` skips a gap and reads one token.  A name is read character by
character: a minus sign belongs to it unless the character behind, which is only looked at, makes
an arrow of it.  The tokenizer stops when `readToken` finds nothing (`Tokenizes`).
-/

namespace ChartParsing
namespace Tokenizer

open Text

/-- Whether a character that was read begins an arrow; a minus sign has the next one looked
at. -/
def beginsArrow (x : Char) (c : Cursor) : Bool × Cursor :=
  if x = '-' then (c.peek.1 == some '>', c.peek.2) else (false, c)

theorem length_pending_beginsArrow_le
    (x : Char)
    (c : Cursor) :
    (beginsArrow x c).2.pending.length ≤ c.pending.length := by
  unfold beginsArrow
  split
  · exact Cursor.length_pending_peek_le c
  · exact Nat.le_refl _

/-- Reads the characters of a name, up to a character that no name has or an arrow. -/
def skipName (c : Cursor) : Cursor :=
  match _h : c.next with
  | (none, c') => c'
  | (some x, c') =>
      if (beginsArrow x c').1 || !Token.isNameChar x then
        ((beginsArrow x c').2.setPos c.pos).2
      else
        skipName (beginsArrow x c').2
termination_by c.pending.length
decreasing_by
  have hlook := length_pending_beginsArrow_le x c'
  rw [Cursor.pending_next _h, List.length_cons]
  omega

/-- Reads a name, or nothing. -/
def readName (c : Cursor) : Option String × Cursor :=
  let taken := (skipName c).extractText
  (if taken.1.isEmpty then none else some taken.1, taken.2)

/-- Skips the blanks in front of a token, and the comment that may follow them. -/
def skipGap (c : Cursor) : Cursor :=
  match c.ignoreBlanks.accept '#' with
  | (some _, c') => (c'.skipAll (· != '\n')).2.ignore
  | (none, c') => c'

/-- Reads an arrow, or nothing. -/
def acceptArrow (c : Cursor) : Bool × Cursor :=
  match c.accept '-' with
  | (none, c') => (false, c')
  | (some _, c') =>
      match c'.accept '>' with
      | (some _, c'') => (true, c''.ignore)
      | (none, c'') => (false, (c''.setPos c.pos).2)

/-- Reads what stands behind a percent sign. -/
def readDirective (c : Cursor) : Token × Cursor :=
  match readName c with
  | (some name, c') => (.directive name, c')
  | (none, c') => (.unknown "%", c')

/-- Reads a word in either kind of quotes, or nothing. -/
def readWord (c : Cursor) : Option (List Char) × Cursor :=
  match c.scanQuoted '\'' with
  | (some content, c') => (some content, c')
  | (none, c') => c'.scanQuoted '"'

/-- Reads the rest of a line, which begins no token, unless the text has ended. -/
def readUnknown (c : Cursor) : Option Token × Cursor :=
  match c.next with
  | (none, c') => (none, c')
  | (some _, c') =>
      let taken := (c'.skipAll (· != '\n')).2.extractText
      (some (.unknown taken.1), taken.2)

/-- Reads a word, a name or an unknown stretch, unless the text has ended. -/
def readText (c : Cursor) : Option Token × Cursor :=
  match readWord c with
  | (some content, c') => (some (.word (String.ofList content)), c')
  | (none, c') =>
      match readName c' with
      | (some name, c'') => (some (.symbol name), c'')
      | (none, c'') => readUnknown c''

/-- Reads one token, unless only a gap is left. -/
def readToken (c : Cursor) : Option Token × Cursor :=
  match (skipGap c).accept '\n' with
  | (some _, c') => (some .newline, c'.ignore)
  | (none, c') =>
      match c'.accept '|' with
      | (some _, c') => (some .bar, c'.ignore)
      | (none, c') =>
          match acceptArrow c' with
          | (true, c') => (some .arrow, c')
          | (false, c') =>
              match c'.accept '%' with
              | (some _, c') =>
                  let read := readDirective c'.ignore
                  (some read.1, read.2)
              | (none, c') => readText c'

/-- A tokenizer that starts with a cursor gives these tokens, and then stops. -/
inductive Tokenizes : Cursor → List Token → Prop
  | stop
      {c c' : Cursor}
      (hread : readToken c = (none, c')) :
      Tokenizes c []
  | token
      {c c' : Cursor} {token : Token} {tokens : List Token}
      (hread : readToken c = (some token, c'))
      (rest : Tokenizes c' tokens) :
      Tokenizes c (token :: tokens)

end Tokenizer
end ChartParsing
