import ChartParsing.Text.Blank
import ChartParsing.Text.Quoted

/-!
# Windows of a text

A window says what a cursor over a text amounts to, without a buffer: the whole text, a base up
to which characters were dropped, a high-water mark up to which characters were looked at, and a
position counted from the base.  Nothing is ever taken from the text.

**Operations.** Each operation is said by places of the text.  Looking at a place moves the
high-water mark behind it, if the text is that long.  Only `ignore`, `extract`, `ignoreBlanks`
and a successful `scanQuoted` move the base.
-/

namespace ChartParsing
namespace Text

/-- A stretch of a text, and a position in it. -/
structure Window where
  input : List Char
  /-- The characters before this place were dropped. -/
  base : Nat
  /-- The characters before this place were looked at. -/
  high : Nat
  /-- How many characters behind the base have been read. -/
  pos : Nat
  deriving DecidableEq, Repr

namespace Window

/-- The window at the start of a text. -/
def ofText (input : List Char) : Window :=
  ⟨input, 0, 0, 0⟩

/-- The place of the next character. -/
def here (w : Window) : Nat :=
  w.base + w.pos

/-- The characters still to be read. -/
def rest (w : Window) : List Char :=
  w.input.drop w.here

/-- Looks at the character at a place, if there is one. -/
def look (place : Nat) (w : Window) : Window :=
  { w with high := max w.high (min (place + 1) w.input.length) }

/-- Reads one character. -/
def next (w : Window) : Option Char × Window :=
  match w.input[w.here]? with
  | some x => (some x, { w.look w.here with pos := w.pos + 1 })
  | none => (none, w)

/-- The next character, which stays unread. -/
def peek (w : Window) : Option Char × Window :=
  (w.input[w.here]?, w.look w.here)

/-- The character read last, unless none was read since characters were last dropped. -/
def current? (w : Window) : Option Char :=
  if w.pos = 0 then none else w.input[w.here - 1]?

/-- Moves to a position up to the high-water mark. -/
def setPos (w : Window) (pos : Nat) : Bool × Window :=
  if pos ≤ w.high - w.base then (true, { w with pos }) else (false, w)

/-- Drops the characters read so far. -/
def ignore (w : Window) : Window :=
  { w with base := w.here, pos := 0 }

/-- Drops the characters read so far and hands them out. -/
def extract (w : Window) : List Char × Window :=
  (w.input.extract w.base w.here, w.ignore)

/-- Reads one character of a class, or nothing. -/
def acceptIf (p : Char → Bool) (w : Window) : Option Char × Window :=
  match w.input[w.here]? with
  | some x => if p x then w.next else (none, w.look w.here)
  | none => (none, w)

/-- Reads the characters of a class up to the first other one, and tells whether there was
any. -/
def skipAll (p : Char → Bool) (w : Window) : Bool × Window :=
  let run := w.rest.takeWhile p
  (!run.isEmpty, { w.look (w.here + run.length) with pos := w.pos + run.length })

/-- Reads blanks other than new-lines and drops everything read so far. -/
def ignoreBlanks (w : Window) : Window :=
  (w.skipAll fun x => isBlank x && x != '\n').2.ignore

/-- Reads a text quoted by `q` and drops everything read so far, or stays where it is. -/
def scanQuoted (q : Char) (w : Window) : Option (List Char) × Window :=
  match Quoted.scan q w.rest with
  | some (content, after) =>
      let stop := w.input.length - after.length
      (some content, { w with base := stop, high := max w.high stop, pos := 0 })
  | none =>
      (none, w.look (if w.rest.head? = some q then w.input.length else w.here))

end Window
end Text
end ChartParsing
