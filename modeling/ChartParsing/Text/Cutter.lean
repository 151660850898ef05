import ChartParsing.Text.Cursor
import ChartParsing.Text.Delimited

/-!
# Cutting a text with a cursor

A cutter reads a text from left to right with a cursor, and gives one piece after another until
the text ends.  It keeps the delimiters that it cuts at, and whether they are pieces themselves.

**Algorithm.** `next` skips blanks that are no delimiters and forgets them.  What it can read then
without a delimiter is a piece, less the blanks at its end.  Where it can read nothing, it reads one
delimiter and gives that, or drops it and starts again behind it.  The cutter stops when `next`
finds neither (`Cuts`).
-/

namespace ChartParsing
namespace Text

/-- A reader of the pieces of a text. -/
structure Cutter where
  cursor : Cursor
  delims : List Char
  mode : Delimiters
  deriving DecidableEq, Repr

namespace Cutter

/-- A cutter before the first character of a text. -/
def ofText (mode : Delimiters) (delims cs : List Char) : Cutter :=
  ⟨.ofText cs, delims, mode⟩

/-- Behind the leading blanks that are not themselves delimiters, with nothing read. -/
def start (c : Cutter) : Cursor :=
  (c.cursor.skipAll fun x => isBlank x && !c.delims.contains x).2.ignore

/-- Reads the next piece, unless the text ends before one. -/
def next (c : Cutter) : Option (List Char) × Cutter :=
  match _hpiece : c.start.skipAll fun x => !c.delims.contains x with
  | (true, stop) => (some (trimEnd stop.extract.1), { c with cursor := stop.extract.2 })
  | (false, here) =>
      match _hdelim : here.acceptAny c.delims with
      | (none, here') => (none, { c with cursor := here' })
      | (some _, behind) =>
          match c.mode with
          | .kept => (some behind.extract.1, { c with cursor := behind.extract.2 })
          | .dropped => next { c with cursor := behind.extract.2 }
termination_by c.cursor.pending.length
decreasing_by
  have hstart := Cursor.length_pending_skipAll_le
    (fun x => isBlank x && !c.delims.contains x) c.cursor
  have hhere := Cursor.length_pending_skipAll_le (fun x => !c.delims.contains x) c.start
  rw [_hpiece, Cursor.pending_acceptIf _hdelim, start, Cursor.pending_ignore,
    List.length_cons] at hhere
  simp only [Cursor.extract, Cursor.pending_ignore]
  omega

/-- A cutter gives these pieces, and then stops. -/
inductive Cuts : Cutter → List (List Char) → Prop
  | stop
      {c c' : Cutter}
      (hnext : c.next = (none, c')) :
      Cuts c []
  | piece
      {c c' : Cutter} {piece : List Char} {pieces : List (List Char)}
      (hnext : c.next = (some piece, c'))
      (rest : Cuts c' pieces) :
      Cuts c (piece :: pieces)

end Cutter
end Text
end ChartParsing
