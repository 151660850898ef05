import ChartParsing.Text.Blank

/-!
# Backtracking cursors

A cursor reads a text from left to right.  Characters taken from the text stay in a buffer
until they are dropped, so that a reader may save its position and go back to it when an
attempt fails.

**Algorithm.** `next` is the only operation that takes characters from the text; the others
are built from it.  An attempt that fails puts the position back and leaves the buffer as
far filled as the attempt looked.

**Results.** A character that is read is the first of the pending ones (`pending_next`), so
a run of accepted characters ends, and so does the reading of quoted text.
-/

namespace ChartParsing
namespace Text

/-- A position in a buffered stretch of text, with the text that is not buffered yet. -/
structure Cursor where
  /-- The characters taken from the text and not dropped. -/
  buffer : List Char
  /-- How many characters of the buffer have been read. -/
  pos : Nat
  /-- The text beyond the buffer. -/
  unread : List Char
  deriving DecidableEq, Repr

namespace Cursor

/-- A cursor before the first character of a text. -/
def ofText (cs : List Char) : Cursor :=
  ⟨[], 0, cs⟩

/-- The characters still to be read. -/
def pending (c : Cursor) : List Char :=
  c.buffer.drop c.pos ++ c.unread

/-- Reads one character. -/
def next (c : Cursor) : Option Char × Cursor :=
  match c.buffer[c.pos]? with
  | some x => (some x, ⟨c.buffer, c.pos + 1, c.unread⟩)
  | none =>
      match c.unread with
      | [] => (none, c)
      | x :: rest => (some x, ⟨c.buffer ++ [x], c.pos + 1, rest⟩)

/-- Goes back, or forward, to a position inside the buffer. -/
def setPos (c : Cursor) (pos : Nat) : Bool × Cursor :=
  if pos ≤ c.buffer.length then (true, { c with pos }) else (false, c)

/-- The character read last, unless none was read since characters were last dropped. -/
def current? (c : Cursor) : Option Char :=
  if c.pos = 0 then none else c.buffer[c.pos - 1]?

/-- The next character, which stays unread. -/
def peek (c : Cursor) : Option Char × Cursor :=
  (c.next.1, { c.next.2 with pos := c.pos })

/-- Drops the characters read so far. -/
def ignore (c : Cursor) : Cursor :=
  ⟨c.buffer.drop c.pos, 0, c.unread⟩

/-- Takes the characters read so far out of the buffer. -/
def extract (c : Cursor) : List Char × Cursor :=
  (c.buffer.take c.pos, c.ignore)

/-- Reads one character of a class, or nothing. -/
def acceptIf (p : Char → Bool) (c : Cursor) : Option Char × Cursor :=
  match c.next with
  | (some x, c') => if p x then (some x, c') else (none, { c' with pos := c.pos })
  | (none, c') => (none, { c' with pos := c.pos })

/-- Reads the given character, or nothing. -/
def accept (what : Char) (c : Cursor) : Option Char × Cursor :=
  c.acceptIf (· == what)

/-- Reads one of the given characters, or nothing. -/
def acceptAny (any : List Char) (c : Cursor) : Option Char × Cursor :=
  c.acceptIf any.contains

theorem pending_next
    {c c' : Cursor} {x : Char}
    (h : c.next = (some x, c')) :
    c.pending = x :: c'.pending := by
  unfold next at h
  split at h
  · rename_i y hy
    obtain ⟨hlt, hget⟩ := List.getElem?_eq_some_iff.mp hy
    cases h
    simp [pending, List.drop_eq_getElem_cons hlt, hget]
  · rename_i hnone
    have hle := List.getElem?_eq_none_iff.mp hnone
    split at h
    · simp at h
    · rename_i y rest hunread
      cases h
      simp [pending, hunread, List.drop_eq_nil_of_le hle]
      omega

theorem pending_acceptIf
    {p : Char → Bool} {c c' : Cursor} {x : Char}
    (h : c.acceptIf p = (some x, c')) :
    c.pending = x :: c'.pending := by
  unfold acceptIf at h
  split at h
  · rename_i y d hnext
    split at h
    · cases h
      exact pending_next hnext
    · simp at h
  · simp at h

/-- Looking ahead only moves characters into the buffer. -/
theorem length_pending_peek_le
    (c : Cursor) :
    c.peek.2.pending.length ≤ c.pending.length := by
  simp only [peek, next, pending]
  split
  · exact Nat.le_refl _
  · rename_i hnone
    have hle := List.getElem?_eq_none_iff.mp hnone
    split
    · exact Nat.le_refl _
    · rename_i hunread
      simp only [hunread, List.length_append, List.length_drop, List.length_cons,
        List.length_nil]
      omega

theorem length_pending_acceptIf_le
    (p : Char → Bool)
    (c : Cursor) :
    (c.acceptIf p).2.pending.length ≤ c.pending.length := by
  have hpeek := length_pending_peek_le c
  unfold peek at hpeek
  unfold acceptIf
  split
  · rename_i x c' hnext
    rw [hnext] at hpeek
    split
    · rw [pending_next hnext]
      exact Nat.le_succ _
    · exact hpeek
  · rename_i c' hnext
    rw [hnext] at hpeek
    exact hpeek

@[simp] theorem pending_ignore
    (c : Cursor) :
    c.ignore.pending = c.pending := by
  rfl

/-- Reads the characters of a class up to the first other one, and tells whether there was
any. -/
def skipAll (p : Char → Bool) (c : Cursor) : Bool × Cursor :=
  match _h : c.acceptIf p with
  | (some _, c') => (true, (c'.skipAll p).2)
  | (none, c') => (false, c')
termination_by c.pending.length
decreasing_by
  rw [pending_acceptIf _h]
  exact Nat.lt_succ_self _

theorem length_pending_skipAll_le
    (p : Char → Bool)
    (c : Cursor) :
    (c.skipAll p).2.pending.length ≤ c.pending.length := by
  fun_induction skipAll p c with
  | case1 c x c' haccept ih =>
      rw [pending_acceptIf haccept]
      exact Nat.le_succ_of_le ih
  | case2 c c' haccept =>
      have hle := length_pending_acceptIf_le p c
      rwa [haccept] at hle

/-- Reads blanks other than new-lines and drops everything read so far. -/
def ignoreBlanks (c : Cursor) : Cursor :=
  (c.skipAll fun x => isBlank x && x != '\n').2.ignore

/-- Takes the characters read so far out of the buffer as a text. -/
def extractText (c : Cursor) : String × Cursor :=
  (String.ofList c.extract.1, c.extract.2)

/-- Reads on behind an opening quote `q`, up to and with the closing one, and takes the
character after a backslash as it is.  Without a closing quote the whole text is read. -/
def readBody (q : Char) (c : Cursor) : Option (List Char) × Cursor :=
  match _h : c.next with
  | (none, c') => (none, c')
  | (some x, c') =>
      if x = q then
        (some [], c')
      else if x = '\\' then
        match _h' : c'.next with
        | (none, c'') => (none, c'')
        | (some e, c'') =>
            let read := c''.readBody q
            (read.1.map (e :: ·), read.2)
      else
        let read := c'.readBody q
        (read.1.map (x :: ·), read.2)
termination_by c.pending.length
decreasing_by
  · rw [pending_next _h, pending_next _h', List.length_cons, List.length_cons]
    omega
  · rw [pending_next _h, List.length_cons]
    omega

/-- Reads a text quoted by `q` with its quotes. -/
def readQuoted (q : Char) (c : Cursor) : Option (List Char) × Cursor :=
  match c.accept q with
  | (none, c') => (none, c')
  | (some _, c') => c'.readBody q

/-- Reads a text quoted by `q` and drops everything read so far.  Where no such text stands
the position stays, but an opening quote has been followed to the end of the text. -/
def scanQuoted (q : Char) (c : Cursor) : Option (List Char) × Cursor :=
  match c.readQuoted q with
  | (some content, c') => (some content, c'.ignore)
  | (none, c') => (none, { c' with pos := c.pos })

end Cursor
end Text
end ChartParsing
