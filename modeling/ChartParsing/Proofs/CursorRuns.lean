import ChartParsing.Proofs.CursorView
import ChartParsing.Text.Window

/-!
# Runs of a cursor

A cursor copies characters from its text into a buffer and drops them again.  None of that can be
seen: whatever is done with it, it answers as a window of its text does, which copies nothing.

**Refinement.** `Window.cursor` is the cursor that a window stands for: its buffer is the text
between base and high-water mark.  One operation on it gives the answer of the window and the
cursor of the next window (`perform_cursor`), and so do any number of them
(`performAll_cursor`, by induction on the operations).

**Results.** `performAll_refines_window`: after any operations on a cursor, its buffer is the
stretch of the text between base and high-water mark, its position lies in it, and the characters
dropped so far, the buffer and the unread text make up the whole text.
-/

namespace ChartParsing
namespace Text

namespace Cursor

/-- What can be done with a cursor. -/
inductive Operation
  | next
  | peek
  | current
  | setPos (pos : Nat)
  | ignore
  | extract
  | extractText
  | accept (what : Char)
  | acceptAny (any : List Char)
  | acceptIf (p : Char → Bool)
  | skipAll (p : Char → Bool)
  | ignoreBlanks
  | scanQuoted (q : Char)

/-- What an operation answers. -/
inductive Answer
  | done
  | character (x? : Option Char)
  | flag (b : Bool)
  | characters (list : List Char)
  | text (s : String)
  | content (list? : Option (List Char))
  deriving DecidableEq, Repr

/-- Does one operation. -/
def perform (c : Cursor) : Operation → Answer × Cursor
  | .next => (.character c.next.1, c.next.2)
  | .peek => (.character c.peek.1, c.peek.2)
  | .current => (.character c.current?, c)
  | .setPos pos => (.flag (c.setPos pos).1, (c.setPos pos).2)
  | .ignore => (.done, c.ignore)
  | .extract => (.characters c.extract.1, c.extract.2)
  | .extractText => (.text c.extractText.1, c.extractText.2)
  | .accept what => (.character (c.accept what).1, (c.accept what).2)
  | .acceptAny any => (.character (c.acceptAny any).1, (c.acceptAny any).2)
  | .acceptIf p => (.character (c.acceptIf p).1, (c.acceptIf p).2)
  | .skipAll p => (.flag (c.skipAll p).1, (c.skipAll p).2)
  | .ignoreBlanks => (.done, c.ignoreBlanks)
  | .scanQuoted q => (.content (c.scanQuoted q).1, (c.scanQuoted q).2)

/-- The characters read and not dropped. -/
def passed (c : Cursor) : List Char :=
  c.buffer.take c.pos

@[simp] theorem passed_view
    (passed rest : List Char)
    (ahead : Nat) :
    (view passed rest ahead).passed = passed := by
  simp [Cursor.passed, view]

/-- The characters that an operation takes out of the buffer for good. -/
def dropped (c : Cursor) : Operation → List Char
  | .ignore | .extract | .extractText => c.passed
  | .ignoreBlanks => (c.skipAll fun x => isBlank x && x != '\n').2.passed
  | .scanQuoted q =>
      match c.readQuoted q with
      | (some _, c') => c'.passed
      | (none, _) => []
  | _ => []

/-- Does operations in order. -/
def performAll (c : Cursor) : List Operation → List Answer × Cursor
  | [] => ([], c)
  | operation :: rest =>
      let first := c.perform operation
      let later := first.2.performAll rest
      (first.1 :: later.1, later.2)

/-- The characters that operations take out of the buffer for good. -/
def droppedAll (c : Cursor) : List Operation → List Char
  | [] => []
  | operation :: rest => c.dropped operation ++ (c.perform operation).2.droppedAll rest

end Cursor

namespace Window

/-- Does one operation. -/
def perform (w : Window) : Cursor.Operation → Cursor.Answer × Window
  | .next => (.character w.next.1, w.next.2)
  | .peek => (.character w.peek.1, w.peek.2)
  | .current => (.character w.current?, w)
  | .setPos pos => (.flag (w.setPos pos).1, (w.setPos pos).2)
  | .ignore => (.done, w.ignore)
  | .extract => (.characters w.extract.1, w.extract.2)
  | .extractText => (.text (String.ofList w.extract.1), w.extract.2)
  | .accept what => (.character (w.acceptIf (· == what)).1, (w.acceptIf (· == what)).2)
  | .acceptAny any => (.character (w.acceptIf any.contains).1, (w.acceptIf any.contains).2)
  | .acceptIf p => (.character (w.acceptIf p).1, (w.acceptIf p).2)
  | .skipAll p => (.flag (w.skipAll p).1, (w.skipAll p).2)
  | .ignoreBlanks => (.done, w.ignoreBlanks)
  | .scanQuoted q => (.content (w.scanQuoted q).1, (w.scanQuoted q).2)

/-- Does operations in order. -/
def performAll (w : Window) : List Cursor.Operation → List Cursor.Answer × Window
  | [] => ([], w)
  | operation :: rest =>
      let first := w.perform operation
      let later := first.2.performAll rest
      (first.1 :: later.1, later.2)

/-- The marks of a window are in order and lie in its text. -/
structure Valid (w : Window) : Prop where
  here_le : w.here ≤ w.high
  high_le : w.high ≤ w.input.length

/-- The cursor that a window stands for. -/
def cursor (w : Window) : Cursor :=
  ⟨w.input.extract w.base w.high, w.pos, w.input.drop w.high⟩

variable {w : Window} {p : Char → Bool} {x : Char} {rest : List Char}

/-! ## Stretches of a text -/

theorem extract_self
    {input : List Char}
    (a : Nat) :
    input.extract a a = [] := by
  rw [List.extract_eq_take_drop, Nat.sub_self, List.take_zero]

/-- Neighbouring stretches of a text make one. -/
theorem extract_append_extract
    {input : List Char} {a b c : Nat}
    (hab : a ≤ b)
    (hbc : b ≤ c) :
    input.extract a b ++ input.extract b c = input.extract a c := by
  have hlen : c - a = b - a + (c - b) := by omega
  rw [List.extract_eq_take_drop, List.extract_eq_take_drop, List.extract_eq_take_drop, hlen,
    List.take_add, List.drop_drop, Nat.add_sub_cancel' hab]

/-! ## Windows and their cursors -/

theorem valid_ofText
    (input : List Char) :
    (ofText input).Valid :=
  ⟨Nat.le_refl 0, Nat.zero_le _⟩

theorem cursor_ofText
    (input : List Char) :
    (ofText input).cursor = Cursor.ofText input := by
  rfl

theorem length_rest
    (w : Window) :
    w.rest.length = w.input.length - w.here := by
  rw [Window.rest, List.length_drop]

theorem here_sub_base
    (w : Window) :
    w.here - w.base = w.pos :=
  Nat.add_sub_cancel_left ..

/-- Moving on by some characters moves them from the rest to those passed. -/
theorem extract_append_take
    (w : Window)
    (k : Nat) :
    w.input.extract w.base w.here ++ w.rest.take k = w.input.extract w.base (w.here + k) := by
  have hmore : w.here + k - w.base = w.pos + k := by
    rw [here]
    omega
  rw [List.extract_eq_take_drop, List.extract_eq_take_drop, here_sub_base, hmore, List.take_add,
    List.drop_drop]
  rfl

theorem length_extract
    (hw : w.Valid) :
    (w.input.extract w.base w.here).length = w.pos := by
  have hhere := hw.here_le.trans hw.high_le
  rw [List.extract_eq_take_drop, here_sub_base, List.length_take, List.length_drop]
  rw [here] at hhere
  omega

/-- The cursor of a window stands between what was passed and the rest. -/
theorem cursor_eq_view
    (hw : w.Valid) :
    w.cursor = Cursor.view (w.input.extract w.base w.here) w.rest (w.high - w.here) := by
  have hhigh := Nat.add_sub_cancel' hw.here_le
  rw [Cursor.view, extract_append_take, length_extract hw, hhigh, Window.rest, List.drop_drop,
    hhigh]
  rfl

/-- A cursor that stands between what a window has passed and its rest, with as many characters
buffered, is the cursor of the window. -/
theorem view_eq_cursor
    {passed rest : List Char} {ahead : Nat}
    (hw : w.Valid)
    (hpassed : passed = w.input.extract w.base w.here)
    (hrest : rest = w.rest)
    (hahead : min ahead w.rest.length = min (w.high - w.here) w.rest.length) :
    Cursor.view passed rest ahead = w.cursor := by
  rw [cursor_eq_view hw, hpassed, hrest, Cursor.view_congr _ hahead]

/-- Looking at a place keeps the marks in order. -/
theorem Valid.look
    (hw : w.Valid)
    (place : Nat) :
    (w.look place).Valid where
  here_le := hw.here_le.trans (Nat.le_max_left ..)
  high_le := max_le hw.high_le (Nat.min_le_right ..)

/-- A cursor that reads on by some characters is the cursor of the window that moves on. -/
theorem view_move
    {run after : List Char}
    (hrest : w.rest = run ++ after)
    (ahead high : Nat)
    (hhigh : w.here + run.length ≤ high)
    (hle : high ≤ w.input.length)
    (hahead : min ahead after.length = min (high - (w.here + run.length)) after.length) :
    Cursor.view (w.input.extract w.base w.here ++ run) after ahead =
        cursor { w with pos := w.pos + run.length, high := high } ∧
      Valid { w with pos := w.pos + run.length, high := high } := by
  have hmoved : Valid { w with pos := w.pos + run.length, high := high } := by
    refine ⟨?_, hle⟩
    rwa [here, Nat.add_assoc] at hhigh
  have hafter : after = Window.rest { w with pos := w.pos + run.length, high := high } := by
    rw [Window.rest, here, ← Nat.add_assoc, ← List.drop_drop]
    change after = w.rest.drop run.length
    rw [hrest, List.drop_left]
  refine ⟨view_eq_cursor hmoved ?_ hafter ?_, hmoved⟩
  · have hrun : run = w.rest.take run.length := by rw [hrest, List.take_left]
    conv_lhs => rw [hrun, extract_append_take, here, Nat.add_assoc]
    rfl
  · rw [← hafter, hahead, here, Nat.add_assoc]
    rfl

/-- Dropping what was passed moves the base. -/
theorem ignore_cursor
    (hw : w.Valid) :
    w.cursor.ignore = w.ignore.cursor ∧ w.ignore.Valid := by
  have hignore : w.ignore.Valid := ⟨hw.here_le, hw.high_le⟩
  refine ⟨?_, hignore⟩
  rw [cursor_eq_view hw, Cursor.ignore_view]
  refine view_eq_cursor hignore ?_ rfl rfl
  rw [List.extract_eq_take_drop, here_sub_base]
  rfl

/-! ## Operations one by one -/

theorem getElem?_here
    (w : Window) :
    w.input[w.here]? = w.rest.head? := by
  rw [Window.rest, List.head?_drop]

/-- At the end of the text there is nothing more to look at. -/
theorem look_here_eq_self
    (hw : w.Valid)
    (h : w.input[w.here]? = none) :
    w.look w.here = w := by
  have hend := List.getElem?_eq_none_iff.mp h
  have hhere := hw.here_le
  have hhigh := hw.high_le
  have hmax : max w.high (min (w.here + 1) w.input.length) = w.high := by omega
  rw [look, hmax]

theorem next_cursor
    (hw : w.Valid) :
    w.cursor.next = (w.next.1, w.next.2.cursor) ∧ w.next.2.Valid := by
  have hcursor := cursor_eq_view hw
  rw [next, getElem?_here]
  cases hrest : w.rest with
  | nil =>
      rw [hrest] at hcursor
      refine ⟨?_, hw⟩
      rw [hcursor, Cursor.next_view_nil, ← hcursor]
      rfl
  | cons x after =>
      have hlen := congrArg List.length hrest
      rw [length_rest, List.length_cons] at hlen
      have hhigh := hw.high_le
      have hone : w.rest = [x] ++ after := hrest
      obtain ⟨hmove, hvalid⟩ := view_move hone (w.high - w.here - 1)
        (max w.high (min (w.here + 1) w.input.length))
        (by rw [List.length_singleton]; omega) (by omega) (by rw [List.length_singleton]; omega)
      refine ⟨?_, hvalid⟩
      rw [hcursor, hrest, Cursor.next_view_cons, hmove]
      rfl

theorem peek_cursor
    (hw : w.Valid) :
    w.cursor.peek = (w.peek.1, w.peek.2.cursor) ∧ w.peek.2.Valid := by
  refine ⟨?_, hw.look _⟩
  rw [Cursor.peek, (next_cursor hw).1, next, peek]
  cases hnext : w.input[w.here]? with
  | none =>
      rw [look_here_eq_self hw hnext]
  | some x => rfl

theorem acceptIf_cursor
    (hw : w.Valid)
    (p : Char → Bool) :
    w.cursor.acceptIf p = ((w.acceptIf p).1, (w.acceptIf p).2.cursor) ∧
      (w.acceptIf p).2.Valid := by
  obtain ⟨hcursor, hvalid⟩ := next_cursor hw
  rw [Cursor.acceptIf, hcursor, acceptIf]
  cases hnext : w.input[w.here]? with
  | none =>
      rw [next, hnext]
      exact ⟨rfl, hw⟩
  | some x =>
      by_cases hx : p x = true
      · simp only [if_pos hx]
        refine ⟨?_, hvalid⟩
        rw [next, hnext]
        simp only [if_pos hx]
      · simp only [if_neg hx]
        refine ⟨?_, hw.look _⟩
        rw [next, hnext]
        simp only [if_neg hx]
        rfl

/-- The buffer holds the text between base and high-water mark. -/
theorem length_buffer_cursor
    (hw : w.Valid) :
    w.cursor.buffer.length = w.high - w.base := by
  have hhigh := hw.high_le
  rw [cursor, List.extract_eq_take_drop, List.length_take, List.length_drop]
  omega

theorem current?_cursor
    (hw : w.Valid) :
    w.cursor.current? = w.current? := by
  have hhere := hw.here_le
  rw [Cursor.current?, current?]
  by_cases hpos : w.pos = 0
  · rw [if_pos hpos]
    exact if_pos hpos
  · rw [if_neg hpos]
    refine (if_neg hpos).trans ?_
    have hlt : w.pos - 1 < w.high - w.base := by
      rw [here] at hhere
      omega
    have hplace : w.base + (w.pos - 1) = w.here - 1 := by
      rw [here]
      omega
    simp only [cursor, List.extract_eq_take_drop]
    rw [List.getElem?_take_of_lt hlt, List.getElem?_drop, hplace]

theorem setPos_cursor
    (hw : w.Valid)
    (pos : Nat) :
    w.cursor.setPos pos = ((w.setPos pos).1, (w.setPos pos).2.cursor) ∧
      (w.setPos pos).2.Valid := by
  have hhere := hw.here_le
  rw [here] at hhere
  rw [Cursor.setPos, setPos, length_buffer_cursor hw]
  split
  · refine ⟨rfl, ?_, hw.high_le⟩
    change w.base + pos ≤ w.high
    omega
  · exact ⟨rfl, hw⟩

theorem extract_cursor
    (hw : w.Valid) :
    w.cursor.extract = (w.extract.1, w.extract.2.cursor) ∧ w.extract.2.Valid := by
  obtain ⟨hcursor, hvalid⟩ := ignore_cursor hw
  refine ⟨?_, hvalid⟩
  rw [extract, ← hcursor, cursor_eq_view hw, Cursor.extract_view, Cursor.ignore_view]

theorem skipAll_cursor
    (hw : w.Valid)
    (p : Char → Bool) :
    w.cursor.skipAll p = ((w.skipAll p).1, (w.skipAll p).2.cursor) ∧
      (w.skipAll p).2.Valid := by
  have hrest := (List.takeWhile_append_dropWhile (p := p) (l := w.rest)).symm
  have hlen := congrArg List.length hrest
  rw [length_rest, List.length_append] at hlen
  have hle := hw.here_le.trans hw.high_le
  have hhigh := hw.high_le
  obtain ⟨hmove, hvalid⟩ := view_move hrest
    (max (w.high - w.here - (w.rest.takeWhile p).length) 1)
    (max w.high (min (w.here + (w.rest.takeWhile p).length + 1) w.input.length))
    (by omega) (by omega) (by omega)
  refine ⟨?_, hvalid⟩
  rw [cursor_eq_view hw, Cursor.skipAll_view, hmove]
  rfl

theorem ignoreBlanks_cursor
    (hw : w.Valid) :
    w.cursor.ignoreBlanks = w.ignoreBlanks.cursor ∧ w.ignoreBlanks.Valid := by
  obtain ⟨hskip, hvalid⟩ := skipAll_cursor hw fun x => isBlank x && x != '\n'
  rw [Cursor.ignoreBlanks, hskip]
  exact ignore_cursor hvalid

/-- Quoted text is read up to the place behind its closing quote. -/
theorem readQuoted_cursor
    {q : Char} {content after : List Char}
    (hw : w.Valid)
    (hscan : Quoted.scan q w.rest = some (content, after)) :
    let stop := w.input.length - after.length
    let moved : Window := { w with pos := stop - w.base, high := max w.high stop }
    w.cursor.readQuoted q = (some content, moved.cursor) ∧ moved.Valid ∧ moved.here = stop := by
  intro stop moved
  obtain ⟨quoted, hrest, hread⟩ := Cursor.readQuoted_of_scan hscan
    (w.input.extract w.base w.here) (w.high - w.here)
  have hlen := congrArg List.length hrest
  rw [length_rest, List.length_append] at hlen
  have hle := hw.here_le.trans hw.high_le
  have hhigh := hw.high_le
  have hstop : stop = w.here + quoted.length := by omega
  obtain ⟨hmove, hvalid⟩ := view_move hrest (w.high - w.here - quoted.length)
    (max w.high stop) (by omega) (by omega) (by omega)
  have hpos : stop - w.base = w.pos + quoted.length := by
    rw [hstop, here]
    omega
  rw [← hpos] at hmove hvalid
  refine ⟨?_, hvalid, ?_⟩
  · rw [cursor_eq_view hw, hread, hmove]
  · change w.base + (stop - w.base) = stop
    rw [here] at hstop
    omega

theorem scanQuoted_cursor
    (hw : w.Valid)
    (q : Char) :
    w.cursor.scanQuoted q = ((w.scanQuoted q).1, (w.scanQuoted q).2.cursor) ∧
      (w.scanQuoted q).2.Valid := by
  rw [scanQuoted]
  cases hscan : Quoted.scan q w.rest with
  | none =>
      have hlook := hw.look (if w.rest.head? = some q then w.input.length else w.here)
      refine ⟨?_, hlook⟩
      rw [cursor_eq_view hw, Cursor.scanQuoted_of_scan_eq_none hscan]
      refine congrArg (Prod.mk _) (view_eq_cursor hlook rfl rfl ?_)
      have hhere := hw.here_le
      have hhigh := hw.high_le
      change min _ w.rest.length =
        min (max w.high (min (_ + 1) w.input.length) - w.here) w.rest.length
      rw [length_rest]
      split <;> omega
  | some read =>
      obtain ⟨content, after⟩ := read
      obtain ⟨hread, hvalid, hstop⟩ := readQuoted_cursor hw hscan
      obtain ⟨hignore, hvalid⟩ := ignore_cursor hvalid
      rw [ignore, hstop] at hignore hvalid
      refine ⟨?_, hvalid⟩
      rw [Cursor.scanQuoted, hread]
      exact congrArg (Prod.mk _) hignore

/-! ## Runs -/

/-- One operation on the cursor of a window answers as the window does and leaves the cursor of
the next window. -/
theorem perform_cursor
    (hw : w.Valid)
    (operation : Cursor.Operation) :
    w.cursor.perform operation =
        ((w.perform operation).1, (w.perform operation).2.cursor) ∧
      (w.perform operation).2.Valid := by
  cases operation with
  | next =>
      obtain ⟨hcursor, hvalid⟩ := next_cursor hw
      exact ⟨by rw [Cursor.perform, hcursor]; rfl, hvalid⟩
  | peek =>
      obtain ⟨hcursor, hvalid⟩ := peek_cursor hw
      exact ⟨by rw [Cursor.perform, hcursor]; rfl, hvalid⟩
  | current => exact ⟨by rw [Cursor.perform, current?_cursor hw]; rfl, hw⟩
  | setPos pos =>
      obtain ⟨hcursor, hvalid⟩ := setPos_cursor hw pos
      exact ⟨by rw [Cursor.perform, hcursor]; rfl, hvalid⟩
  | ignore =>
      obtain ⟨hcursor, hvalid⟩ := ignore_cursor hw
      exact ⟨by rw [Cursor.perform, hcursor]; rfl, hvalid⟩
  | extract =>
      obtain ⟨hcursor, hvalid⟩ := extract_cursor hw
      exact ⟨by rw [Cursor.perform, hcursor]; rfl, hvalid⟩
  | extractText =>
      obtain ⟨hcursor, hvalid⟩ := extract_cursor hw
      exact ⟨by rw [Cursor.perform, Cursor.extractText, hcursor]; rfl, hvalid⟩
  | accept what =>
      obtain ⟨hcursor, hvalid⟩ := acceptIf_cursor hw (· == what)
      exact ⟨by rw [Cursor.perform, Cursor.accept, hcursor]; rfl, hvalid⟩
  | acceptAny any =>
      obtain ⟨hcursor, hvalid⟩ := acceptIf_cursor hw any.contains
      exact ⟨by rw [Cursor.perform, Cursor.acceptAny, hcursor]; rfl, hvalid⟩
  | acceptIf p =>
      obtain ⟨hcursor, hvalid⟩ := acceptIf_cursor hw p
      exact ⟨by rw [Cursor.perform, hcursor]; rfl, hvalid⟩
  | skipAll p =>
      obtain ⟨hcursor, hvalid⟩ := skipAll_cursor hw p
      exact ⟨by rw [Cursor.perform, hcursor]; rfl, hvalid⟩
  | ignoreBlanks =>
      obtain ⟨hcursor, hvalid⟩ := ignoreBlanks_cursor hw
      exact ⟨by rw [Cursor.perform, hcursor]; rfl, hvalid⟩
  | scanQuoted q =>
      obtain ⟨hcursor, hvalid⟩ := scanQuoted_cursor hw q
      exact ⟨by rw [Cursor.perform, hcursor]; rfl, hvalid⟩

theorem input_next
    (w : Window) :
    w.next.2.input = w.input ∧ w.next.2.base = w.base := by
  rw [next]
  split <;> exact ⟨rfl, rfl⟩

theorem input_acceptIf
    (p : Char → Bool)
    (w : Window) :
    (w.acceptIf p).2.input = w.input ∧ (w.acceptIf p).2.base = w.base := by
  rw [acceptIf]
  split
  · split
    · exact input_next w
    · exact ⟨rfl, rfl⟩
  · exact ⟨rfl, rfl⟩

theorem input_setPos
    (pos : Nat)
    (w : Window) :
    (w.setPos pos).2.input = w.input ∧ (w.setPos pos).2.base = w.base := by
  rw [setPos]
  split <;> exact ⟨rfl, rfl⟩

/-- What was read and not dropped lies between the base and the next character. -/
theorem passed_cursor
    (hw : w.Valid) :
    w.cursor.passed = w.input.extract w.base w.here := by
  rw [cursor_eq_view hw, Cursor.passed_view]

/-- A quoted text is dropped with everything read before it, or nothing is. -/
theorem dropped_scanQuoted
    (hw : w.Valid)
    (q : Char) :
    (w.scanQuoted q).2.input = w.input ∧
      w.base ≤ (w.scanQuoted q).2.base ∧
      w.cursor.dropped (.scanQuoted q) = w.input.extract w.base (w.scanQuoted q).2.base := by
  rw [scanQuoted, Cursor.dropped]
  cases hscan : Quoted.scan q w.rest with
  | none =>
      refine ⟨rfl, Nat.le_refl _, ?_⟩
      rw [cursor_eq_view hw, Cursor.readQuoted_of_scan_eq_none hscan]
      exact (extract_self w.base).symm
  | some read =>
      obtain ⟨content, after⟩ := read
      obtain ⟨hread, hvalid, hstop⟩ := readQuoted_cursor hw hscan
      refine ⟨rfl, (Nat.le_add_right w.base _).trans_eq hstop, ?_⟩
      rw [hread]
      simp only [passed_cursor hvalid, hstop]

/-- An operation drops the characters that its window's base moves over. -/
theorem dropped_cursor
    (hw : w.Valid)
    (operation : Cursor.Operation) :
    (w.perform operation).2.input = w.input ∧
      w.base ≤ (w.perform operation).2.base ∧
      w.cursor.dropped operation = w.input.extract w.base (w.perform operation).2.base := by
  -- the base stays, and so nothing is dropped
  have hstay : ∀ w' : Window, w'.input = w.input ∧ w'.base = w.base →
      w'.input = w.input ∧ w.base ≤ w'.base ∧ [] = w.input.extract w.base w'.base := by
    rintro w' ⟨hinput, hbase⟩
    rw [hbase, extract_self]
    exact ⟨hinput, Nat.le_refl _, rfl⟩
  cases operation with
  | next => exact hstay _ (input_next w)
  | peek => exact hstay _ ⟨rfl, rfl⟩
  | current => exact hstay _ ⟨rfl, rfl⟩
  | setPos pos => exact hstay _ (input_setPos pos w)
  | accept what => exact hstay _ (input_acceptIf (· == what) w)
  | acceptAny any => exact hstay _ (input_acceptIf any.contains w)
  | acceptIf p => exact hstay _ (input_acceptIf p w)
  | skipAll p => exact hstay _ ⟨rfl, rfl⟩
  | ignore => exact ⟨rfl, Nat.le_add_right .., passed_cursor hw⟩
  | extract => exact ⟨rfl, Nat.le_add_right .., passed_cursor hw⟩
  | extractText => exact ⟨rfl, Nat.le_add_right .., passed_cursor hw⟩
  | ignoreBlanks =>
      obtain ⟨hskip, hvalid⟩ := skipAll_cursor hw fun x => isBlank x && x != '\n'
      refine ⟨rfl, Nat.le_add_right .., ?_⟩
      rw [Cursor.dropped, hskip, passed_cursor hvalid]
      rfl
  | scanQuoted q => exact dropped_scanQuoted hw q

/-- Any number of operations on the cursor of a window are answered as the window does. -/
theorem performAll_cursor
    (hw : w.Valid)
    (operations : List Cursor.Operation) :
    w.cursor.performAll operations =
        ((w.performAll operations).1, (w.performAll operations).2.cursor) ∧
      (w.performAll operations).2.Valid ∧
      (w.performAll operations).2.input = w.input ∧
      w.base ≤ (w.performAll operations).2.base ∧
      w.cursor.droppedAll operations =
        w.input.extract w.base (w.performAll operations).2.base := by
  induction operations generalizing w with
  | nil =>
      exact ⟨rfl, hw, rfl, Nat.le_refl _, (extract_self w.base).symm⟩
  | cons operation operations ih =>
      obtain ⟨hfirst, hvalid⟩ := perform_cursor hw operation
      obtain ⟨hinput, hbase, hdropped⟩ := dropped_cursor hw operation
      obtain ⟨hlater, hvalid', hinput', hbase', hdropped'⟩ := ih hvalid
      refine ⟨?_, hvalid', hinput'.trans hinput, hbase.trans hbase', ?_⟩
      · rw [Cursor.performAll, hfirst]
        simp only [hlater]
        rfl
      · rw [hinput] at hdropped'
        rw [Cursor.droppedAll, hdropped, hfirst, hdropped']
        exact extract_append_extract hbase hbase'

/-- A cursor shows the stretch of a text that a window marks, with its position. -/
structure Describes
    (w : Window)
    (input : List Char)
    (c : Cursor) : Prop where
  input_eq : w.input = input
  pos_eq : c.pos = w.pos
  pos_le : w.pos ≤ w.high - w.base
  base_le : w.base ≤ w.high
  high_le : w.high ≤ input.length
  buffer_eq : c.buffer = input.extract w.base w.high
  unread_eq : c.unread = input.drop w.high

/-- The marks of a window are those of its cursor. -/
theorem describes_cursor
    (hw : w.Valid) :
    w.Describes w.input w.cursor where
  input_eq := rfl
  pos_eq := rfl
  pos_le := Nat.le_sub_of_add_le' hw.here_le
  base_le := (Nat.le_add_right ..).trans hw.here_le
  high_le := hw.high_le
  buffer_eq := rfl
  unread_eq := rfl

/-- What was dropped, the buffer and the unread text make up the whole text. -/
theorem take_append_cursor
    (hw : w.Valid) :
    w.input.take w.base ++ (w.cursor.buffer ++ w.cursor.unread) = w.input := by
  have hbase : w.base ≤ w.high := (Nat.le_add_right ..).trans hw.here_le
  have hunread : w.input.drop w.high = (w.input.drop w.base).drop (w.high - w.base) := by
    rw [List.drop_drop, Nat.add_sub_cancel' hbase]
  rw [cursor, List.extract_eq_take_drop, hunread, List.take_append_drop, List.take_append_drop]

/-- Whatever is done with a cursor over a text, it answers as a window of the text does, and
shows the stretch that the window marks.  The characters dropped so far are those before the
base; with the buffer and the unread text they make up the whole text. -/
theorem performAll_refines_window
    (input : List Char)
    (operations : List Cursor.Operation) :
    let c := (Cursor.ofText input).performAll operations
    let w := (Window.ofText input).performAll operations
    let dropped := (Cursor.ofText input).droppedAll operations
    c.1 = w.1 ∧
      w.2.Describes input c.2 ∧
      dropped = input.take w.2.base ∧
      dropped ++ (c.2.buffer ++ c.2.unread) = input := by
  intro c w dropped
  obtain ⟨hrun, hvalid, hinput, _, hdropped⟩ := performAll_cursor (valid_ofText input) operations
  rw [cursor_ofText] at hrun hdropped
  have hcursor : c.2 = w.2.cursor := congrArg Prod.snd hrun
  have hdescribes := describes_cursor hvalid
  have hwhole := take_append_cursor hvalid
  rw [hinput] at hdescribes hwhole
  have htake : dropped = input.take w.2.base := hdropped
  rw [hcursor, htake]
  exact ⟨congrArg Prod.fst hrun, hdescribes, rfl, hwhole⟩

end Window
end Text
end ChartParsing
