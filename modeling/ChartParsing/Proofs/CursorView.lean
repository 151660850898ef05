import ChartParsing.Proofs.QuotedText
import ChartParsing.Text.Cursor
import Mathlib.Data.List.TakeWhile

/-!
# What a cursor stands between

A cursor that is used by its operations stands between the characters that it has read and not
dropped and the text that it has still to read, of which it has buffered some.  `Cursor.view`
makes a cursor of these three, and every operation is an equation between such cursors.  So a
reader that works with a cursor can be followed on plain lists.

**Results.**
* `next_view_cons`, `peek_view`, `acceptIf_view_cons`, `skipAll_view`: how characters are read.
* `setPos_view`, `rewind_view`: going back, or forward again.
* `ignore_view`, `extract_view`: dropping what was read.
* `scanQuoted_of_scan`, `scanQuoted_of_scan_eq_none`: quoted text is read as `Quoted.scan` reads
  it.

A reader that goes on from where another one stopped need not know how much is buffered: it knows
between which two texts its cursor stands (`Cursor.Between`).
-/

namespace ChartParsing
namespace Text
namespace Cursor

/-- The cursor that has read `passed` since it last dropped characters, has `rest` before it, and
has buffered so many characters of it, or all there are. -/
def view (passed rest : List Char) (ahead : Nat) : Cursor :=
  ⟨passed ++ rest.take ahead, passed.length, rest.drop ahead⟩

variable {passed rest content after : List Char} {x : Char}

theorem ofText_eq_view
    (cs : List Char) :
    ofText cs = view [] cs 0 := by
  rfl

@[simp] theorem pos_view
    (passed rest : List Char)
    (ahead : Nat) :
    (view passed rest ahead).pos = passed.length := by
  rfl

/-- Only the characters that there are can be buffered. -/
theorem view_congr
    {ahead ahead' : Nat}
    (passed : List Char)
    (h : min ahead rest.length = min ahead' rest.length) :
    view passed rest ahead = view passed rest ahead' := by
  rw [view, view, List.take_eq_take_iff.mpr h, List.drop_eq_drop_iff.mpr h]

theorem view_nil
    (passed : List Char)
    (ahead : Nat) :
    view passed [] ahead = view passed [] 0 := by
  simp [view]

/-- Going back over characters that were read makes them buffered ones. -/
theorem rewind_view
    (passed again rest : List Char)
    (ahead : Nat) :
    { view (passed ++ again) rest ahead with pos := passed.length } =
      view passed (again ++ rest) (again.length + ahead) := by
  simp [view, List.take_length_add_append, List.drop_length_add_append]

/-! ## Reading characters -/

theorem next_view_nil
    (passed : List Char)
    (ahead : Nat) :
    (view passed [] ahead).next = (none, view passed [] ahead) := by
  simp [view, next]

theorem next_view_cons
    (passed : List Char)
    (x : Char)
    (rest : List Char)
    (ahead : Nat) :
    (view passed (x :: rest) ahead).next = (some x, view (passed ++ [x]) rest (ahead - 1)) := by
  cases ahead <;> simp [view, next]

theorem peek_view
    (passed rest : List Char)
    (ahead : Nat) :
    (view passed rest ahead).peek = (rest.head?, view passed rest (max ahead 1)) := by
  cases rest with
  | nil =>
      rw [peek, next_view_nil, view_nil passed (max ahead 1), ← view_nil passed ahead]
      rfl
  | cons x rest =>
      have hahead : [x].length + (ahead - 1) = max ahead 1 := by
        simp only [List.length_singleton]
        omega
      rw [peek, next_view_cons, pos_view, rewind_view, hahead]
      rfl

theorem acceptIf_view_nil
    (p : Char → Bool)
    (passed : List Char)
    (ahead : Nat) :
    (view passed [] ahead).acceptIf p = (none, view passed [] ahead) := by
  rw [acceptIf, next_view_nil]

theorem acceptIf_view_cons
    (p : Char → Bool)
    (passed : List Char)
    (x : Char)
    (rest : List Char)
    (ahead : Nat) :
    (view passed (x :: rest) ahead).acceptIf p =
      if p x then (some x, view (passed ++ [x]) rest (ahead - 1))
      else (none, view passed (x :: rest) (max ahead 1)) := by
  have hahead : [x].length + (ahead - 1) = max ahead 1 := by
    simp only [List.length_singleton]
    omega
  rw [acceptIf, next_view_cons, pos_view]
  simp only [rewind_view, hahead]
  rfl

theorem skipAll_eq
    (p : Char → Bool)
    (c : Cursor) :
    c.skipAll p =
      match c.acceptIf p with
      | (some _, c') => (true, (c'.skipAll p).2)
      | (none, c') => (false, c') := by
  rw [skipAll]
  split <;> rename_i haccept <;> rw [haccept]

/-- Skipping reads the longest run of accepted characters and looks at the one behind it. -/
theorem skipAll_view
    (p : Char → Bool)
    (passed rest : List Char)
    (ahead : Nat) :
    (view passed rest ahead).skipAll p =
      (!(rest.takeWhile p).isEmpty,
        view (passed ++ rest.takeWhile p) (rest.dropWhile p)
          (max (ahead - (rest.takeWhile p).length) 1)) := by
  induction rest generalizing passed ahead with
  | nil =>
      rw [skipAll_eq, acceptIf_view_nil]
      simp [view]
  | cons x rest ih =>
      rw [skipAll_eq, acceptIf_view_cons]
      by_cases hx : p x = true
      · have hahead : ahead - 1 - (rest.takeWhile p).length =
            ahead - ((rest.takeWhile p).length + 1) := by omega
        simp only [if_pos hx, ih, List.takeWhile_cons_of_pos hx, List.dropWhile_cons_of_pos hx,
          List.append_assoc, List.singleton_append, List.length_cons, hahead]
        rfl
      · simp [hx]

/-! ## Dropping and going back -/

@[simp] theorem ignore_view
    (passed rest : List Char)
    (ahead : Nat) :
    (view passed rest ahead).ignore = view [] rest ahead := by
  simp [view, ignore]

theorem extract_view
    (passed rest : List Char)
    (ahead : Nat) :
    (view passed rest ahead).extract = (passed, view [] rest ahead) := by
  simp [view, extract, ignore]

theorem setPos_view
    (passed rest : List Char)
    (ahead pos : Nat) :
    (view passed rest ahead).setPos pos =
      if pos ≤ passed.length + min ahead rest.length then
        (true, view ((passed ++ rest).take pos) ((passed ++ rest).drop pos)
          (passed.length + ahead - pos))
      else
        (false, view passed rest ahead) := by
  have hlen : (passed ++ rest.take ahead).length = passed.length + min ahead rest.length := by
    simp
  rw [setPos, view, hlen]
  split
  · rename_i hpos
    obtain ⟨more, hmore⟩ := Nat.exists_eq_add_of_le (show pos ≤ passed.length + ahead by omega)
    have htake : ((passed ++ rest).take pos).length = pos := by
      simp only [List.length_take, List.length_append]
      omega
    have hbuffer : passed ++ rest.take ahead =
        (passed ++ rest).take pos ++ ((passed ++ rest).drop pos).take more := by
      rw [← List.take_length_add_append, hmore, List.take_add]
    have hunread : rest.drop ahead = ((passed ++ rest).drop pos).drop more := by
      rw [List.drop_drop, ← hmore, List.drop_length_add_append]
    rw [view, htake, hbuffer, hunread, hmore, Nat.add_sub_cancel_left]
  · rfl

/-! ## Quoted text -/

variable {q : Char}

theorem readBody_eq
    (q : Char)
    (c : Cursor) :
    c.readBody q =
      match c.next with
      | (none, c') => (none, c')
      | (some x, c') =>
          if x = q then
            (some [], c')
          else if x = '\\' then
            match c'.next with
            | (none, c'') => (none, c'')
            | (some e, c'') => ((c''.readBody q).1.map (e :: ·), (c''.readBody q).2)
          else
            ((c'.readBody q).1.map (x :: ·), (c'.readBody q).2) := by
  rw [readBody]
  split <;> rename_i hnext <;> rw [hnext]
  simp only
  split
  · rfl
  · split
    · split <;> rename_i hnext' <;> rw [hnext']
    · rfl

theorem readBody_view_nil
    (q : Char)
    (passed : List Char)
    (ahead : Nat) :
    (view passed [] ahead).readBody q = (none, view passed [] 0) := by
  rw [readBody_eq, next_view_nil, view_nil]

theorem readBody_view_quote
    (q : Char)
    (passed rest : List Char)
    (ahead : Nat) :
    (view passed (q :: rest) ahead).readBody q =
      (some [], view (passed ++ [q]) rest (ahead - 1)) := by
  rw [readBody_eq, next_view_cons]
  exact if_pos rfl

theorem readBody_view_escape
    (hq : '\\' ≠ q)
    (passed : List Char)
    (ahead : Nat) :
    (view passed ['\\'] ahead).readBody q = (none, view (passed ++ ['\\']) [] 0) := by
  rw [readBody_eq, next_view_cons]
  simp only [if_neg hq, next_view_nil, view_nil _ (ahead - 1)]
  rfl

theorem readBody_view_escaped
    (hq : '\\' ≠ q)
    (e : Char)
    (passed rest : List Char)
    (ahead : Nat) :
    (view passed ('\\' :: e :: rest) ahead).readBody q =
      (((view (passed ++ ['\\', e]) rest (ahead - 2)).readBody q).1.map (e :: ·),
        ((view (passed ++ ['\\', e]) rest (ahead - 2)).readBody q).2) := by
  rw [readBody_eq, next_view_cons]
  simp only [if_neg hq, next_view_cons, List.append_assoc, List.singleton_append, Nat.sub_sub]
  rfl

theorem readBody_view_plain
    (hquote : x ≠ q)
    (hslash : x ≠ '\\')
    (passed rest : List Char)
    (ahead : Nat) :
    (view passed (x :: rest) ahead).readBody q =
      (((view (passed ++ [x]) rest (ahead - 1)).readBody q).1.map (x :: ·),
        ((view (passed ++ [x]) rest (ahead - 1)).readBody q).2) := by
  rw [readBody_eq, next_view_cons]
  simp only [if_neg hquote, if_neg hslash]

/-- A body that `Quoted.scanBody` reads is read up to its closing quote. -/
theorem readBody_of_scanBody
    (h : Quoted.scanBody q rest = some (content, after))
    (passed : List Char)
    (ahead : Nat) :
    ∃ body, rest = body ++ after ∧
      (view passed rest ahead).readBody q =
        (some content, view (passed ++ body) after (ahead - body.length)) := by
  fun_induction Quoted.scanBody q rest generalizing content passed ahead with
  | case1 => cases h
  | case2 rest =>
      cases h
      exact ⟨[q], rfl, readBody_view_quote q passed _ ahead⟩
  | case3 => cases h
  | case4 e rest hquote ih =>
      obtain ⟨⟨content', after'⟩, hread, hpair⟩ := Option.map_eq_some_iff.mp h
      cases hpair
      obtain ⟨body, rfl, hbody⟩ := ih hread (passed ++ ['\\', e]) (ahead - 2)
      refine ⟨'\\' :: e :: body, rfl, ?_⟩
      rw [readBody_view_escaped hquote, hbody, Nat.sub_sub, Nat.add_comm 2, List.append_assoc]
      rfl
  | case5 x rest hquote hslash ih =>
      obtain ⟨⟨content', after'⟩, hread, hpair⟩ := Option.map_eq_some_iff.mp h
      cases hpair
      obtain ⟨body, rfl, hbody⟩ := ih hread (passed ++ [x]) (ahead - 1)
      refine ⟨x :: body, rfl, ?_⟩
      rw [readBody_view_plain hquote hslash, hbody, Nat.sub_sub, Nat.add_comm 1,
        List.append_assoc]
      rfl

/-- Where the closing quote is missing, everything is read. -/
theorem readBody_of_scanBody_eq_none
    (h : Quoted.scanBody q rest = none)
    (passed : List Char)
    (ahead : Nat) :
    (view passed rest ahead).readBody q = (none, view (passed ++ rest) [] 0) := by
  fun_induction Quoted.scanBody q rest generalizing passed ahead with
  | case1 => rw [readBody_view_nil, List.append_nil]
  | case2 => cases h
  | case3 hquote => exact readBody_view_escape hquote passed ahead
  | case4 e rest hquote ih =>
      rw [readBody_view_escaped hquote, ih (Option.map_eq_none_iff.mp h), List.append_assoc]
      rfl
  | case5 x rest hquote hslash ih =>
      rw [readBody_view_plain hquote hslash, ih (Option.map_eq_none_iff.mp h), List.append_assoc]
      rfl

/-- Text that `Quoted.scan` reads is read with its quotes. -/
theorem readQuoted_of_scan
    (h : Quoted.scan q rest = some (content, after))
    (passed : List Char)
    (ahead : Nat) :
    ∃ quoted, rest = quoted ++ after ∧
      (view passed rest ahead).readQuoted q =
        (some content, view (passed ++ quoted) after (ahead - quoted.length)) := by
  cases rest with
  | nil => cases h
  | cons x rest =>
      rw [Quoted.scan] at h
      split at h
      · rename_i hx
        obtain ⟨body, rfl, hbody⟩ := readBody_of_scanBody h (passed ++ [x]) (ahead - 1)
        refine ⟨x :: body, rfl, ?_⟩
        rw [readQuoted, accept, acceptIf_view_cons, if_pos (by simpa using hx)]
        simp only [hbody, Nat.sub_sub, Nat.add_comm 1, List.append_assoc]
        rfl
      · cases h

/-- Where no quoted text stands, an opening quote has the rest of the text read. -/
theorem readQuoted_of_scan_eq_none
    (h : Quoted.scan q rest = none)
    (passed : List Char)
    (ahead : Nat) :
    (view passed rest ahead).readQuoted q =
      (none, if rest.head? = some q then view (passed ++ rest) [] 0
        else view passed rest (max ahead 1)) := by
  cases rest with
  | nil =>
      rw [readQuoted, accept, acceptIf_view_nil, view_nil, ← view_nil passed (max ahead 1)]
      rfl
  | cons x rest =>
      rw [Quoted.scan] at h
      by_cases hx : x = q
      · rw [if_pos hx] at h
        rw [readQuoted, accept, acceptIf_view_cons, if_pos (by simpa using hx),
          List.head?_cons, if_pos (congrArg some hx)]
        simp only [readBody_of_scanBody_eq_none h, List.append_assoc]
        rfl
      · rw [readQuoted, accept, acceptIf_view_cons, if_neg (by simpa using hx),
          List.head?_cons, if_neg (by simpa using hx)]

theorem scanQuoted_of_scan
    (h : Quoted.scan q rest = some (content, after))
    (passed : List Char)
    (ahead : Nat) :
    ∃ quoted, rest = quoted ++ after ∧
      (view passed rest ahead).scanQuoted q =
        (some content, view [] after (ahead - quoted.length)) := by
  obtain ⟨quoted, hrest, hread⟩ := readQuoted_of_scan h passed ahead
  refine ⟨quoted, hrest, ?_⟩
  rw [scanQuoted, hread]
  simp only [ignore_view]

theorem scanQuoted_of_scan_eq_none
    (h : Quoted.scan q rest = none)
    (passed : List Char)
    (ahead : Nat) :
    (view passed rest ahead).scanQuoted q =
      (none, view passed rest (if rest.head? = some q then rest.length else max ahead 1)) := by
  rw [scanQuoted, readQuoted_of_scan_eq_none h]
  simp only [pos_view]
  split
  · rw [rewind_view, List.append_nil, Nat.add_zero]
  · rfl

/-! ## Standing between two texts -/

/-- A cursor stands between what it has read since it last dropped characters and the text that
is left. -/
def Between (c : Cursor) (passed rest : List Char) : Prop :=
  ∃ ahead, c = view passed rest ahead

variable {c : Cursor} {again : List Char}

theorem between_ofText
    (cs : List Char) :
    (ofText cs).Between [] cs :=
  ⟨0, ofText_eq_view cs⟩

theorem Between.pos_eq
    (h : c.Between passed rest) :
    c.pos = passed.length := by
  obtain ⟨ahead, rfl⟩ := h
  rfl

theorem Between.pending_eq
    (h : c.Between passed rest) :
    c.pending = rest := by
  obtain ⟨ahead, rfl⟩ := h
  simp [pending, view]

theorem Between.next_cons
    (h : c.Between passed (x :: rest)) :
    ∃ c', c.next = (some x, c') ∧ c'.Between (passed ++ [x]) rest := by
  obtain ⟨ahead, rfl⟩ := h
  exact ⟨_, next_view_cons passed x rest ahead, _, rfl⟩

theorem Between.next_nil
    (h : c.Between passed []) :
    ∃ c', c.next = (none, c') ∧ c'.Between passed [] := by
  obtain ⟨ahead, rfl⟩ := h
  exact ⟨_, next_view_nil passed ahead, _, rfl⟩

theorem Between.peek
    (h : c.Between passed rest) :
    c.peek.1 = rest.head? ∧ c.peek.2.Between passed rest := by
  obtain ⟨ahead, rfl⟩ := h
  rw [peek_view]
  exact ⟨rfl, _, rfl⟩

theorem Between.accept_cons
    (h : c.Between passed (x :: rest)) :
    ∃ c', c.accept x = (some x, c') ∧ c'.Between (passed ++ [x]) rest := by
  obtain ⟨ahead, rfl⟩ := h
  have haccept : (view passed (x :: rest) ahead).accept x =
      (some x, view (passed ++ [x]) rest (ahead - 1)) := by
    rw [accept, acceptIf_view_cons, if_pos (beq_self_eq_true x)]
  exact ⟨_, haccept, _, rfl⟩

theorem Between.accept_of_head?_ne
    (h : c.Between passed rest)
    (hx : rest.head? ≠ some x) :
    ∃ c', c.accept x = (none, c') ∧ c'.Between passed rest := by
  obtain ⟨ahead, rfl⟩ := h
  cases rest with
  | nil => exact ⟨_, acceptIf_view_nil _ passed ahead, _, rfl⟩
  | cons y rest =>
      have haccept : (view passed (y :: rest) ahead).accept x =
          (none, view passed (y :: rest) (max ahead 1)) := by
        rw [accept, acceptIf_view_cons, if_neg (by simpa using hx)]
      exact ⟨_, haccept, _, rfl⟩

theorem Between.acceptIf_nil
    (h : c.Between passed [])
    (p : Char → Bool) :
    ∃ c', c.acceptIf p = (none, c') ∧ c'.Between passed [] := by
  obtain ⟨ahead, rfl⟩ := h
  exact ⟨_, acceptIf_view_nil p passed ahead, _, rfl⟩

theorem Between.acceptIf_cons
    {p : Char → Bool}
    (h : c.Between passed (x :: rest))
    (hx : p x = true) :
    ∃ c', c.acceptIf p = (some x, c') ∧ c'.Between (passed ++ [x]) rest := by
  obtain ⟨ahead, rfl⟩ := h
  rw [acceptIf_view_cons, if_pos hx]
  exact ⟨_, rfl, _, rfl⟩

theorem Between.skipAll_fst
    (h : c.Between passed rest)
    (p : Char → Bool) :
    (c.skipAll p).1 = !(rest.takeWhile p).isEmpty := by
  obtain ⟨ahead, rfl⟩ := h
  rw [skipAll_view]

theorem Between.skipAll
    (h : c.Between passed rest)
    (p : Char → Bool) :
    (c.skipAll p).2.Between (passed ++ rest.takeWhile p) (rest.dropWhile p) := by
  obtain ⟨ahead, rfl⟩ := h
  rw [skipAll_view]
  exact ⟨_, rfl⟩

theorem Between.ignore
    (h : c.Between passed rest) :
    c.ignore.Between [] rest := by
  obtain ⟨ahead, rfl⟩ := h
  rw [ignore_view]
  exact ⟨_, rfl⟩

theorem Between.extract
    (h : c.Between passed rest) :
    c.extract.1 = passed ∧ c.extract.2.Between [] rest := by
  obtain ⟨ahead, rfl⟩ := h
  rw [extract_view]
  exact ⟨rfl, _, rfl⟩

theorem Between.extractText
    (h : c.Between passed rest) :
    c.extractText.1 = String.ofList passed ∧ c.extractText.2.Between [] rest := by
  obtain ⟨ahead, rfl⟩ := h
  rw [Cursor.extractText, extract_view]
  exact ⟨rfl, _, rfl⟩

/-- Going back to a position that was saved. -/
theorem Between.setPos
    (h : c.Between (passed ++ again) rest) :
    (c.setPos passed.length).2.Between passed (again ++ rest) := by
  obtain ⟨ahead, rfl⟩ := h
  have hpos : passed.length ≤ (passed ++ again).length + min ahead rest.length := by
    rw [List.length_append]
    omega
  rw [setPos_view, if_pos hpos, List.append_assoc, List.take_left, List.drop_left]
  exact ⟨_, rfl⟩

theorem Between.scanQuoted
    (h : c.Between passed rest)
    (hscan : Quoted.scan q rest = some (content, after)) :
    ∃ c', c.scanQuoted q = (some content, c') ∧ c'.Between [] after := by
  obtain ⟨ahead, rfl⟩ := h
  obtain ⟨quoted, _, hread⟩ := scanQuoted_of_scan hscan passed ahead
  exact ⟨_, hread, _, rfl⟩

theorem Between.scanQuoted_eq_none
    (h : c.Between passed rest)
    (hscan : Quoted.scan q rest = none) :
    ∃ c', c.scanQuoted q = (none, c') ∧ c'.Between passed rest := by
  obtain ⟨ahead, rfl⟩ := h
  exact ⟨_, scanQuoted_of_scan_eq_none hscan passed ahead, _, rfl⟩

end Cursor
end Text
end ChartParsing
