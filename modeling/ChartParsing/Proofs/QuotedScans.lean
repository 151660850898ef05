import ChartParsing.Proofs.CursorRuns

/-!
# Quoted text in front of a cursor

A cursor that is told to scan quoted text reads all of it, or nothing.  Which of both it does can be
seen from the text in front of it: it has to begin with the quote, and to hold it once more, not
counting those behind a backslash.  What the cursor did before, how much of the text it has buffered
and what it has read without dropping it make no difference.

**Texts.** `Quoted.Opens` says without a scanner that a quoted text stands at the front of a text.

**Results.** `Cursor.scanQuoted_reads_or_stays`: after any operations on a cursor, scanning gives the
content of the quoted text in front of it and leaves what follows, or it gives nothing and changes
neither the position nor the text that is left.
-/

namespace ChartParsing
namespace Text

/-- A text begins with a text quoted by `q`, which has the given content and the given rest behind
it. -/
def Quoted.Opens (q : Char) (cs content rest : List Char) : Prop :=
  ∃ body, cs = q :: (body ++ q :: rest) ∧ Quoted.Spells q body content

theorem Quoted.opens_write
    {q : Char}
    (hq : q ≠ '\\')
    (content rest : List Char) :
    Quoted.Opens q (Quoted.write q content ++ rest) content rest :=
  ⟨Quoted.escape q content, by simp [Quoted.write], Quoted.spells_escape hq content⟩

namespace Cursor

open Quoted (Opens)

variable {c : Cursor} {passed rest content after : List Char} {q : Char}

theorem Between.passed_eq
    (h : c.Between passed rest) :
    c.passed = passed := by
  obtain ⟨ahead, rfl⟩ := h
  exact passed_view passed rest ahead

theorem passed_append_pending
    (c : Cursor) :
    c.passed ++ c.pending = c.buffer ++ c.unread := by
  rw [passed, pending, ← List.append_assoc, List.take_append_drop]

/-- After any operations a cursor stands between what it has read and not dropped and what is left,
and with what it has dropped these make up the text. -/
theorem between_performAll
    (input : List Char)
    (operations : List Operation) :
    let c := ((ofText input).performAll operations).2
    c.Between c.passed c.pending ∧
      (ofText input).droppedAll operations ++ (c.passed ++ c.pending) = input := by
  intro c
  obtain ⟨hrun, hvalid, hinput, -, hdropped⟩ :=
    Window.performAll_cursor (Window.valid_ofText input) operations
  rw [Window.cursor_ofText] at hrun hdropped
  have hcursor : c = ((Window.ofText input).performAll operations).2.cursor :=
    congrArg Prod.snd hrun
  have hbetween : c.Between _ _ := ⟨_, hcursor.trans (Window.cursor_eq_view hvalid)⟩
  constructor
  · rwa [hbetween.passed_eq, hbetween.pending_eq]
  · have hwhole := Window.take_append_cursor hvalid
    rw [← hcursor, hinput] at hwhole
    rw [passed_append_pending, hdropped]
    exact hwhole

/-- A quoted text is read with its quotes, and what follows it is left. -/
theorem Between.scanQuoted_of_opens
    (h : c.Between passed rest)
    (hq : q ≠ '\\')
    (hopens : Opens q rest content after) :
    (c.scanQuoted q).1 = some content ∧ (c.scanQuoted q).2.Between [] after := by
  obtain ⟨c', hread, hbetween⟩ := h.scanQuoted ((Quoted.scan_eq_some_iff hq).mpr hopens)
  rw [hread]
  exact ⟨rfl, hbetween⟩

/-- Where no quoted text stands, the cursor stays. -/
theorem Between.scanQuoted_of_not_opens
    (h : c.Between passed rest)
    (hq : q ≠ '\\')
    (hnone : ¬ ∃ content after, Opens q rest content after) :
    (c.scanQuoted q).1 = none ∧ (c.scanQuoted q).2.Between passed rest := by
  have hscan : Quoted.scan q rest = none := by
    by_contra hne
    obtain ⟨⟨content, after⟩, hread⟩ := Option.ne_none_iff_exists'.mp hne
    exact hnone ⟨content, after, (Quoted.scan_eq_some_iff hq).mp hread⟩
  obtain ⟨c', hread, hbetween⟩ := h.scanQuoted_eq_none hscan
  rw [hread]
  exact ⟨rfl, hbetween⟩

/-- Whatever was done with a cursor over a text, it has still to read what is left of the text.
Scanning gives a content exactly if a text quoted by `q` with this content stands there; then the
position is the first one, and what follows the closing quote is left.  Otherwise scanning changes
neither the position, nor what was read and not dropped, nor what is left.  So a content that is
written between quotes is read back, in front of any text. -/
theorem scanQuoted_reads_or_stays
    (input : List Char)
    (operations : List Operation)
    {q : Char}
    (hq : q ≠ '\\') :
    let c := ((ofText input).performAll operations).2
    let read := c.scanQuoted q
    (ofText input).droppedAll operations ++ (c.passed ++ c.pending) = input ∧
      (∀ content, read.1 = some content ↔ ∃ after, Opens q c.pending content after) ∧
      (∀ content after, Opens q c.pending content after →
        read.1 = some content ∧ read.2.pos = 0 ∧ read.2.pending = after) ∧
      (read.1 = none →
        read.2.pos = c.pos ∧ read.2.passed = c.passed ∧ read.2.pending = c.pending) ∧
      ∀ content after, c.pending = Quoted.write q content ++ after →
        read.1 = some content ∧ read.2.pos = 0 ∧ read.2.pending = after := by
  intro c read
  obtain ⟨hbetween, hwhole⟩ := between_performAll input operations
  have hreads (content after : List Char) (hopens : Opens q c.pending content after) :
      read.1 = some content ∧ read.2.pos = 0 ∧ read.2.pending = after := by
    obtain ⟨hcontent, hread⟩ := hbetween.scanQuoted_of_opens hq hopens
    exact ⟨hcontent, hread.pos_eq, hread.pending_eq⟩
  have hstays (hnone : ¬ ∃ content after, Opens q c.pending content after) :
      read.1 = none ∧
        read.2.pos = c.pos ∧ read.2.passed = c.passed ∧ read.2.pending = c.pending := by
    obtain ⟨hcontent, hread⟩ := hbetween.scanQuoted_of_not_opens hq hnone
    exact ⟨hcontent, hread.pos_eq.trans hbetween.pos_eq.symm, hread.passed_eq, hread.pending_eq⟩
  refine ⟨hwhole, ?_, hreads, ?_, ?_⟩
  · intro content
    constructor
    · intro hread
      by_cases hopens : ∃ content after, Opens q c.pending content after
      · obtain ⟨content', after, hopens⟩ := hopens
        have hcontent := hread.symm.trans (hreads content' after hopens).1
        cases hcontent
        exact ⟨after, hopens⟩
      · have hcontent := hread.symm.trans (hstays hopens).1
        cases hcontent
    · rintro ⟨after, hopens⟩
      exact (hreads content after hopens).1
  · intro hread
    refine (hstays ?_).2
    rintro ⟨content, after, hopens⟩
    have hcontent := hread.symm.trans (hreads content after hopens).1
    cases hcontent
  · intro content after hpending
    refine hreads content after ?_
    rw [hpending]
    exact Quoted.opens_write hq content after

/-- A quoted text is read behind a character that was looked at and read before; where its closing
quote is missing, the cursor stays behind that character. -/
theorem scanQuoted_reads_or_stays_behind :
    ('\'' ≠ '\\') ∧
      (let c := ((ofText "x'it\\'s' on".toList).performAll [.peek, .next]).2;
        (c.scanQuoted '\'').1 = some "it's".toList ∧ (c.scanQuoted '\'').2.pos = 0 ∧
          (c.scanQuoted '\'').2.pending = " on".toList) ∧
      (let c := ((ofText "x'it\\'s on".toList).performAll [.peek, .next]).2;
        (c.scanQuoted '\'').1 = none ∧ (c.scanQuoted '\'').2.pos = 1 ∧
          (c.scanQuoted '\'').2.pending = "'it\\'s on".toList) := by
  have hq : '\'' ≠ '\\' := by decide
  refine ⟨hq, ?_, ?_⟩
  · have hread := (scanQuoted_reads_or_stays "x'it\\'s' on".toList [.peek, .next] hq).2.2.2.2
    exact hread "it's".toList " on".toList (by decide +kernel)
  · intro c
    have hstays := scanQuoted_reads_or_stays "x'it\\'s on".toList [.peek, .next] hq
    have hnone : (c.scanQuoted '\'').1 = none := by
      rw [Option.eq_none_iff_forall_ne_some]
      intro content hcontent
      obtain ⟨after, hopens⟩ := (hstays.2.1 content).mp hcontent
      have hscan : Quoted.scan '\'' c.pending = none := by decide +kernel
      rw [(Quoted.scan_eq_some_iff hq).mpr hopens] at hscan
      cases hscan
    obtain ⟨hpos, -, hpending⟩ := hstays.2.2.2.1 hnone
    exact ⟨hnone, hpos, hpending⟩

end Cursor
end Text
end ChartParsing
