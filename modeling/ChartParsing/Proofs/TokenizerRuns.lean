import ChartParsing.Grammar.Tokenizer
import ChartParsing.Proofs.CursorView
import ChartParsing.Proofs.TokenReading

/-!
# Runs of a tokenizer

A tokenizer works with a cursor, tries one kind of token after the other and goes back after each
attempt that fails.  The tokens that it gives are those of `Token.ofText`, which never goes back.

**Invariant.** Between two tokens the cursor has nothing passed, and before it stands the text that
is left (`Cursor.Between`).  What one reader of the tokenizer does to such a cursor is said by the
function on lists that it agrees with; `readToken_of_next?` is the step of a run.

**Results.** `tokenizes_iff`: a tokenizer stops, and it gives the tokens of its text.
-/

namespace ChartParsing

open Text

namespace Tokenizer

open Cursor

variable {c : Cursor} {passed cs rest : List Char} {x : Char} {token : Token}

theorem beginsArrow_eq
    (h : c.Between passed cs)
    (x : Char) :
    (beginsArrow x c).1 = Token.startsWithArrow (x :: cs) ∧
      (beginsArrow x c).2.Between passed cs := by
  obtain ⟨hpeek, hbetween⟩ := h.peek
  rw [beginsArrow, Token.startsWithArrow_cons]
  by_cases hx : x = '-'
  · rw [if_pos hx, hpeek]
    exact ⟨by simp [hx], hbetween⟩
  · rw [if_neg hx]
    exact ⟨by simp [hx], h⟩

theorem skipName_eq
    (c : Cursor) :
    skipName c =
      match c.next with
      | (none, c') => c'
      | (some x, c') =>
          if (beginsArrow x c').1 || !Token.isNameChar x then
            ((beginsArrow x c').2.setPos c.pos).2
          else
            skipName (beginsArrow x c').2 := by
  rw [skipName]
  split <;> rename_i hnext <;> rw [hnext]

/-- A name is read as far as `Token.spanName` goes. -/
theorem between_skipName
    (h : c.Between passed cs) :
    (skipName c).Between (passed ++ (Token.spanName cs).1) (Token.spanName cs).2 := by
  induction cs generalizing c passed with
  | nil =>
      obtain ⟨c', hnext, hbetween⟩ := h.next_nil
      rw [skipName_eq, hnext, Token.spanName, List.append_nil]
      exact hbetween
  | cons x cs ih =>
      have hpos : c.pos = passed.length := by
        obtain ⟨ahead, rfl⟩ := h
        rfl
      obtain ⟨c', hnext, hread⟩ := h.next_cons
      obtain ⟨harrow, hlooked⟩ := beginsArrow_eq hread x
      rw [skipName_eq, hnext]
      simp only [Token.spanName, hpos, harrow]
      split
      · rw [List.append_nil]
        exact hlooked.setPos
      · simpa using ih hlooked

/-- A name is read where one stands in front, and nothing is dropped where none does. -/
theorem readName_of_spanName
    {name : List Char}
    (h : c.Between [] cs)
    (hname : Token.spanName cs = (name, rest)) :
    ∃ c', readName c = (if name = [] then none else some (String.ofList name), c') ∧
      c'.Between [] rest := by
  have hskip := between_skipName h
  rw [hname] at hskip
  obtain ⟨htext, hbetween⟩ := hskip.extractText
  have hempty : (String.ofList name).isEmpty = true ↔ name = [] := by
    simp [String.isEmpty_iff]
  refine ⟨(skipName c).extractText.2, ?_, hbetween⟩
  simp only [readName, htext, List.nil_append, hempty]

theorem between_skipGap
    (h : c.Between [] cs) :
    (skipGap c).Between [] (Token.skipGap cs) := by
  have hblanks : c.ignoreBlanks.Between [] (cs.dropWhile Token.isInnerBlank) :=
    (h.skipAll _).ignore
  rw [skipGap, Token.skipGap]
  cases hrest : cs.dropWhile Token.isInnerBlank with
  | nil =>
      rw [hrest] at hblanks
      obtain ⟨c', haccept, hbetween⟩ := hblanks.accept_of_head?_ne (x := '#') (by simp)
      rw [haccept]
      exact hbetween
  | cons x text =>
      rw [hrest] at hblanks
      by_cases hx : x = '#'
      · subst hx
        obtain ⟨c', haccept, hbetween⟩ := hblanks.accept_cons
        rw [haccept]
        simp only [if_pos]
        exact (hbetween.skipAll _).ignore
      · have hhead : (x :: text).head? ≠ some '#' := by simpa using hx
        obtain ⟨c', haccept, hbetween⟩ := hblanks.accept_of_head?_ne hhead
        rw [haccept]
        simp only [if_neg hx]
        exact hbetween

theorem acceptArrow_of_startsWithArrow
    (h : c.Between [] (x :: cs))
    (harrow : Token.startsWithArrow (x :: cs) = true) :
    ∃ c', acceptArrow c = (true, c') ∧ c'.Between [] cs.tail := by
  rw [Token.startsWithArrow_cons, Bool.and_eq_true, beq_iff_eq, beq_iff_eq] at harrow
  obtain ⟨rfl, hhead⟩ := harrow
  obtain ⟨rest, rfl⟩ := List.head?_eq_some_iff.mp hhead
  obtain ⟨c₁, hminus, h₁⟩ := h.accept_cons
  obtain ⟨c₂, hgreater, h₂⟩ := h₁.accept_cons
  refine ⟨c₂.ignore, ?_, h₂.ignore⟩
  rw [acceptArrow, hminus]
  simp only [hgreater]

theorem acceptArrow_of_not_startsWithArrow
    (h : c.Between [] (x :: cs))
    (harrow : Token.startsWithArrow (x :: cs) = false) :
    ∃ c', acceptArrow c = (false, c') ∧ c'.Between [] (x :: cs) := by
  rw [Token.startsWithArrow_cons, Bool.and_eq_false_iff] at harrow
  by_cases hx : x = '-'
  · subst hx
    have hhead : cs.head? ≠ some '>' := by simpa using harrow
    have hpos : c.pos = ([] : List Char).length := by
      obtain ⟨ahead, rfl⟩ := h
      rfl
    obtain ⟨c₁, hminus, h₁⟩ := h.accept_cons
    obtain ⟨c₂, hgreater, h₂⟩ := h₁.accept_of_head?_ne hhead
    -- the minus sign alone is given back
    refine ⟨(c₂.setPos c.pos).2, ?_, hpos ▸ Between.setPos h₂⟩
    rw [acceptArrow, hminus]
    simp only [hgreater]
  · obtain ⟨c', haccept, hbetween⟩ := h.accept_of_head?_ne (x := '-') (by simpa using hx)
    refine ⟨c', ?_, hbetween⟩
    rw [acceptArrow, haccept]

theorem readDirective_eq
    (h : c.Between [] cs) :
    ∃ c', readDirective c = ((Token.scan '%' cs).1, c') ∧
      c'.Between [] (Token.scan '%' cs).2 := by
  have harrow : Token.startsWithArrow ('%' :: cs) = false :=
    Token.startsWithArrow_eq_false (by decide) cs
  rcases hname : Token.spanName cs with ⟨name, rest⟩
  obtain ⟨c', hread, hbetween⟩ := readName_of_spanName h hname
  refine ⟨c', ?_⟩
  rw [readDirective, hread, Token.scan, harrow]
  cases name <;> simp [hname, hbetween]

theorem readWord_of_scanWord
    {content : List Char}
    (h : c.Between [] cs)
    (hword : Token.scanWord cs = some (content, rest)) :
    ∃ c', readWord c = (some content, c') ∧ c'.Between [] rest := by
  rcases Option.or_eq_some_iff.mp hword with hsingle | ⟨hsingle, hdouble⟩
  · obtain ⟨c', hscan, hbetween⟩ := h.scanQuoted hsingle
    exact ⟨c', by rw [readWord, hscan], hbetween⟩
  · obtain ⟨c₁, hscan₁, h₁⟩ := h.scanQuoted_eq_none hsingle
    obtain ⟨c₂, hscan₂, h₂⟩ := h₁.scanQuoted hdouble
    exact ⟨c₂, by rw [readWord, hscan₁]; exact hscan₂, h₂⟩

theorem readWord_of_scanWord_eq_none
    (h : c.Between [] cs)
    (hword : Token.scanWord cs = none) :
    ∃ c', readWord c = (none, c') ∧ c'.Between [] cs := by
  obtain ⟨hsingle, hdouble⟩ := Option.or_eq_none_iff.mp hword
  obtain ⟨c₁, hscan₁, h₁⟩ := h.scanQuoted_eq_none hsingle
  obtain ⟨c₂, hscan₂, h₂⟩ := h₁.scanQuoted_eq_none hdouble
  exact ⟨c₂, by rw [readWord, hscan₁]; exact hscan₂, h₂⟩

theorem readUnknown_cons
    (h : c.Between [] (x :: cs)) :
    ∃ c', readUnknown c =
        (some (.unknown (String.ofList (x :: cs.takeWhile (· != '\n')))), c') ∧
      c'.Between [] (cs.dropWhile (· != '\n')) := by
  obtain ⟨c₁, hnext, h₁⟩ := h.next_cons
  obtain ⟨htext, hbetween⟩ := (h₁.skipAll (· != '\n')).extractText
  refine ⟨_, ?_, hbetween⟩
  rw [readUnknown, hnext]
  simp only [htext, List.nil_append, List.singleton_append]

theorem readText_cons
    (h : c.Between [] (x :: cs)) :
    ∃ c', readText c = (some (Token.scanText x cs).1, c') ∧
      c'.Between [] (Token.scanText x cs).2 := by
  rw [readText, Token.scanText]
  cases hword : Token.scanWord (x :: cs) with
  | some word =>
      obtain ⟨c₁, hread, h₁⟩ := readWord_of_scanWord h hword
      exact ⟨c₁, by rw [hread], h₁⟩
  | none =>
      obtain ⟨c₁, hread, h₁⟩ := readWord_of_scanWord_eq_none h hword
      rcases hname : Token.spanName (x :: cs) with ⟨name, rest⟩
      obtain ⟨c₂, hreadName, h₂⟩ := readName_of_spanName h₁ hname
      rw [hread]
      simp only [hreadName]
      cases name with
      | nil =>
          -- a text in front of which no name stands is left as it is
          have hrest : rest = x :: cs := by
            rw [Token.spanName] at hname
            split at hname <;> cases hname
            rfl
          subst hrest
          exact readUnknown_cons h₂
      | cons y name => exact ⟨c₂, rfl, h₂⟩

/-- What a tokenizer reads where no gap is in front of it. -/
theorem readToken_cons
    (hgap : (skipGap c).Between [] (x :: cs)) :
    ∃ c', readToken c = (some (Token.scan x cs).1, c') ∧
      c'.Between [] (Token.scan x cs).2 := by
  rw [readToken, Token.scan]
  split_ifs with hnewline hbar harrow hpercent
  · subst hnewline
    obtain ⟨c₁, haccept, h₁⟩ := hgap.accept_cons
    exact ⟨_, by rw [haccept], h₁.ignore⟩
  all_goals
    obtain ⟨c₁, haccept₁, h₁⟩ := hgap.accept_of_head?_ne (x := '\n') (by simpa using hnewline)
    rw [haccept₁]
    simp only
  · subst hbar
    obtain ⟨c₂, haccept, h₂⟩ := h₁.accept_cons
    exact ⟨_, by rw [haccept], h₂.ignore⟩
  all_goals
    obtain ⟨c₂, haccept₂, h₂⟩ := h₁.accept_of_head?_ne (x := '|') (by simpa using hbar)
    rw [haccept₂]
    simp only
  · obtain ⟨c₃, haccept, h₃⟩ := acceptArrow_of_startsWithArrow h₂ harrow
    exact ⟨_, by rw [haccept], h₃⟩
  all_goals
    have harrow' : Token.startsWithArrow (x :: cs) = false := by simpa using harrow
    obtain ⟨c₃, haccept₃, h₃⟩ := acceptArrow_of_not_startsWithArrow h₂ harrow'
    rw [haccept₃]
    simp only
  · subst hpercent
    obtain ⟨c₄, haccept, h₄⟩ := h₃.accept_cons
    obtain ⟨c₅, hread, h₅⟩ := readDirective_eq h₄.ignore
    rw [Token.scan, harrow'] at hread h₅
    exact ⟨c₅, by rw [haccept]; simp only [hread]; rfl, h₅⟩
  · obtain ⟨c₄, haccept, h₄⟩ := h₃.accept_of_head?_ne (x := '%') (by simpa using hpercent)
    rw [haccept]
    exact readText_cons h₄

/-! ## Whole runs -/

/-- One step of a run agrees with one step on lists. -/
theorem readToken_of_next?
    (h : c.Between [] cs)
    (hnext : Token.next? cs = some (token, rest)) :
    ∃ c', readToken c = (some token, c') ∧ c'.Between [] rest := by
  have hgap := between_skipGap h
  rw [Token.next?] at hnext
  split at hnext
  · cases hnext
  · rename_i x text hrest
    rw [hrest] at hgap
    have hread := readToken_cons hgap
    rwa [Option.some.inj hnext] at hread

theorem readToken_of_next?_eq_none
    (h : c.Between [] cs)
    (hnext : Token.next? cs = none) :
    ∃ c', readToken c = (none, c') := by
  have hgap := between_skipGap h
  rw [Token.next?] at hnext
  split at hnext
  · rename_i hrest
    rw [hrest] at hgap
    obtain ⟨c₁, hnewline, h₁⟩ := hgap.accept_of_head?_ne (x := '\n') (by simp)
    obtain ⟨c₂, hbar, h₂⟩ := h₁.accept_of_head?_ne (x := '|') (by simp)
    obtain ⟨c₃, hminus, h₃⟩ := h₂.accept_of_head?_ne (x := '-') (by simp)
    obtain ⟨c₄, hpercent, h₄⟩ := h₃.accept_of_head?_ne (x := '%') (by simp)
    obtain ⟨c₅, hword, h₅⟩ := readWord_of_scanWord_eq_none h₄ rfl
    obtain ⟨c₆, hname, h₆⟩ := readName_of_spanName h₅ rfl
    obtain ⟨c₇, hunknown, -⟩ := h₆.next_nil
    refine ⟨c₇, ?_⟩
    have harrow : acceptArrow c₂ = (false, c₃) := by rw [acceptArrow, hminus]
    have htext : readText c₄ = (none, c₇) := by
      rw [readText, hword]
      simp only [hname, if_pos, readUnknown, hunknown]
    rw [readToken, hnewline]
    simp only [hbar, harrow, hpercent, htext]
  · cases hnext

theorem tokenizes_of_between
    (h : c.Between [] cs) :
    Tokenizes c (Token.ofText cs) := by
  fun_induction Token.ofText cs generalizing c with
  | case1 cs hnext =>
      obtain ⟨c', hread⟩ := readToken_of_next?_eq_none h hnext
      exact .stop hread
  | case2 cs token rest hnext ih =>
      obtain ⟨c', hread, hbetween⟩ := readToken_of_next? h hnext
      exact .token hread (ih hbetween)

/-- A cursor is read in one way only. -/
theorem Tokenizes.unique
    {tokens tokens' : List Token}
    (h : Tokenizes c tokens)
    (h' : Tokenizes c tokens') :
    tokens = tokens' := by
  induction h generalizing tokens' with
  | stop hread =>
      cases h' with
      | stop => rfl
      | token hread' =>
          rw [hread] at hread'
          cases hread'
  | token hread _ ih =>
      cases h' with
      | stop hread' =>
          rw [hread] at hread'
          cases hread'
      | token hread' rest' =>
          rw [hread] at hread'
          cases hread'
          rw [ih rest']

/-- A tokenizer stops on every text, and gives the tokens of the text. -/
theorem tokenizes_iff
    {tokens : List Token} :
    Tokenizes (Cursor.ofText cs) tokens ↔ tokens = Token.ofText cs := by
  have hrun := tokenizes_of_between (between_ofText cs)
  constructor
  · intro h
    exact h.unique hrun
  · rintro rfl
    exact hrun

end Tokenizer
end ChartParsing
