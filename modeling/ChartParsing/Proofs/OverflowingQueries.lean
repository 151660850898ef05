import ChartParsing.Proofs.ForestQueries

/-!
# Queries whose end overflows

A query to a chart is any two words, and its end, which a chart compares with the end of its
sentence, is their sum.  A query that does not lie in the sentence has no cell and no trees, as long
as this sum is a word.  If it is none, the chart breaks off before it compares anything, and so does
a forest that asks it.

**Queries.** `Span.IsQuery` says that both numbers of a query are words, `Span.Outside` that a query
does not lie in the sentence.

**Results.** `outside_unanswered_iff`: a query that does not lie in the sentence is answered with no
cell and no trees exactly if its end is a word.
-/

namespace ChartParsing
namespace Span

variable {n : Nat} {s : Span}

/-- Both numbers of a query are words. -/
structure IsQuery (s : Span) : Prop where
  start_lt : s.start < wordSize
  len_lt : s.len < wordSize

/-- The query is empty, or it ends behind a sentence of `n` tokens. -/
def Outside (n : Nat) (s : Span) : Prop :=
  s.len = 0 ∨ n < s.start + s.len

theorem not_within_iff :
    ¬ s.Within n ↔ s.Outside n := by
  rw [Within, Outside]
  omega

/-- A query without an end is not empty. -/
theorem IsQuery.len_pos
    (hs : s.IsQuery)
    (hword : wordSize ≤ s.start + s.len) :
    0 < s.len := by
  have hstart := hs.start_lt
  omega

end Span

variable {c filled : Chart} {tokens : List String} {n : Nat} {s : Span}

namespace Chart

/-- A query that does not lie in the sentence has no cell, if its end is a word. -/
theorem cell_of_outside
    (hout : s.Outside c.len)
    (hword : s.start + s.len < Span.wordSize) :
    c.cell s = .ok none := by
  rw [cell_eq_ok hword, cell?_eq_none (Span.not_within_iff.mpr hout)]

/-- A query whose end is no word breaks off. -/
theorem cell_of_overflow
    (hs : s.IsQuery)
    (hword : Span.wordSize ≤ s.start + s.len) :
    c.cell s = .error .overflow := by
  rw [cell_eq, if_pos ⟨hs.len_pos hword, hword⟩]

end Chart

/-- A forest breaks off where its chart does, and stays as it was. -/
theorem Forest.collect_of_overflow
    {f : Forest} {abort : Abort}
    (h : f.chart.cell s = .error abort)
    (A : Symbol) :
    f.collect s A = (.error abort, f) := by
  rw [collect, h]

/-- The answers of a filled chart to a query that does not lie in the sentence, whatever its forest
was asked before: there is no cell and no tree exactly if the end of the query is a word, and else
both break off, and the forest stays as it was. -/
theorem outside_unanswered_iff
    (hfill : c.fill tokens = (.ok n, filled))
    (hs : s.IsQuery)
    (hout : s.Outside tokens.length) :
    ∃ f, Forest.ofChart filled = .ok f ∧
      (filled.cell s = .ok none ∧
          (∀ earlier A, ((f.answerAll earlier).2.collect s A).1 = .ok []) ↔
        s.start + s.len < Span.wordSize) ∧
      (Span.wordSize ≤ s.start + s.len →
        filled.cell s = .error .overflow ∧
          ∀ earlier A, (f.answerAll earlier).2.collect s A =
            (.error .overflow, (f.answerAll earlier).2)) := by
  have hfilled := Chart.Filled.of_fill hfill
  obtain ⟨f, hf, rfl, hsound⟩ := Forest.exists_ofChart hfilled
  rw [← hfilled.len_eq] at hout
  refine ⟨f, hf, ⟨?_, ?_⟩, ?_⟩
  · rintro ⟨hcell, -⟩
    by_contra hword
    rw [Chart.cell_of_overflow hs (Nat.not_lt.mp hword)] at hcell
    cases hcell
  · intro hword
    have hcell := Chart.cell_of_outside hout hword
    refine ⟨hcell, fun earlier A => ?_⟩
    have hanswer := Forest.answer_answerAll hsound earlier (.collect s A)
    rw [Chart.plainAnswer, hcell] at hanswer
    have htrees := Chart.treesAt_of_not_within (A := A) (Span.not_within_iff.mpr hout)
    exact hanswer.trans (congrArg Except.ok htrees)
  · intro hword
    have hcell := Chart.cell_of_overflow (c := f.chart) hs hword
    refine ⟨hcell, fun earlier A => Forest.collect_of_overflow ?_ A⟩
    rw [(Forest.answerAll_spec hsound earlier).2.1, hcell]

/-- Of three words, the three tokens that end with the last word have no cell, and those that end
behind it break off. -/
theorem outside_unanswered_binaryTrees :
    ((Chart.empty binaryTreeGrammar).fill ["a", "a", "a"]).1 = .ok 2 ∧
      Span.IsQuery ⟨Span.wordSize - 4, 3⟩ ∧ Span.Outside 3 ⟨Span.wordSize - 4, 3⟩ ∧
      Span.IsQuery ⟨Span.wordSize - 3, 3⟩ ∧ Span.Outside 3 ⟨Span.wordSize - 3, 3⟩ ∧
      ∃ f, Forest.ofChart ((Chart.empty binaryTreeGrammar).fill ["a", "a", "a"]).2 = .ok f ∧
        ((Chart.empty binaryTreeGrammar).fill ["a", "a", "a"]).2.cell ⟨Span.wordSize - 4, 3⟩ =
          .ok none ∧
        ((f.answerAll [.trees]).2.collect ⟨Span.wordSize - 4, 3⟩ ⟨0⟩).1 = .ok [] ∧
        ((Chart.empty binaryTreeGrammar).fill ["a", "a", "a"]).2.cell ⟨Span.wordSize - 3, 3⟩ =
          .error .overflow ∧
        ((f.answerAll [.trees]).2.collect ⟨Span.wordSize - 3, 3⟩ ⟨0⟩).1 = .error .overflow := by
  have hn : ((Chart.empty binaryTreeGrammar).fill ["a", "a", "a"]).1 = .ok 2 := by
    decide +kernel
  have hword : Span.IsQuery ⟨Span.wordSize - 4, 3⟩ := ⟨by decide, by decide⟩
  have hout : Span.Outside 3 ⟨Span.wordSize - 4, 3⟩ := .inr (by decide)
  have hover : Span.IsQuery ⟨Span.wordSize - 3, 3⟩ := ⟨by decide, by decide⟩
  have hout' : Span.Outside 3 ⟨Span.wordSize - 3, 3⟩ := .inr (by decide)
  obtain ⟨f, hf, hanswers, -⟩ := outside_unanswered_iff (Prod.ext hn rfl) hword hout
  obtain ⟨f', hf', -, haborts⟩ := outside_unanswered_iff (Prod.ext hn rfl) hover hout'
  obtain rfl := Except.ok.inj (hf.symm.trans hf')
  obtain ⟨hcell, htrees⟩ := hanswers.mpr (by decide)
  obtain ⟨hcell', htrees'⟩ := haborts (by decide)
  exact ⟨hn, hword, hout, hover, hout', f, hf, hcell, htrees [.trees] ⟨0⟩, hcell',
    congrArg Prod.fst (htrees' [.trees] ⟨0⟩)⟩

/-- A chart of one token breaks off at the query for two tokens from the last word on. -/
theorem not_unanswered_past_last_word :
    ¬ ∀ (c filled : Chart) (tokens : List String) (n : Nat) (s : Span),
      c.fill tokens = (.ok n, filled) → s.IsQuery → s.Outside tokens.length →
        filled.cell s = .ok none ∧
          ∀ f, Forest.ofChart filled = .ok f → ∀ A, (f.collect s A).1 = .ok [] := by
  intro h
  have hn : ((Chart.empty binaryTreeGrammar).fill ["a"]).1 = .ok 1 := by
    decide +kernel
  have hquery : Span.IsQuery ⟨Span.wordSize - 1, 2⟩ := ⟨by decide, by decide⟩
  obtain ⟨hnone, -⟩ := h _ _ _ _ ⟨Span.wordSize - 1, 2⟩ (Prod.ext hn rfl) hquery
    (.inr (by decide))
  rw [Chart.cell_of_overflow hquery (by decide)] at hnone
  cases hnone

end ChartParsing
