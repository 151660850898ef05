import ChartParsing.Chart.Basic
import ChartParsing.Proofs.CellRecurrence

/-!
# Filled charts

A chart that was filled with a sentence holds its words and the cells that the recurrence
between cells demands, whatever it held before.

**Results.**
* `Filled.of_fill`: what a successful filling leaves behind.
* `exists_fill`: filling succeeds for every sentence with a word.
* `Complete.isSome_cell?_iff`: which spans have a cell.
* `cell_eq`: a query is answered with the cell of its span, or breaks off as its end is no word.
-/

namespace ChartParsing
namespace Chart

/-- The cells are those of the sentence. -/
def Complete (c : Chart) : Prop :=
  c.cells = c.grammar.fillCells c.tokens

/-- A chart holds the words of a sentence with its cells, and counts `n` derivations. -/
structure Filled
    (c : Chart)
    (g : Grammar)
    (tokens : List String)
    (n : Nat) : Prop where
  grammar_eq : c.grammar = g
  tokens_eq : c.tokens = tokens
  tokens_ne_nil : tokens ≠ []
  complete : c.Complete
  count?_eq : c.count? = some n

theorem Complete.tabulates
    {c : Chart}
    (hc : c.Complete) :
    c.grammar.Tabulates c.tokens (cellAt? c.len c.cells) := by
  rw [hc]
  exact Grammar.tabulates_fillCells c.grammar c.tokens

theorem cell?_eq_none
    {c : Chart} {s : Span}
    (hs : ¬ s.Within c.len) :
    c.cell? s = none := by
  rw [cell?, cellAt?, if_neg hs]

/-- A query breaks off if it is not empty and its end is no word, and else it is answered with the
cell of its span. -/
theorem cell_eq
    (c : Chart)
    (s : Span) :
    c.cell s =
      if 0 < s.len ∧ Span.wordSize ≤ s.start + s.len then .error .overflow
      else .ok (c.cell? s) := by
  by_cases hlen : s.len = 0
  · have hout : ¬ s.Within c.len := fun hs => absurd hlen hs.1.ne'
    have hanswered : ¬ (0 < s.len ∧ Span.wordSize ≤ s.start + s.len) :=
      fun h => absurd hlen h.1.ne'
    rw [cell, if_pos hlen, if_neg hanswered, cell?_eq_none hout]
  · have hpos : 0 < s.len := Nat.pos_of_ne_zero hlen
    rw [cell, if_neg hlen, Span.stop, Span.addWords]
    by_cases hword : s.start + s.len < Span.wordSize
    · rw [if_pos hword, if_neg fun h => absurd hword (Nat.not_lt.mpr h.2)]
      by_cases hend : c.len < s.start + s.len
      · have hout : ¬ s.Within c.len := fun hs => absurd hs.2 (Nat.not_le.mpr hend)
        rw [cell?_eq_none hout]
        exact congrArg _ (if_pos hend)
      · rw [cell?, cellAt?, if_pos ⟨hpos, Nat.not_lt.mp hend⟩]
        exact congrArg _ (if_neg hend)
    · rw [if_neg hword, if_pos ⟨hpos, Nat.not_lt.mp hword⟩]
      rfl

theorem cell_eq_ok
    {c : Chart} {s : Span}
    (hword : s.start + s.len < Span.wordSize) :
    c.cell s = .ok (c.cell? s) := by
  rw [cell_eq, if_neg fun h => absurd hword (Nat.not_lt.mpr h.2)]

/-- In a complete chart every span of the sentence has a cell. -/
theorem Complete.exists_cell
    {c : Chart} {s : Span}
    (hc : c.Complete)
    (hs : s.Within c.len) :
    ∃ cell, cellAt? c.len c.cells s = some cell :=
  ⟨_, hc.tabulates s hs⟩

/-- A complete chart has cells for the spans of the sentence alone. -/
theorem Complete.isSome_cell?_iff
    {c : Chart} {s : Span}
    (hc : c.Complete) :
    (c.cell? s).isSome ↔ s.Within c.len := by
  by_cases hs : s.Within c.len
  · obtain ⟨cell, hcell⟩ := hc.exists_cell hs
    rw [cell?, hcell]
    exact iff_of_true rfl hs
  · rw [cell?_eq_none hs]
    exact iff_of_false Bool.false_ne_true hs

namespace Filled

variable {c filled : Chart} {g : Grammar} {tokens : List String} {n : Nat}

theorem len_eq
    (h : filled.Filled g tokens n) :
    filled.len = tokens.length := by
  rw [len, h.tokens_eq]

theorem root_within
    (h : filled.Filled g tokens n) :
    filled.root.Within filled.len := by
  refine Span.whole_within ?_
  rw [h.len_eq]
  exact List.length_pos_iff.mpr h.tokens_ne_nil

/-- The count of a filled chart is that of the start symbol in the cell of the sentence. -/
theorem exists_root_cell
    (h : filled.Filled g tokens n) :
    ∃ cell, filled.cell? filled.root = some cell ∧ cell.count g.start = n := by
  have hcount := h.count?_eq
  rw [count?, Option.map_eq_some_iff, h.grammar_eq] at hcount
  exact hcount

theorem isFilled_eq_true
    (h : filled.Filled g tokens n) :
    filled.isFilled = true := by
  obtain ⟨cell, hcell⟩ := h.complete.exists_cell h.root_within
  rw [isFilled, Bool.not_eq_true']
  by_contra hempty
  have hnil : filled.cells = #[] := by
    simpa using hempty
  rw [cellAt?, if_pos h.root_within, hnil] at hcell
  cases hcell

/-- A complete chart of a sentence with a word counts its derivations. -/
theorem of_complete
    (hc : c.Complete)
    (hne : c.tokens ≠ []) :
    ∃ n, c.Filled c.grammar c.tokens n := by
  have hroot : c.root.Within c.len :=
    Span.whole_within (List.length_pos_iff.mpr hne)
  obtain ⟨cell, hcell⟩ := hc.exists_cell hroot
  have hcount : c.count? = some (cell.count c.grammar.start) := by
    rw [count?, cell?, hcell]
    rfl
  exact ⟨_, rfl, rfl, hne, hc, hcount⟩

/-- What a successful filling leaves behind. -/
theorem of_fill
    (h : c.fill tokens = (.ok n, filled)) :
    filled.Filled c.grammar tokens n := by
  unfold fill at h
  split at h
  · cases h
  · rename_i hne
    cases h
    obtain ⟨m, hm⟩ := of_complete (c := ⟨c.grammar, tokens, c.grammar.fillCells tokens⟩) rfl
      (by simpa using hne)
    simpa only [hm.count?_eq, Option.getD_some] using hm

end Filled

/-- Filling succeeds for every sentence with a word. -/
theorem exists_fill
    (c : Chart)
    {tokens : List String}
    (hne : tokens ≠ []) :
    ∃ n filled, c.fill tokens = (.ok n, filled) := by
  refine ⟨_, _, if_neg ?_⟩
  simpa using hne

end Chart
end ChartParsing
