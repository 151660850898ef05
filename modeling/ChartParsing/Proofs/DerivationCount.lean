import ChartParsing.Proofs.TreeListing
import Mathlib.Data.Set.Card

/-!
# What the counts of a chart count

A cell speaks about the derivations of the grammar, which are defined without any chart: it
lists the symbols that have a derivation with the words of the span at its leaves, and counts
these derivations.

**Results.** `fill_counts_derivations`: that holds of every cell of every filled chart, except
that the cell of the whole sentence leaves out all symbols but the start symbol; and filling
reports the number of derivations of the sentence from the start symbol.
-/

namespace ChartParsing

/-- The derivations from a symbol that have the given words at their leaves. -/
def Grammar.derivations
    (g : Grammar)
    (A : Symbol)
    (words : List String) : Set Tree :=
  {t | Derives g A t ∧ t.words = words}

/-- A cell lists the symbols that it counts, once each, and counts the derivations of some
words; it does not count symbols that are not kept. -/
structure Cell.CountsDerivations
    (cell : Cell)
    (g : Grammar)
    (words : List String)
    (kept : Symbol → Prop) : Prop where
  nodup_symbols : cell.symbols.Nodup
  mem_symbols_iff : ∀ A, A ∈ cell.symbols ↔ cell.count A ≠ 0
  encard_derivations : ∀ A, kept A → (g.derivations A words).encard = cell.count A
  count_eq_zero : ∀ A, ¬ kept A → cell.count A = 0

namespace Chart

variable {c : Chart} {s : Span} {cell : Cell}

/-- The symbols that a cell lists are those that it counts. -/
theorem mem_symbols_iff_count_ne_zero
    (hc : c.Complete)
    (hs : s.Within c.len)
    (hcell : cellAt? c.len c.cells s = some cell)
    (A : Symbol) :
    A ∈ cell.symbols ↔ cell.count A ≠ 0 := by
  rw [← Cell.isSome_derivations?_iff]
  constructor
  · intro hsome
    obtain ⟨m, hm⟩ := Option.isSome_iff_exists.mp hsome
    have hpos := hc.tabulates.pos_of_derivations? hs hcell hm
    rw [Cell.count, hm]
    exact Nat.ne_of_gt hpos
  · intro hcount
    obtain ⟨m, hm⟩ := Cell.exists_of_count_ne_zero hcount
    rw [hm]
    rfl

/-- The derivations of the words of a span are as many as its cell counts. -/
theorem encard_derivations
    (hc : c.Complete)
    (hg : c.grammar.WellFormed)
    (hs : s.Within c.len)
    (hcell : cellAt? c.len c.cells s = some cell)
    {A : Symbol}
    (hkeep : c.grammar.keeps c.len s A = true) :
    (c.grammar.derivations A (s.words c.tokens)).encard = cell.count A := by
  have hset : c.grammar.derivations A (s.words c.tokens) = ↑(c.treesAt s A).toFinset := by
    ext t
    rw [List.coe_toFinset, Set.mem_ofPred_eq, mem_treesAt_iff hc hg hs]
    exact (and_iff_right hkeep).symm
  rw [hset, Set.encard_coe_eq_coe_finsetCard,
    List.toFinset_card_of_nodup (nodup_treesAt hc hg hs A), length_treesAt hc hs hcell]

/-- Symbols that are left out of a cell are not counted. -/
theorem count_eq_zero_of_not_keeps
    (hc : c.Complete)
    (hg : c.grammar.WellFormed)
    (hs : s.Within c.len)
    (hcell : cellAt? c.len c.cells s = some cell)
    {A : Symbol}
    (hkeep : ¬ c.grammar.keeps c.len s A = true) :
    cell.count A = 0 := by
  rw [← length_treesAt hc hs hcell A, List.length_eq_zero_iff, List.eq_nil_iff_forall_not_mem]
  intro t ht
  exact hkeep ((mem_treesAt_iff hc hg hs).mp ht).1

end Chart

/-- Every cell of a filled chart counts the derivations of the words of its span, the cell of
the whole sentence only those from the start symbol, and filling reports their number. -/
theorem fill_counts_derivations
    {declarations : List Declaration} {start : String} {c : Chart}
    (hg : Grammar.ofDeclarations declarations start = .ok c.grammar)
    {tokens : List String}
    (hne : tokens ≠ []) :
    ∃ n filled,
      c.fill tokens = (.ok n, filled) ∧
      filled.count? = some n ∧
      (∃ cell, filled.cell? filled.root = some cell ∧ cell.count c.grammar.start = n) ∧
      ∀ s : Span, s.Within tokens.length →
        ∃ cell, filled.cell? s = some cell ∧
          cell.CountsDerivations c.grammar (s.words tokens)
            (fun A => s ≠ filled.root ∨ A = c.grammar.start) := by
  obtain ⟨n, filled, hfill⟩ := c.exists_fill hne
  have hfilled := Chart.Filled.of_fill hfill
  refine ⟨n, filled, hfill, hfilled.count?_eq, hfilled.exists_root_cell, ?_⟩
  intro s hs
  have hwf := Grammar.WellFormed.of_ofDeclarations hg
  rw [← hfilled.grammar_eq] at hwf ⊢
  rw [← hfilled.len_eq] at hs
  rw [← hfilled.tokens_eq]
  obtain ⟨cell, hcell⟩ := hfilled.complete.exists_cell hs
  have hkeeps : ∀ A, filled.grammar.keeps filled.len s A = true ↔
      (s ≠ filled.root ∨ A = filled.grammar.start) := by
    intro A
    rw [Grammar.keeps_iff, ← Span.eq_whole_iff hs, imp_iff_not_or]
    rfl
  refine ⟨cell, hcell, ?_⟩
  exact
    { nodup_symbols := hfilled.complete.tabulates.nodup_symbols hwf hs hcell
      mem_symbols_iff := Chart.mem_symbols_iff_count_ne_zero hfilled.complete hs hcell
      encard_derivations := fun A hkept =>
        Chart.encard_derivations hfilled.complete hwf hs hcell ((hkeeps A).mpr hkept)
      count_eq_zero := fun A hkept =>
        Chart.count_eq_zero_of_not_keeps hfilled.complete hwf hs hcell
          (fun hkeep => hkept ((hkeeps A).mp hkeep)) }

/-- The grammar of all binary trees over one word. -/
def binaryTreeGrammar : Grammar :=
  .ofRules ["S"] ⟨0⟩ [.binary ⟨⟨0⟩, ⟨0⟩, ⟨0⟩⟩, .lexical ⟨0⟩ "a"]

/-- The declarations of `binaryTreeGrammar`. -/
def binaryTreeDeclarations : List Declaration :=
  [⟨.nonterminal "S", .refused⟩, ⟨.production "S" ["S", "S"], .refused⟩,
    ⟨.lexical "S" "a", .refused⟩]

/-- Four words have five binary trees. -/
theorem fill_counts_binaryTrees :
    Grammar.ofDeclarations binaryTreeDeclarations "S" = .ok binaryTreeGrammar ∧
      ["a", "a", "a", "a"] ≠ ([] : List String) ∧
      (∃ filled, (Chart.empty binaryTreeGrammar).fill ["a", "a", "a", "a"] = (.ok 5, filled)) ∧
      (binaryTreeGrammar.derivations ⟨0⟩ ["a", "a", "a", "a"]).encard = 5 := by
  have hg : Grammar.ofDeclarations binaryTreeDeclarations "S" = .ok binaryTreeGrammar := by
    decide
  have hne : ["a", "a", "a", "a"] ≠ ([] : List String) := by
    decide
  refine ⟨hg, hne, ?_⟩
  obtain ⟨n, filled, hfill, _, ⟨root, hroot, hn⟩, hcells⟩ :=
    fill_counts_derivations (c := Chart.empty binaryTreeGrammar) hg hne
  have hfive : ((Chart.empty binaryTreeGrammar).fill ["a", "a", "a", "a"]).1 = .ok 5 := by
    decide +kernel
  rw [hfill] at hfive
  cases hfive
  have hspan : filled.root = ⟨0, 4⟩ :=
    (congrArg (fun answer => answer.2.root) hfill).symm
  obtain ⟨cell, hcell, hcounts⟩ := hcells ⟨0, 4⟩ (by decide)
  rw [hspan, hcell] at hroot
  cases hroot
  exact ⟨⟨filled, hfill⟩, (hcounts.encard_derivations ⟨0⟩ (.inr rfl)).trans (congrArg _ hn)⟩

end ChartParsing
