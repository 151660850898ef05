import ChartParsing.Derivation
import ChartParsing.Forest
import ChartParsing.Proofs.FilledChart

/-!
# The trees that a chart records

Listing trees by plain recursion follows the recurrence between cells, so that each fact
about the trees of a span is proved by induction on its length.

**Results.**
* `length_treesAt`: a symbol has as many trees over a span as its cell counts.
* `mem_treesAt_iff`: they are the derivations from the symbol that have the words of the span
  at their leaves.
* `nodup_treesAt`: no tree is listed twice.

The first result holds of every grammar.  For the other two the grammar has to be well formed:
without a rule twice, and with names that tell symbols apart.
-/

namespace ChartParsing

/-- The words that a span covers in a sentence. -/
def Span.words
    (s : Span)
    (tokens : List String) : List String :=
  (tokens.drop s.start).take s.len

namespace Span

variable {s : Span} {tokens : List String}

theorem length_words
    (h : s.Within tokens.length) :
    (s.words tokens).length = s.len := by
  obtain ⟨_, hend⟩ := h
  rw [words, List.length_take, List.length_drop]
  omega

@[simp] theorem words_whole
    (tokens : List String) :
    (whole tokens.length).words tokens = tokens := by
  simp [words, whole]

theorem words_of_len_eq_one
    (h : s.Within tokens.length)
    (hlen : s.len = 1) :
    s.words tokens = [tokens.getD s.start ""] := by
  obtain ⟨_, hend⟩ := h
  have hlt : s.start < tokens.length := by omega
  rw [words, hlen, List.drop_eq_getElem_cons hlt, List.getD_eq_getElem?_getD,
    List.getElem?_eq_getElem hlt]
  rfl

/-- The words of both parts of a span that is cut are its words. -/
theorem words_left_append_words_right
    {k : Nat}
    (hlt : k < s.len) :
    (s.left k).words tokens ++ (s.right k).words tokens = s.words tokens := by
  have hlen : s.len = k + (s.len - k) := by omega
  simp only [words, left, right]
  conv_rhs => rw [hlen, List.take_add, List.drop_drop]

/-- Words that make up those of a span are those of its parts at some cut. -/
theorem exists_cut
    {u v : List String}
    (h : s.Within tokens.length)
    (hu : u ≠ [])
    (hv : v ≠ [])
    (huv : u ++ v = s.words tokens) :
    ∃ k, 0 < k ∧ k < s.len ∧ u = (s.left k).words tokens ∧ v = (s.right k).words tokens := by
  have hlength : u.length + v.length = s.len := by
    rw [← List.length_append, huv, length_words h]
  have hupos := List.length_pos_iff.mpr hu
  have hvpos := List.length_pos_iff.mpr hv
  have hlt : u.length < s.len := by omega
  have hleft := length_words (left_within h hupos hlt)
  rw [← words_left_append_words_right hlt] at huv
  obtain ⟨huleft, hvright⟩ := List.append_inj huv hleft.symm
  exact ⟨u.length, hupos, hlt, huleft, hvright⟩

end Span

theorem mem_joinTrees_iff
    {symbol : String} {lefts rights : List Tree} {t : Tree} :
    t ∈ joinTrees symbol lefts rights ↔
      ∃ left ∈ lefts, ∃ right ∈ rights, t = .node symbol left right := by
  simp [joinTrees, eq_comm]

@[simp] theorem length_joinTrees
    (symbol : String)
    (lefts rights : List Tree) :
    (joinTrees symbol lefts rights).length = lefts.length * rights.length := by
  simp [joinTrees, List.length_flatMap]

theorem nodup_joinTrees
    {symbol : String} {lefts rights : List Tree}
    (hlefts : lefts.Nodup)
    (hrights : rights.Nodup) :
    (joinTrees symbol lefts rights).Nodup := by
  unfold joinTrees
  rw [List.nodup_flatMap]
  constructor
  · intro left _
    refine hrights.map ?_
    intro right right' h
    exact (Tree.node.injEq ..).mp h |>.2.2
  · refine hlefts.imp ?_
    intro left left' hne t ht ht'
    obtain ⟨right, _, rfl⟩ := List.mem_map.mp ht
    obtain ⟨right', _, h⟩ := List.mem_map.mp ht'
    exact hne ((Tree.node.injEq ..).mp h).2.1.symm

theorem Cell.exists_of_count_ne_zero
    {cell : Cell} {A : Symbol}
    (h : cell.count A ≠ 0) :
    ∃ m, cell.derivations? A = some m := by
  unfold count at h
  cases hm : cell.derivations? A with
  | none =>
      rw [hm] at h
      exact absurd rfl h
  | some m =>
      exact ⟨m, rfl⟩

/-- All symbols are kept in the cells of the shorter spans. -/
theorem Grammar.keeps_of_len_lt
    {g : Grammar} {n : Nat} {s : Span}
    (h : s.len < n)
    (A : Symbol) :
    g.keeps n s A = true := by
  simp [Grammar.keeps, Nat.ne_of_lt h]

theorem Grammar.keeps_iff
    {g : Grammar} {n : Nat} {s : Span} {A : Symbol} :
    g.keeps n s A = true ↔ (s.len = n → A = g.start) := by
  simp only [Grammar.keeps, Bool.or_eq_true, bne_iff_ne, beq_iff_eq]
  exact (imp_iff_not_or).symm

theorem Grammar.shortens_of_mem_ways
    {g : Grammar} {cell? : Span → Option Cell} {s : Span} {way : Way}
    (h : way ∈ g.ways cell? s) :
    way.split.Shortens s := by
  obtain ⟨k, _, _, _, _, _, _, hk, _, _, _, _, _, rfl⟩ := mem_ways_iff.mp h
  simp only [Split.Shortens, Span.left, Span.right]
  omega

theorem Derives.index_lt
    {g : Grammar} {A : Symbol} {t : Tree}
    (h : Derives g A t)
    (hg : g.WellFormed) :
    A.index < g.symbols.length := by
  cases h with
  | lexical hrule => exact hg.below _ hrule
  | binary hrule _ _ => exact (hg.below _ hrule).1

namespace Chart

variable {c : Chart} {s : Span}

theorem treesAt_of_not_within
    (hs : ¬ s.Within c.len)
    (A : Symbol) :
    c.treesAt s A = [] := by
  rw [treesAt, cellAt?, if_neg hs]

theorem treesAt_of_len_eq_one
    (hc : c.Complete)
    (hs : s.Within c.len)
    (hlen : s.len = 1)
    (A : Symbol) :
    c.treesAt s A =
      if A ∈ c.grammar.lexicalHeads (c.tokens.getD s.start "") ∧ c.grammar.keeps c.len s A = true
      then [.leaf (c.grammar.name A) (c.tokens.getD s.start "")] else [] := by
  rw [treesAt, hc.tabulates s hs]
  simp [Grammar.cellOf, hlen, List.mem_filter, len]

theorem treesAt_of_len_ne_one
    (hc : c.Complete)
    (hs : s.Within c.len)
    (hlen : s.len ≠ 1)
    (A : Symbol) :
    c.treesAt s A =
      if A ∈ c.grammar.nonterminals ∧ c.grammar.keeps c.len s A = true
      then (Grammar.waysTo (c.grammar.ways (cellAt? c.len c.cells) s) A).flatMap fun way =>
        joinTrees (c.grammar.name A)
          (c.treesAt way.split.left way.split.leftSymbol)
          (c.treesAt way.split.right way.split.rightSymbol)
      else [] := by
  rw [treesAt, hc.tabulates s hs]
  simp only [Grammar.cellOf, if_neg hlen, Grammar.lookup_entriesOf, List.mem_filter,
    show c.tokens.length = c.len from rfl]
  by_cases hkept : A ∈ c.grammar.nonterminals ∧ c.grammar.keeps c.len s A = true
  · rw [if_pos hkept, if_pos hkept, Grammar.entryOf?_eq]
    by_cases hnil : Grammar.waysTo (c.grammar.ways (cellAt? c.len c.cells) s) A = []
    · simp [hnil]
    · rw [if_neg hnil]
      simp only [List.flatMap_map]
      refine List.flatMap_congr ?_
      intro way hway
      exact dif_pos (Grammar.shortens_of_mem_ways (Grammar.mem_waysTo_iff.mp hway).1)
  · rw [if_neg hkept, if_neg hkept]

/-- A symbol has as many trees over a span as its cell counts. -/
theorem length_treesAt
    (hc : c.Complete)
    (hs : s.Within c.len)
    {cell : Cell}
    (hcell : cellAt? c.len c.cells s = some cell)
    (A : Symbol) :
    (c.treesAt s A).length = cell.count A := by
  induction hlen : s.len using Nat.strong_induction_on generalizing s cell A with
  | _ len ih =>
      have ht := hc.tabulates
      rw [ht s hs, Option.some.injEq] at hcell
      rw [← hcell, Cell.count]
      by_cases hone : s.len = 1
      · rw [treesAt_of_len_eq_one hc hs hone, Grammar.derivations?_cellOf_single hone]
        simp only [show c.tokens.length = c.len from rfl]
        split <;> rfl
      · rw [treesAt_of_len_ne_one hc hs hone, Grammar.derivations?_cellOf_longer hone]
        simp only [show c.tokens.length = c.len from rfl]
        split
        · rw [Grammar.entryOf?_eq, List.length_flatMap]
          -- each way has as many trees as the product that it adds to the count
          have hways : ∀ way ∈ Grammar.waysTo (c.grammar.ways (cellAt? c.len c.cells) s) A,
              (joinTrees (c.grammar.name A)
                (c.treesAt way.split.left way.split.leftSymbol)
                (c.treesAt way.split.right way.split.rightSymbol)).length = way.count := by
            intro way hway
            obtain ⟨k, left, right, B, rule, m, m', hk, hleft, hright, _, hm, hm', rfl⟩ :=
              Grammar.mem_ways_iff.mp (Grammar.mem_waysTo_iff.mp hway).1
            have hlefts := ih (s.left k).len (by simp only [Span.left]; omega)
              (Span.left_within hs hk.1 hk.2) hleft B rfl
            have hrights := ih (s.right k).len (by simp only [Span.right]; omega)
              (Span.right_within hs hk.2) hright rule.right rfl
            rw [length_joinTrees, hlefts, hrights, Cell.count, Cell.count, hm, hm']
            rfl
          rw [List.map_congr_left hways]
          by_cases hnil : Grammar.waysTo (c.grammar.ways (cellAt? c.len c.cells) s) A = []
          · simp [hnil]
          · simp [hnil]
        · rfl

/-- A symbol with a tree over a span is counted in its cell. -/
theorem exists_derivations?_of_mem
    (hc : c.Complete)
    (hs : s.Within c.len)
    {cell : Cell} {A : Symbol} {t : Tree}
    (hcell : cellAt? c.len c.cells s = some cell)
    (ht : t ∈ c.treesAt s A) :
    ∃ m, cell.derivations? A = some m := by
  refine Cell.exists_of_count_ne_zero ?_
  rw [← length_treesAt hc hs hcell A]
  exact Nat.ne_of_gt (List.length_pos_of_mem ht)

/-- The trees of a symbol over a single token are its lexical rules. -/
theorem mem_treesAt_iff_of_len_eq_one
    (hc : c.Complete)
    (hg : c.grammar.WellFormed)
    (hs : s.Within c.len)
    (hlen : s.len = 1)
    {A : Symbol} {t : Tree} :
    t ∈ c.treesAt s A ↔
      c.grammar.keeps c.len s A = true ∧
        Derives c.grammar A t ∧ t.words = s.words c.tokens := by
  rw [treesAt_of_len_eq_one hc hs hlen, Span.words_of_len_eq_one hs hlen]
  constructor
  · intro ht
    split at ht
    · rename_i hkept
      rw [List.mem_singleton.mp ht]
      exact ⟨hkept.2, .lexical (hg.mem_lexicalHeads_iff.mp hkept.1), rfl⟩
    · cases ht
  · rintro ⟨hkeep, hderives, hwords⟩
    cases hderives with
    | lexical hrule =>
        rename_i word
        have hword : word = c.tokens.getD s.start "" := by
          simpa [Tree.words] using hwords
        rw [← hword, if_pos ⟨hg.mem_lexicalHeads_iff.mpr hrule, hkeep⟩]
        exact List.mem_singleton.mpr rfl
    | binary _ hleft hright =>
        -- two subtrees have at least two words
        have hlength := congrArg List.length hwords
        have hlpos := List.length_pos_iff.mpr hleft.words_ne_nil
        have hrpos := List.length_pos_iff.mpr hright.words_ne_nil
        simp only [Tree.words, List.length_append, List.length_singleton] at hlength
        omega

/-- The trees of a symbol over a longer span are made by a binary rule of trees over both parts
at some cut. -/
theorem mem_treesAt_iff_of_len_ne_one
    (hc : c.Complete)
    (hg : c.grammar.WellFormed)
    (hs : s.Within c.len)
    (hlen : s.len ≠ 1)
    {A : Symbol} {t : Tree} :
    t ∈ c.treesAt s A ↔
      c.grammar.keeps c.len s A = true ∧
        ∃ k B C left right,
          (0 < k ∧ k < s.len) ∧
          .binary ⟨A, B, C⟩ ∈ c.grammar.rules ∧
          left ∈ c.treesAt (s.left k) B ∧
          right ∈ c.treesAt (s.right k) C ∧
          t = .node (c.grammar.name A) left right := by
  rw [treesAt_of_len_ne_one hc hs hlen]
  constructor
  · intro ht
    split at ht
    · rename_i hkept
      obtain ⟨way, hto, ht⟩ := List.mem_flatMap.mp ht
      obtain ⟨hway, rfl⟩ := Grammar.mem_waysTo_iff.mp hto
      obtain ⟨k, _, _, B, rule, m, m', hk, _, _, hrule, _, _, rfl⟩ :=
        Grammar.mem_ways_iff.mp hway
      obtain ⟨left, hleft, right, hright, rfl⟩ := mem_joinTrees_iff.mp ht
      obtain ⟨hmem, rfl⟩ := hg.mem_binaryRulesByLeft_iff.mp hrule
      exact ⟨hkept.2, k, _, _, left, right, hk, hmem, hleft, hright, rfl⟩
    · cases ht
  · rintro ⟨hkeep, k, B, C, left, right, hk, hrule, hleft, hright, rfl⟩
    have hleftin := Span.left_within hs hk.1 hk.2
    have hrightin := Span.right_within hs hk.2
    obtain ⟨lcell, rcell, hlcell, hrcell⟩ := hc.tabulates.exists_cells hs hk.1 hk.2
    obtain ⟨m, hm⟩ := exists_derivations?_of_mem hc hleftin hlcell hleft
    obtain ⟨m', hm'⟩ := exists_derivations?_of_mem hc hrightin hrcell hright
    have hfrom : (⟨A, B, C⟩ : BinaryRule) ∈ c.grammar.binaryRulesByLeft B :=
      hg.mem_binaryRulesByLeft_iff.mpr ⟨hrule, rfl⟩
    have hway : (⟨A, m * m', ⟨s.left k, B, s.right k, C⟩⟩ : Way) ∈
        c.grammar.ways (cellAt? c.len c.cells) s :=
      Grammar.mem_ways_iff.mpr
        ⟨k, lcell, rcell, B, ⟨A, B, C⟩, m, m', hk, hlcell, hrcell, hfrom, hm, hm', rfl⟩
    rw [if_pos ⟨Grammar.mem_nonterminals_iff.mpr (hg.below _ hrule).1, hkeep⟩]
    exact List.mem_flatMap.mpr
      ⟨_, Grammar.mem_waysTo_iff.mpr ⟨hway, rfl⟩,
        mem_joinTrees_iff.mpr ⟨left, hleft, right, hright, rfl⟩⟩

/-- The trees that a symbol has over a span are the derivations from it that have the words
of the span at their leaves; over the whole sentence only the start symbol has trees. -/
theorem mem_treesAt_iff
    (hc : c.Complete)
    (hg : c.grammar.WellFormed)
    (hs : s.Within c.len)
    {A : Symbol} {t : Tree} :
    t ∈ c.treesAt s A ↔
      c.grammar.keeps c.len s A = true ∧
        Derives c.grammar A t ∧ t.words = s.words c.tokens := by
  induction hlen : s.len using Nat.strong_induction_on generalizing s A t with
  | _ len ih =>
      have hsub : s.len ≤ c.len := hs.len_le
      by_cases hone : s.len = 1
      · exact mem_treesAt_iff_of_len_eq_one hc hg hs hone
      · rw [mem_treesAt_iff_of_len_ne_one hc hg hs hone]
        refine and_congr_right ?_
        intro _
        -- both parts are shorter than the sentence, so nothing is left out of their cells
        have ihleft : ∀ {k B t}, 0 < k → k < s.len →
            (t ∈ c.treesAt (s.left k) B ↔
              Derives c.grammar B t ∧ t.words = (s.left k).words c.tokens) := by
          intro k B t hpos hlt
          have hshort : (s.left k).len < s.len := hlt
          rw [ih _ (by omega) (Span.left_within hs hpos hlt) rfl]
          exact and_iff_right (Grammar.keeps_of_len_lt (by omega) B)
        have ihright : ∀ {k C t}, 0 < k → k < s.len →
            (t ∈ c.treesAt (s.right k) C ↔
              Derives c.grammar C t ∧ t.words = (s.right k).words c.tokens) := by
          intro k C t hpos hlt
          have hshort : (s.right k).len < s.len := by
            simp only [Span.right]
            omega
          rw [ih _ (by omega) (Span.right_within hs hlt) rfl]
          exact and_iff_right (Grammar.keeps_of_len_lt (by omega) C)
        constructor
        · rintro ⟨k, B, C, left, right, hk, hrule, hleft, hright, rfl⟩
          obtain ⟨hleft, hlwords⟩ := (ihleft hk.1 hk.2).mp hleft
          obtain ⟨hright, hrwords⟩ := (ihright hk.1 hk.2).mp hright
          refine ⟨.binary hrule hleft hright, ?_⟩
          rw [Tree.words, hlwords, hrwords, Span.words_left_append_words_right hk.2]
        · rintro ⟨hderives, hwords⟩
          cases hderives with
          | lexical =>
              have hlength := congrArg List.length hwords
              rw [Span.length_words hs] at hlength
              exact absurd hlength.symm hone
          | @binary _ B C left right hrule hleft hright =>
              obtain ⟨k, hpos, hlt, hlwords, hrwords⟩ :=
                Span.exists_cut hs hleft.words_ne_nil hright.words_ne_nil hwords
              exact ⟨k, B, C, left, right, ⟨hpos, hlt⟩, hrule,
                (ihleft hpos hlt).mpr ⟨hleft, hlwords⟩,
                (ihright hpos hlt).mpr ⟨hright, hrwords⟩, rfl⟩

/-- A tree tells the symbol that it is listed for, and the length of the span. -/
theorem eq_of_mem_treesAt
    (hc : c.Complete)
    (hg : c.grammar.WellFormed)
    {s s' : Span} {A A' : Symbol} {t : Tree}
    (hs : s.Within c.len)
    (hs' : s'.Within c.len)
    (h : t ∈ c.treesAt s A)
    (h' : t ∈ c.treesAt s' A') :
    s.len = s'.len ∧ A = A' := by
  obtain ⟨_, hderives, hwords⟩ := (mem_treesAt_iff hc hg hs).mp h
  obtain ⟨_, hderives', hwords'⟩ := (mem_treesAt_iff hc hg hs').mp h'
  constructor
  · rw [← Span.length_words hs, ← Span.length_words hs', ← hwords, ← hwords']
  · refine hg.name_injective (hderives.index_lt hg) (hderives'.index_lt hg) ?_
    rw [← hderives.symbol_eq, ← hderives'.symbol_eq]

/-- Two ways to derive a span that share a tree split it alike. -/
theorem split_eq_of_mem_joinTrees
    (hc : c.Complete)
    (hg : c.grammar.WellFormed)
    (hs : s.Within c.len)
    {symbol : String} {way way' : Way} {t : Tree}
    (hway : way ∈ c.grammar.ways (cellAt? c.len c.cells) s)
    (hway' : way' ∈ c.grammar.ways (cellAt? c.len c.cells) s)
    (ht : t ∈ joinTrees symbol
      (c.treesAt way.split.left way.split.leftSymbol)
      (c.treesAt way.split.right way.split.rightSymbol))
    (ht' : t ∈ joinTrees symbol
      (c.treesAt way'.split.left way'.split.leftSymbol)
      (c.treesAt way'.split.right way'.split.rightSymbol)) :
    way.split = way'.split := by
  obtain ⟨k, _, _, B, rule, _, _, hk, _, _, _, _, _, rfl⟩ := Grammar.mem_ways_iff.mp hway
  obtain ⟨k', _, _, B', rule', _, _, hk', _, _, _, _, _, rfl⟩ := Grammar.mem_ways_iff.mp hway'
  obtain ⟨left, hleft, right, hright, rfl⟩ := mem_joinTrees_iff.mp ht
  obtain ⟨left', hleft', right', hright', heq⟩ := mem_joinTrees_iff.mp ht'
  obtain ⟨_, rfl, rfl⟩ := (Tree.node.injEq ..).mp heq
  obtain ⟨hcut, hB⟩ :=
    eq_of_mem_treesAt hc hg (Span.left_within hs hk.1 hk.2) (Span.left_within hs hk'.1 hk'.2)
      hleft hleft'
  obtain ⟨_, hC⟩ :=
    eq_of_mem_treesAt hc hg (Span.right_within hs hk.2) (Span.right_within hs hk'.2)
      hright hright'
  simp only [Span.left] at hcut hB hC
  rw [hcut, hB, hC]

/-- No tree is listed twice for one symbol over one span. -/
theorem nodup_treesAt
    (hc : c.Complete)
    (hg : c.grammar.WellFormed)
    (hs : s.Within c.len)
    (A : Symbol) :
    (c.treesAt s A).Nodup := by
  induction hlen : s.len using Nat.strong_induction_on generalizing s A with
  | _ len ih =>
      by_cases hone : s.len = 1
      · rw [treesAt_of_len_eq_one hc hs hone]
        split
        · exact List.nodup_singleton _
        · exact List.nodup_nil
      · rw [treesAt_of_len_ne_one hc hs hone]
        split
        · rw [List.nodup_flatMap]
          constructor
          · intro way hto
            obtain ⟨k, _, _, B, rule, _, _, hk, _, _, _, _, _, rfl⟩ :=
              Grammar.mem_ways_iff.mp (Grammar.mem_waysTo_iff.mp hto).1
            refine nodup_joinTrees ?_ ?_
            · exact ih _ (by simp only [Span.left]; omega) (Span.left_within hs hk.1 hk.2) B rfl
            · exact ih _ (by simp only [Span.right]; omega) (Span.right_within hs hk.2) _ rfl
          · have hpairs := (hc.tabulates.pairwise_ways hg hs).filter (·.head == A)
            refine hpairs.imp_of_mem ?_
            intro way way' hto hto' hne t ht ht'
            obtain ⟨hway, hhead⟩ := Grammar.mem_waysTo_iff.mp hto
            obtain ⟨hway', hhead'⟩ := Grammar.mem_waysTo_iff.mp hto'
            exact hne (hhead.trans hhead'.symm)
              (split_eq_of_mem_joinTrees hc hg hs hway hway' ht ht')
        · exact List.nodup_nil

end Chart
end ChartParsing
