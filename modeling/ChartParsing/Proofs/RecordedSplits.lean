import ChartParsing.Proofs.TreeListing

/-!
# The splits that a chart records

Each entry of a longer span records the ways to derive it.  They are told apart here from the
way in which they were found: a split is valid when a rule of the grammar allows it and both of
its parts are derived, whatever the order in which cuts, symbols and rules were tried.

**Results.** `entries_record_valid_splits`: in a filled chart the entry of a symbol records the
valid splits, each once, and counts the products of their parts; a symbol without a valid split
has no entry, and the whole sentence has an entry for the start symbol at most.
-/

namespace ChartParsing

/-- The number of derivations that a chart counts for a span from a symbol. -/
def Chart.countOf (c : Chart) (s : Span) (A : Symbol) : Nat :=
  ((c.cell? s).map (·.count A)).getD 0

/-- A rule of the grammar derives a span from a symbol over both parts of a split, and both of
them are derived. -/
structure Chart.ValidSplit
    (c : Chart)
    (s : Span)
    (A : Symbol)
    (split : Split) : Prop where
  exists_cut : ∃ k, 1 ≤ k ∧ k < s.len ∧
    split.left = ⟨s.start, k⟩ ∧ split.right = ⟨s.start + k, s.len - k⟩
  rule_mem : .binary ⟨A, split.leftSymbol, split.rightSymbol⟩ ∈ c.grammar.rules
  left_ne_zero : c.countOf split.left split.leftSymbol ≠ 0
  right_ne_zero : c.countOf split.right split.rightSymbol ≠ 0

/-- An entry records the valid splits, each once, and counts their derivations. -/
structure Entry.Records
    (entry : Entry)
    (c : Chart)
    (s : Span)
    (A : Symbol) : Prop where
  nodup_splits : entry.splits.Nodup
  mem_splits_iff : ∀ split, split ∈ entry.splits ↔ c.ValidSplit s A split
  count_eq : entry.count = (entry.splits.map fun split =>
    c.countOf split.left split.leftSymbol * c.countOf split.right split.rightSymbol).sum
  count_pos : 1 ≤ entry.count

namespace Chart

variable {c : Chart} {s : Span} {A : Symbol}

theorem countOf_eq
    {cell : Cell}
    (hcell : cellAt? c.len c.cells s = some cell)
    (A : Symbol) :
    c.countOf s A = cell.count A := by
  rw [countOf, cell?, hcell]
  rfl

/-- A symbol that is counted in the cell of a span has derivations there. -/
theorem countOf_ne_zero_iff
    (hc : c.Complete)
    (hs : s.Within c.len)
    {cell : Cell}
    (hcell : cellAt? c.len c.cells s = some cell) :
    c.countOf s A ≠ 0 ↔ ∃ m, cell.derivations? A = some m := by
  rw [countOf_eq hcell]
  constructor
  · exact Cell.exists_of_count_ne_zero
  · rintro ⟨m, hm⟩
    have hpos := hc.tabulates.pos_of_derivations? hs hcell hm
    rw [Cell.count, hm]
    exact Nat.ne_of_gt hpos

/-- A way to derive a span counts what its two parts count. -/
theorem count_of_mem_ways
    {way : Way}
    (h : way ∈ c.grammar.ways (cellAt? c.len c.cells) s) :
    way.count = c.countOf way.split.left way.split.leftSymbol *
      c.countOf way.split.right way.split.rightSymbol := by
  obtain ⟨k, left, right, B, rule, m, m', hk, hleft, hright, _, hm, hm', rfl⟩ :=
    Grammar.mem_ways_iff.mp h
  simp only
  rw [countOf_eq hleft, countOf_eq hright, Cell.count, Cell.count, hm, hm']
  rfl

/-- The splits of the ways to derive a span from a symbol are the valid ones. -/
theorem validSplit_iff
    (hc : c.Complete)
    (hg : c.grammar.WellFormed)
    (hs : s.Within c.len)
    {split : Split} :
    c.ValidSplit s A split ↔
      ∃ way ∈ Grammar.waysTo (c.grammar.ways (cellAt? c.len c.cells) s) A, way.split = split := by
  constructor
  · rintro ⟨⟨k, hpos, hlt, hleft, hright⟩, hrule, hcount, hcount'⟩
    obtain ⟨left, B, right, C⟩ := split
    simp only at hleft hright hrule hcount hcount'
    subst hleft hright
    obtain ⟨lcell, rcell, hlcell, hrcell⟩ := hc.tabulates.exists_cells hs hpos hlt
    obtain ⟨m, hm⟩ :=
      (countOf_ne_zero_iff hc (Span.left_within hs hpos hlt) hlcell).mp hcount
    obtain ⟨m', hm'⟩ := (countOf_ne_zero_iff hc (Span.right_within hs hlt) hrcell).mp hcount'
    have hfrom : (⟨A, B, C⟩ : BinaryRule) ∈ c.grammar.binaryRulesByLeft B :=
      hg.mem_binaryRulesByLeft_iff.mpr ⟨hrule, rfl⟩
    refine ⟨⟨A, m * m', ⟨s.left k, B, s.right k, C⟩⟩, Grammar.mem_waysTo_iff.mpr ⟨?_, rfl⟩, rfl⟩
    exact Grammar.mem_ways_iff.mpr
      ⟨k, lcell, rcell, B, ⟨A, B, C⟩, m, m', ⟨hpos, hlt⟩, hlcell, hrcell, hfrom, hm, hm', rfl⟩
  · rintro ⟨way, hto, rfl⟩
    obtain ⟨hway, rfl⟩ := Grammar.mem_waysTo_iff.mp hto
    obtain ⟨k, lcell, rcell, B, rule, m, m', hk, hlcell, hrcell, hfrom, hm, hm', rfl⟩ :=
      Grammar.mem_ways_iff.mp hway
    obtain ⟨hrule, rfl⟩ := hg.mem_binaryRulesByLeft_iff.mp hfrom
    exact
      { exists_cut := ⟨k, hk.1, hk.2, rfl, rfl⟩
        rule_mem := hrule
        left_ne_zero :=
          (countOf_ne_zero_iff hc (Span.left_within hs hk.1 hk.2) hlcell).mpr ⟨m, hm⟩
        right_ne_zero :=
          (countOf_ne_zero_iff hc (Span.right_within hs hk.2) hrcell).mpr ⟨m', hm'⟩ }

/-- The entry of a symbol over a longer span is the one that its ways add up to. -/
theorem lookup_eq
    (hc : c.Complete)
    (hs : s.Within c.len)
    (hlen : s.len ≠ 1)
    {cell : Cell}
    (hcell : cellAt? c.len c.cells s = some cell)
    (A : Symbol) :
    cell.lookup A =
      if A ∈ c.grammar.nonterminals ∧ c.grammar.keeps c.len s A = true
      then Grammar.entryOf? (c.grammar.ways (cellAt? c.len c.cells) s) A else none := by
  rw [hc.tabulates s hs, Option.some.injEq] at hcell
  rw [← hcell]
  simp only [Grammar.cellOf, if_neg hlen, Cell.lookup, Grammar.lookup_entriesOf, List.mem_filter]
  rfl

/-- A symbol that is kept over a longer span has an entry if it has a valid split. -/
theorem isSome_lookup_iff
    (hc : c.Complete)
    (hg : c.grammar.WellFormed)
    (hs : s.Within c.len)
    (hlen : s.len ≠ 1)
    (hkeep : c.grammar.keeps c.len s A = true)
    {cell : Cell}
    (hcell : cellAt? c.len c.cells s = some cell) :
    (cell.lookup A).isSome ↔ ∃ split, c.ValidSplit s A split := by
  simp only [validSplit_iff hc hg hs]
  rw [lookup_eq hc hs hlen hcell, Grammar.entryOf?_eq]
  constructor
  · intro hsome
    by_cases hnil : Grammar.waysTo (c.grammar.ways (cellAt? c.len c.cells) s) A = []
    · simp [hnil] at hsome
    · obtain ⟨way, hway⟩ := List.exists_mem_of_ne_nil _ hnil
      exact ⟨way.split, way, hway, rfl⟩
  · rintro ⟨_, way, hway, rfl⟩
    obtain ⟨hmem, rfl⟩ := Grammar.mem_waysTo_iff.mp hway
    obtain ⟨_, _, _, _, _, _, _, _, _, _, hfrom, _, _, rfl⟩ := Grammar.mem_ways_iff.mp hmem
    have hhead := (hg.below _ (hg.mem_binaryRulesByLeft_iff.mp hfrom).1).1
    rw [if_pos ⟨Grammar.mem_nonterminals_iff.mpr hhead, hkeep⟩,
      if_neg (List.ne_nil_of_mem hway)]
    rfl

/-- The entry of a symbol over a longer span records its valid splits. -/
theorem records_of_lookup
    (hc : c.Complete)
    (hg : c.grammar.WellFormed)
    (hs : s.Within c.len)
    (hlen : s.len ≠ 1)
    {cell : Cell} {entry : Entry}
    (hcell : cellAt? c.len c.cells s = some cell)
    (hentry : cell.lookup A = some entry) :
    entry.Records c s A := by
  have hlookup := hentry
  rw [lookup_eq hc hs hlen hcell] at hlookup
  split at hlookup
  · rw [Grammar.entryOf?_eq] at hlookup
    split at hlookup
    · cases hlookup
    · rename_i hkept hne
      cases hlookup
      refine ⟨?_, ?_, ?_, ?_⟩
      · -- two ways from one symbol split the span differently
        rw [List.Nodup, List.pairwise_map]
        refine ((hc.tabulates.pairwise_ways hg hs).filter (·.head == A)).imp_of_mem ?_
        intro way way' hto hto' hdiffer
        have hhead := (Grammar.mem_waysTo_iff.mp hto).2
        have hhead' := (Grammar.mem_waysTo_iff.mp hto').2
        exact hdiffer (hhead.trans hhead'.symm)
      · intro split
        rw [validSplit_iff hc hg hs]
        exact List.mem_map
      · rw [List.map_map]
        refine congrArg List.sum (List.map_congr_left ?_)
        intro way hto
        exact count_of_mem_ways (Grammar.mem_waysTo_iff.mp hto).1
      · refine hc.tabulates.pos_of_derivations? hs hcell (A := A) ?_
        cases cell with
        | leaf word symbols => cases hentry
        | internal entries => rw [Cell.derivations?, hentry]; rfl
  · cases hlookup

end Chart

/-- In a filled chart a longer span has an entry for each symbol that has a valid split, which
records the valid splits, each once, and counts the products of their parts.  The cell of the
whole sentence has no entry for any symbol but the start symbol. -/
theorem entries_record_valid_splits
    {declarations : List Declaration} {start : String}
    {c filled : Chart} {tokens : List String} {n : Nat}
    (hg : Grammar.ofDeclarations declarations start = .ok c.grammar)
    (hfill : c.fill tokens = (.ok n, filled))
    {s : Span}
    (hs : s.Within tokens.length)
    (hlen : 2 ≤ s.len) :
    ∃ cell, filled.cell? s = some cell ∧
      ∀ A : Symbol,
        (s = filled.root → A ≠ c.grammar.start → cell.lookup A = none) ∧
        ((s = filled.root → A = c.grammar.start) →
          ((cell.lookup A).isSome ↔ ∃ split, filled.ValidSplit s A split) ∧
          ∀ entry, cell.lookup A = some entry → entry.Records filled s A) := by
  have hfilled := Chart.Filled.of_fill hfill
  have hwf := Grammar.WellFormed.of_ofDeclarations hg
  rw [← hfilled.grammar_eq] at hwf ⊢
  rw [← hfilled.len_eq] at hs
  have hone : s.len ≠ 1 := by omega
  obtain ⟨cell, hcell⟩ := hfilled.complete.exists_cell hs
  refine ⟨cell, hcell, ?_⟩
  intro A
  have hkeeps : filled.grammar.keeps filled.len s A = true ↔
      (s = filled.root → A = filled.grammar.start) := by
    rw [Grammar.keeps_iff, ← Span.eq_whole_iff hs]
    rfl
  constructor
  · intro hroot hstart
    rw [Chart.lookup_eq hfilled.complete hs hone hcell, if_neg]
    rintro ⟨_, hkeep⟩
    exact hstart (hkeeps.mp hkeep hroot)
  · intro hkept
    refine ⟨Chart.isSome_lookup_iff hfilled.complete hwf hs hone (hkeeps.mpr hkept) hcell, ?_⟩
    intro entry hentry
    exact Chart.records_of_lookup hfilled.complete hwf hs hone hcell hentry

/-- Two symbols that both derive every stretch of two words or more. -/
def twinDeclarations : List Declaration :=
  [⟨.nonterminal "S", .refused⟩, ⟨.nonterminal "X", .refused⟩,
    ⟨.production "S" ["S", "S"], .refused⟩, ⟨.production "S" ["X", "S"], .refused⟩,
    ⟨.production "X" ["S", "S"], .refused⟩, ⟨.lexical "S" "a", .refused⟩]

def twinGrammar : Grammar :=
  .ofRules ["S", "X"] ⟨0⟩
    [.binary ⟨⟨0⟩, ⟨0⟩, ⟨0⟩⟩, .binary ⟨⟨0⟩, ⟨1⟩, ⟨0⟩⟩, .binary ⟨⟨1⟩, ⟨0⟩, ⟨0⟩⟩, .lexical ⟨0⟩ "a"]

/-- Over the whole sentence the second symbol is not kept, but a split below it is recorded. -/
theorem entries_record_twinSplits :
    Grammar.ofDeclarations twinDeclarations "S" = .ok twinGrammar ∧
      (⟨0, 3⟩ : Span).Within ["a", "a", "a"].length ∧
      ∃ filled cell entry, (Chart.empty twinGrammar).fill ["a", "a", "a"] = (.ok 3, filled) ∧
        filled.cell? ⟨0, 3⟩ = some cell ∧ cell.lookup ⟨1⟩ = none ∧
        cell.lookup ⟨0⟩ = some entry ∧ entry.Records filled ⟨0, 3⟩ ⟨0⟩ ∧
        ⟨⟨0, 2⟩, ⟨1⟩, ⟨2, 1⟩, ⟨0⟩⟩ ∈ entry.splits := by
  have hg : Grammar.ofDeclarations twinDeclarations "S" = .ok twinGrammar := by
    decide
  have hs : (⟨0, 3⟩ : Span).Within ["a", "a", "a"].length := by
    decide
  generalize hfilled : ((Chart.empty twinGrammar).fill ["a", "a", "a"]).2 = filled
  have hthree : ((Chart.empty twinGrammar).fill ["a", "a", "a"]).1 = .ok 3 := by
    decide +kernel
  have hfill : (Chart.empty twinGrammar).fill ["a", "a", "a"] = (.ok 3, filled) :=
    Prod.ext hthree hfilled
  have hroot : (⟨0, 3⟩ : Span) = filled.root := by
    rw [← hfilled]
    rfl
  have hvalid : filled.ValidSplit ⟨0, 3⟩ ⟨0⟩ ⟨⟨0, 2⟩, ⟨1⟩, ⟨2, 1⟩, ⟨0⟩⟩ := by
    rw [← hfilled]
    refine ⟨⟨2, by decide, by decide, rfl, rfl⟩, by decide, ?_, ?_⟩ <;> decide +kernel
  obtain ⟨cell, hcell, hentries⟩ :=
    entries_record_valid_splits (c := Chart.empty twinGrammar) hg hfill hs (by decide)
  obtain ⟨hsome, hrecords⟩ := (hentries ⟨0⟩).2 fun _ => rfl
  obtain ⟨entry, hentry⟩ := Option.isSome_iff_exists.mp (hsome.mpr ⟨_, hvalid⟩)
  have hrecord := hrecords entry hentry
  exact ⟨hg, hs, filled, cell, entry, hfill, hcell, (hentries ⟨1⟩).1 hroot (by decide), hentry,
    hrecord, (hrecord.mem_splits_iff _).mpr hvalid⟩

end ChartParsing
