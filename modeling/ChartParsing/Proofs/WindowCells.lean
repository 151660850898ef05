import ChartParsing.Proofs.RecordedSplits

/-!
# Cells of a window

A window is a stretch of words inside of a sentence.  The cells below it do not depend on what
stands around it: from one sentence to another they are moved along with the window.  Only the
cell of a whole sentence is another matter, as it keeps nothing but the start symbol.

**Moving.** `Cell.mapSpans` changes the spans in the splits of a cell and nothing else.
`Span.after` puts a span behind so many words, and `Span.move` takes it from one offset to
another.

**Relation.** `Grammar.SameWindow` holds of the table of a sentence that has a window behind some
words and the table of a longer one that opens with the window.  The cells of a span of the window
differ by those words alone (`SameWindow.cell?_after`, by induction on the length of the span): the
ways to derive the span are found in the same order, from cells that are the same but for the
offset.

**Results.** `window_cell_moves`: the cell of a window is the same in two longer sentences, up to
its offset, and the cell of the window as a sentence is what it keeps for the start symbol.
-/

namespace ChartParsing

/-! ## Moving cells -/

namespace Span

/-- The span behind so many words. -/
def after (offset : Nat) (s : Span) : Span :=
  ⟨offset + s.start, s.len⟩

/-- The span taken from one offset to another. -/
def move (old new : Nat) (s : Span) : Span :=
  ⟨new + (s.start - old), s.len⟩

theorem move_after
    (old new : Nat)
    (s : Span) :
    (s.after old).move old new = s.after new := by
  simp [after, move]

theorem after_left
    (offset k : Nat)
    (s : Span) :
    (s.after offset).left k = (s.left k).after offset :=
  rfl

theorem after_right
    (offset k : Nat)
    (s : Span) :
    (s.after offset).right k = (s.right k).after offset := by
  simp [after, right, Nat.add_assoc]

end Span

/-- Changes both spans of a split. -/
def Split.mapSpans (f : Span → Span) (split : Split) : Split :=
  { split with left := f split.left, right := f split.right }

/-- Changes the spans of the splits of an entry. -/
def Entry.mapSpans (f : Span → Span) (entry : Entry) : Entry :=
  { entry with splits := entry.splits.map (·.mapSpans f) }

/-- Changes the spans of the split of a way. -/
def Way.mapSpans (f : Span → Span) (way : Way) : Way :=
  { way with split := way.split.mapSpans f }

namespace Cell

/-- Changes the spans of all splits that a cell records. -/
def mapSpans (f : Span → Span) : Cell → Cell
  | leaf word symbols => leaf word symbols
  | internal entries => internal (entries.map fun (A, entry) => (A, entry.mapSpans f))

/-- What a cell says of the symbols that are kept. -/
def keep (kept : Symbol → Bool) : Cell → Cell
  | leaf word symbols => leaf word (symbols.filter kept)
  | internal entries => internal (entries.filter fun (A, _) => kept A)

/-- All splits that a cell records. -/
def splits : Cell → List Split
  | leaf _ _ => []
  | internal entries => entries.flatMap fun (_, entry) => entry.splits

theorem mapSpans_mapSpans
    (f h : Span → Span)
    (cell : Cell) :
    (cell.mapSpans f).mapSpans h = cell.mapSpans (h ∘ f) := by
  cases cell with
  | leaf word symbols => rfl
  | internal entries =>
      simp [mapSpans, Entry.mapSpans, Split.mapSpans, Function.comp_def]

/-- A cell behind so many words is taken to another offset. -/
theorem mapSpans_move_after
    (old new : Nat)
    (cell : Cell) :
    (cell.mapSpans (Span.after old)).mapSpans (Span.move old new) =
      cell.mapSpans (Span.after new) := by
  rw [mapSpans_mapSpans]
  exact congrArg (fun f => cell.mapSpans f) (funext (Span.move_after old new))

@[simp] theorem symbols_mapSpans
    (f : Span → Span)
    (cell : Cell) :
    (cell.mapSpans f).symbols = cell.symbols := by
  cases cell with
  | leaf word symbols => rfl
  | internal entries => simp [mapSpans, symbols]

theorem lookup_map_mapSpans
    (f : Span → Span)
    (entries : List (Symbol × Entry))
    (A : Symbol) :
    (entries.map fun (A, entry) => (A, entry.mapSpans f)).lookup A =
      (entries.lookup A).map (·.mapSpans f) := by
  induction entries with
  | nil => rfl
  | cons first entries ih =>
      obtain ⟨B, entry⟩ := first
      rw [List.map_cons, List.lookup_cons, List.lookup_cons, ih]
      cases A == B <;> rfl

/-- A cell counts what it counted before its spans were changed. -/
@[simp] theorem derivations?_mapSpans
    (f : Span → Span)
    (cell : Cell)
    (A : Symbol) :
    (cell.mapSpans f).derivations? A = cell.derivations? A := by
  cases cell with
  | leaf word symbols => rfl
  | internal entries =>
      simp only [mapSpans, derivations?, lookup, lookup_map_mapSpans, Option.map_map]
      rfl

theorem keep_eq_self
    {kept : Symbol → Bool}
    (hkept : ∀ A, kept A = true)
    (cell : Cell) :
    cell.keep kept = cell := by
  cases cell with
  | leaf word symbols => simp [keep, hkept]
  | internal entries => simp [keep, hkept]

/-- The splits of a cell behind so many words begin behind them. -/
theorem le_start_of_mem_splits_after
    {cell : Cell} {offset : Nat} {split : Split}
    (hsplit : split ∈ (cell.mapSpans (Span.after offset)).splits) :
    offset ≤ split.left.start ∧ offset ≤ split.right.start := by
  cases cell with
  | leaf word symbols => cases hsplit
  | internal entries =>
      simp only [mapSpans, splits, List.flatMap_map, Entry.mapSpans, List.mem_flatMap,
        List.mem_map] at hsplit
      obtain ⟨_, _, inner, _, rfl⟩ := hsplit
      exact ⟨Nat.le_add_right _ _, Nat.le_add_right _ _⟩

end Cell

/-! ## Cells before symbols are left out -/

namespace Grammar

variable {g : Grammar} {tokens : List String} {cell? : Span → Option Cell} {s : Span}

/-- The cell of a span with all of its symbols, from the cells of shorter spans. -/
def fullCellOf
    (g : Grammar)
    (tokens : List String)
    (cell? : Span → Option Cell)
    (s : Span) : Cell :=
  if s.len = 1 then
    .leaf (tokens.getD s.start "") (g.lexicalHeads (tokens.getD s.start ""))
  else
    .internal (entriesOf (g.ways cell? s) g.nonterminals)

theorem entriesOf_filter
    (ways : List Way)
    (kept : Symbol → Bool)
    (symbols : List Symbol) :
    entriesOf ways (symbols.filter kept) =
      (entriesOf ways symbols).filter fun (A, _) => kept A := by
  simp only [entriesOf, List.filterMap_filter, List.filter_filterMap]
  refine List.filterMap_congr ?_
  intro A _
  cases hentry : entryOf? ways A with
  | none => cases kept A <;> rfl
  | some entry => cases hkept : kept A <;> simp [Option.filter, hkept]

theorem cellOf_eq_keep :
    g.cellOf tokens cell? s = (g.fullCellOf tokens cell? s).keep (g.keeps tokens.length s) := by
  simp only [cellOf, fullCellOf, entriesOf_filter]
  split <;> rfl

/-- Nothing is left out of the cells of the shorter spans. -/
theorem Tabulates.cell?_eq_fullCellOf
    (ht : g.Tabulates tokens cell?)
    (hs : s.Within tokens.length)
    (hshorter : s.len < tokens.length) :
    cell? s = some (g.fullCellOf tokens cell? s) := by
  rw [ht s hs, cellOf_eq_keep, Cell.keep_eq_self (keeps_of_len_lt hshorter)]

/-- The cell of the whole sentence keeps the start symbol. -/
theorem Tabulates.cell?_whole
    (ht : g.Tabulates tokens cell?)
    (hne : tokens ≠ []) :
    cell? (.whole tokens.length) =
      some ((g.fullCellOf tokens cell? (.whole tokens.length)).keep (· == g.start)) := by
  have hkeeps : g.keeps tokens.length (.whole tokens.length) = (· == g.start) := by
    funext A
    simp [keeps, Span.whole]
  rw [ht _ (Span.whole_within (List.length_pos_iff.mpr hne)), cellOf_eq_keep, hkeeps]

/-! ## The ways to derive a span of the window -/

/-- The ways at a cut behind some words are those at the cut before them, moved. -/
theorem waysAt_after
    (offset k : Nat)
    (left right : Cell) :
    g.waysAt (s.after offset) k (left.mapSpans (Span.after offset))
        (right.mapSpans (Span.after offset)) =
      (g.waysAt s k left right).map (·.mapSpans (Span.after offset)) := by
  simp only [waysAt, Cell.symbols_mapSpans, Cell.derivations?_mapSpans, List.map_flatMap]
  refine List.flatMap_congr ?_
  intro B _
  cases left.derivations? B with
  | none => rfl
  | some m =>
      simp only [List.map_filterMap, Option.map_map, Span.after_left, Span.after_right]
      rfl

theorem entryOf?_map_mapSpans
    (f : Span → Span)
    (ways : List Way)
    (A : Symbol) :
    entryOf? (ways.map (·.mapSpans f)) A = (entryOf? ways A).map (·.mapSpans f) := by
  have hto : waysTo (ways.map (·.mapSpans f)) A = (waysTo ways A).map (·.mapSpans f) := by
    rw [waysTo, List.filter_map]
    rfl
  rw [entryOf?_eq, entryOf?_eq, hto]
  by_cases hnil : waysTo ways A = []
  · simp [hnil]
  · simp [hnil, Entry.mapSpans, Way.mapSpans, Function.comp_def]

theorem entriesOf_map_mapSpans
    (f : Span → Span)
    (ways : List Way)
    (symbols : List Symbol) :
    entriesOf (ways.map (·.mapSpans f)) symbols =
      (entriesOf ways symbols).map fun (A, entry) => (A, entry.mapSpans f) := by
  simp only [entriesOf, entryOf?_map_mapSpans, List.map_filterMap, Option.map_map]
  rfl

theorem ways_after
    {opening? : Span → Option Cell} {offset : Nat}
    (hparts : ∀ k, 0 < k → k < s.len →
      cell? ((s.left k).after offset) =
          (opening? (s.left k)).map (·.mapSpans (Span.after offset)) ∧
        cell? ((s.right k).after offset) =
          (opening? (s.right k)).map (·.mapSpans (Span.after offset))) :
    g.ways cell? (s.after offset) = (g.ways opening? s).map (·.mapSpans (Span.after offset)) := by
  have hlen : (s.after offset).len = s.len := rfl
  simp only [ways, List.map_flatMap, hlen]
  refine List.flatMap_congr ?_
  intro k hk
  obtain ⟨hpos, hlt⟩ := List.mem_range'_1.mp hk
  obtain ⟨hleft, hright⟩ := hparts k (by omega) (by omega)
  rw [Span.after_left, Span.after_right, hleft, hright]
  cases opening? (s.left k) with
  | none => rfl
  | some left =>
      cases opening? (s.right k) with
      | none => rfl
      | some right => exact waysAt_after offset k left right

/-! ## Two sentences with one window -/

/-- The table of a sentence that has a window behind so many words, and the table of a longer
sentence that opens with the same window. -/
structure SameWindow
    (g : Grammar)
    (size offset : Nat)
    (tokens opening : List String)
    (cell? opening? : Span → Option Cell) : Prop where
  tabulates : g.Tabulates tokens cell?
  tabulates_opening : g.Tabulates opening opening?
  offset_add_size_le : offset + size ≤ tokens.length
  size_lt : size < opening.length
  word_eq : ∀ i < size, tokens.getD (offset + i) "" = opening.getD i ""

namespace SameWindow

variable {opening : List String} {opening? : Span → Option Cell} {size offset : Nat}

/-- With all of its symbols, the cell of a span of the window is moved if those of the shorter
spans are. -/
theorem fullCellOf_after
    (h : g.SameWindow size offset tokens opening cell? opening?)
    (hs : s.Within size)
    (hshorter : ∀ t : Span, t.Within size → t.len < s.len →
      cell? (t.after offset) = (opening? t).map (·.mapSpans (Span.after offset))) :
    g.fullCellOf tokens cell? (s.after offset) =
      (g.fullCellOf opening opening? s).mapSpans (Span.after offset) := by
  by_cases hone : s.len = 1
  · have hword := h.word_eq s.start (by have := hs.2; omega)
    have hone' : (s.after offset).len = 1 := hone
    rw [fullCellOf, fullCellOf, if_pos hone, if_pos hone', Span.after, hword]
    rfl
  · have hone' : (s.after offset).len ≠ 1 := hone
    have hways : g.ways cell? (s.after offset) =
        (g.ways opening? s).map (·.mapSpans (Span.after offset)) := by
      refine ways_after ?_
      intro k hpos hlt
      exact ⟨hshorter _ (Span.left_within hs hpos hlt) hlt,
        hshorter _ (Span.right_within hs hlt) (by simp only [Span.right]; omega)⟩
    rw [fullCellOf, fullCellOf, if_neg hone, if_neg hone', hways, entriesOf_map_mapSpans]
    rfl

/-- The cell of a span of the window is moved along with the window. -/
theorem cell?_after
    (h : g.SameWindow size offset tokens opening cell? opening?)
    (hs : s.Within size)
    (hlt : s.len < tokens.length) :
    cell? (s.after offset) = (opening? s).map (·.mapSpans (Span.after offset)) := by
  induction hlen : s.len using Nat.strong_induction_on generalizing s with
  | _ len ih =>
      obtain ⟨hpos, hend⟩ := hs
      have hfull := h.fullCellOf_after ⟨hpos, hend⟩ fun t ht hshorter =>
        ih t.len (by omega) ht (by omega) rfl
      have hwithin : (s.after offset).Within tokens.length := by
        have := h.offset_add_size_le
        exact ⟨hpos, by simp only [Span.after]; omega⟩
      have hwithin' : s.Within opening.length := by
        have := h.size_lt
        exact ⟨hpos, by omega⟩
      have hlt' : s.len < opening.length := by
        have := h.size_lt
        omega
      rw [h.tabulates.cell?_eq_fullCellOf hwithin hlt, hfull,
        h.tabulates_opening.cell?_eq_fullCellOf hwithin' hlt']
      rfl

end SameWindow

/-- A table of a sentence that opens with the given words and has one more. -/
def openingCell? (g : Grammar) (w : List String) : Span → Option Cell :=
  cellAt? (w ++ [""]).length (g.fillCells (w ++ [""]))

/-- The cell of a window, with its words at the first positions. -/
def windowCell (g : Grammar) (w : List String) : Cell :=
  g.fullCellOf (w ++ [""]) (g.openingCell? w) (.whole w.length)

theorem openingCell?_whole
    {w : List String}
    (hne : w ≠ []) :
    g.openingCell? w (.whole w.length) = some (g.windowCell w) := by
  have hpos := List.length_pos_iff.mpr hne
  refine (tabulates_fillCells g (w ++ [""])).cell?_eq_fullCellOf ⟨hpos, ?_⟩ ?_
  · simp [Span.whole]
  · simp [Span.whole]

end Grammar

namespace Chart

variable {c : Chart} {x w y : List String}

/-- Filling leaves the cells of the sentence. -/
theorem exists_filled
    (c : Chart)
    {tokens : List String}
    (hne : tokens ≠ []) :
    ∃ n, (c.fill tokens).2.Filled c.grammar tokens n := by
  obtain ⟨n, filled, hfill⟩ := c.exists_fill hne
  rw [hfill]
  exact ⟨n, .of_fill hfill⟩

theorem Complete.sameWindow
    (hc : c.Complete)
    (htokens : c.tokens = x ++ w ++ y) :
    c.grammar.SameWindow w.length x.length c.tokens (w ++ [""])
      (cellAt? c.len c.cells) (c.grammar.openingCell? w) where
  tabulates := hc.tabulates
  tabulates_opening := Grammar.tabulates_fillCells c.grammar (w ++ [""])
  offset_add_size_le := by
    rw [htokens]
    simp only [List.length_append]
    omega
  size_lt := by simp
  word_eq := by
    intro i hi
    rw [htokens]
    simp [List.getD_eq_getElem?_getD, List.getElem?_append, hi]

/-- The cell of a window is the one of its words, behind the words before it. -/
theorem Complete.cell?_window
    (hc : c.Complete)
    (htokens : c.tokens = x ++ w ++ y)
    (hne : w ≠ [])
    (hlonger : w.length < c.len) :
    c.cell? ⟨x.length, w.length⟩ =
      some ((c.grammar.windowCell w).mapSpans (Span.after x.length)) := by
  have hsame := hc.sameWindow htokens
  have hwhole := Span.whole_within (List.length_pos_iff.mpr hne)
  have hin : (⟨x.length, w.length⟩ : Span).Within c.len :=
    ⟨hwhole.1, hsame.offset_add_size_le⟩
  have hcell := hsame.cell?_after hwhole hlonger
  rw [Grammar.openingCell?_whole hne] at hcell
  rw [cell?]
  exact hcell

/-- The cell of a whole sentence keeps the start symbol of the cell of its words. -/
theorem Complete.cell?_root
    (hc : c.Complete)
    (hne : c.tokens ≠ []) :
    c.cell? c.root =
      some (((c.grammar.windowCell c.tokens).mapSpans (Span.after 0)).keep
        (· == c.grammar.start)) := by
  have hsame : c.grammar.SameWindow c.len 0 c.tokens (c.tokens ++ [""])
      (cellAt? c.len c.cells) (c.grammar.openingCell? c.tokens) :=
    hc.sameWindow (x := []) (y := []) (by simp)
  have hwhole : c.root.Within c.len := Span.whole_within (List.length_pos_iff.mpr hne)
  have hfull := hsame.fullCellOf_after hwhole fun t ht hshorter =>
    hsame.cell?_after ht hshorter
  rw [cell?]
  refine (hc.tabulates.cell?_whole hne).trans ?_
  exact congrArg (fun cell => some (cell.keep (· == c.grammar.start))) hfull

end Chart

/-- The cell of a window moves with it from one longer sentence to another, with its symbols,
counts and splits in their order.  Alone, the window has the same cell, moved to the front and
without any symbol but the start symbol. -/
theorem window_cell_moves
    {c c' alone : Chart}
    (hc' : c'.grammar = c.grammar)
    (halone : alone.grammar = c.grammar)
    {w : List String}
    (hne : w ≠ [])
    {x y u v : List String}
    (hlonger : w.length < (x ++ w ++ y).length)
    (hlonger' : w.length < (u ++ w ++ v).length) :
    ∃ cell cell' root,
      (c.fill (x ++ w ++ y)).2.cell? ⟨x.length, w.length⟩ = some cell ∧
      (c'.fill (u ++ w ++ v)).2.cell? ⟨u.length, w.length⟩ = some cell' ∧
      (alone.fill w).2.cell? (alone.fill w).2.root = some root ∧
      (∀ split ∈ cell.splits, x.length ≤ split.left.start ∧ x.length ≤ split.right.start) ∧
      cell' = cell.mapSpans (Span.move x.length u.length) ∧
      root = (cell.mapSpans (Span.move x.length 0)).keep (· == c.grammar.start) := by
  have hne₁ : x ++ w ++ y ≠ [] := by simp [hne]
  have hne₂ : u ++ w ++ v ≠ [] := by simp [hne]
  obtain ⟨_, hfilled⟩ := c.exists_filled hne₁
  obtain ⟨_, hfilled'⟩ := c'.exists_filled hne₂
  obtain ⟨_, hwhole⟩ := alone.exists_filled hne
  have hcell := hfilled.complete.cell?_window hfilled.tokens_eq hne (by
    rwa [hfilled.len_eq])
  have hcell' := hfilled'.complete.cell?_window hfilled'.tokens_eq hne (by
    rwa [hfilled'.len_eq])
  have hroot := hwhole.complete.cell?_root (by rwa [hwhole.tokens_eq])
  rw [hfilled.grammar_eq] at hcell
  rw [hfilled'.grammar_eq, hc'] at hcell'
  rw [hwhole.tokens_eq, hwhole.grammar_eq, halone] at hroot
  refine ⟨_, _, _, hcell, hcell', hroot, fun split => Cell.le_start_of_mem_splits_after, ?_, ?_⟩
  · rw [Cell.mapSpans_move_after]
  · rw [Cell.mapSpans_move_after]

/-- Two words at the end of a sentence have the cell that they have at the front of another one,
one word further on.  Alone they keep the first of its two symbols. -/
theorem window_cell_moves_twinSplits :
    ["a", "a"].length < (["b"] ++ ["a", "a"] ++ []).length ∧
      ["a", "a"].length < ([] ++ ["a", "a"] ++ ["a", "b"]).length ∧
      ((Chart.empty twinGrammar).fill (["b"] ++ ["a", "a"] ++ [])).2.cell? ⟨1, 2⟩ =
        some (.internal
          [(⟨0⟩, ⟨1, [⟨⟨1, 1⟩, ⟨0⟩, ⟨2, 1⟩, ⟨0⟩⟩]⟩), (⟨1⟩, ⟨1, [⟨⟨1, 1⟩, ⟨0⟩, ⟨2, 1⟩, ⟨0⟩⟩]⟩)]) ∧
      ((Chart.empty twinGrammar).fill ([] ++ ["a", "a"] ++ ["a", "b"])).2.cell? ⟨0, 2⟩ =
        some (.internal
          [(⟨0⟩, ⟨1, [⟨⟨0, 1⟩, ⟨0⟩, ⟨1, 1⟩, ⟨0⟩⟩]⟩), (⟨1⟩, ⟨1, [⟨⟨0, 1⟩, ⟨0⟩, ⟨1, 1⟩, ⟨0⟩⟩]⟩)]) ∧
      ((Chart.empty twinGrammar).fill ["a", "a"]).2.cell?
          ((Chart.empty twinGrammar).fill ["a", "a"]).2.root =
        some (.internal [(⟨0⟩, ⟨1, [⟨⟨0, 1⟩, ⟨0⟩, ⟨1, 1⟩, ⟨0⟩⟩]⟩)]) := by
  have hlonger : ["a", "a"].length < (["b"] ++ ["a", "a"] ++ []).length := by decide
  have hlonger' : ["a", "a"].length < ([] ++ ["a", "a"] ++ ["a", "b"]).length := by decide
  have hend : ((Chart.empty twinGrammar).fill (["b"] ++ ["a", "a"] ++ [])).2.cell? ⟨1, 2⟩ =
      some (.internal
        [(⟨0⟩, ⟨1, [⟨⟨1, 1⟩, ⟨0⟩, ⟨2, 1⟩, ⟨0⟩⟩]⟩), (⟨1⟩, ⟨1, [⟨⟨1, 1⟩, ⟨0⟩, ⟨2, 1⟩, ⟨0⟩⟩]⟩)]) := by
    decide +kernel
  obtain ⟨cell, cell', root, hcell, hcell', hroot, _, hmoved, hkept⟩ :=
    window_cell_moves (c := Chart.empty twinGrammar) rfl rfl (List.cons_ne_nil _ _)
      hlonger hlonger'
  obtain rfl := Option.some.inj (hcell.symm.trans hend)
  refine ⟨hlonger, hlonger', hend, ?_, ?_⟩
  · exact hcell'.trans (congrArg some hmoved)
  · exact hroot.trans (congrArg some hkept)

end ChartParsing
