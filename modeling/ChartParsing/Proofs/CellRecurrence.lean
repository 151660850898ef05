import ChartParsing.Chart.Fill
import ChartParsing.Proofs.BuiltGrammar
import ChartParsing.Proofs.TableLayout
import Mathlib.Algebra.Order.BigOperators.Group.List

/-!
# The recurrence between cells

The cell of a span is computed from the cells filled before it.  Since those of shorter spans
are never touched again, the finished table answers every span of the sentence with the cell
that `Grammar.cellOf` computes from the finished table itself (`Grammar.Tabulates`).  Whatever
is said of a chart below follows from this recurrence; the order of filling and the slots do
not occur any more.

**Results.**
* `tabulates_fillCells`: a filled table obeys the recurrence.
* `mem_ways_iff`: the ways to derive a span are the applications of a rule at a cut whose two
  symbols derive both parts.
* `Tabulates.pos_of_derivations?`, `Tabulates.nodup_symbols`: a cell lists each symbol once,
  and a symbol that it lists has a derivation.
* `pairwise_ways`: two ways to derive a span from one symbol split it differently.
-/

namespace ChartParsing

namespace Cell

theorem isSome_derivations?_iff
    {cell : Cell} {A : Symbol} :
    (cell.derivations? A).isSome ↔ A ∈ cell.symbols := by
  cases cell with
  | leaf word symbols =>
      simp [derivations?, Cell.symbols]
  | internal entries =>
      simp only [derivations?, lookup, Cell.symbols, Option.isSome_map, List.lookup_isSome_iff,
        List.mem_map, beq_iff_eq]
      constructor
      · rintro ⟨entry, hmem, rfl⟩
        exact ⟨entry, hmem, rfl⟩
      · rintro ⟨entry, hmem, rfl⟩
        exact ⟨entry, hmem, rfl⟩

end Cell

namespace Grammar

variable {g : Grammar} {tokens : List String}

theorem size_foldl_fillNext
    (ss : List Span)
    (cells : Array Cell) :
    (ss.foldl (g.fillNext tokens) cells).size = cells.size + ss.length := by
  induction ss generalizing cells with
  | nil => simp
  | cons s ss ih =>
      rw [List.foldl_cons, ih]
      simp only [fillNext, Array.size_push, List.length_cons]
      omega

/-- Filling on does not touch the cells that are there. -/
theorem getElem?_foldl_fillNext_of_lt
    {i : Nat}
    (ss : List Span)
    (cells : Array Cell)
    (h : i < cells.size) :
    (ss.foldl (g.fillNext tokens) cells)[i]? = cells[i]? := by
  induction ss generalizing cells with
  | nil => rfl
  | cons s ss ih =>
      have hpush : i < (g.fillNext tokens cells s).size := by
        simp only [fillNext, Array.size_push]
        omega
      rw [List.foldl_cons, ih _ hpush]
      simp only [fillNext]
      rw [Array.getElem?_push, if_neg (by omega)]

/-- Each span adds the cell computed from the cells filled before it. -/
theorem getElem?_foldl_fillNext
    {i : Nat} {s : Span} {ss : List Span}
    (cells : Array Cell)
    (h : ss[i]? = some s) :
    (ss.foldl (g.fillNext tokens) cells)[cells.size + i]? =
      some (g.cellOf tokens
        (cellAt? tokens.length ((ss.take i).foldl (g.fillNext tokens) cells)) s) := by
  obtain ⟨hlt, rfl⟩ := List.getElem?_eq_some_iff.mp h
  have hcut : ss = ss.take i ++ ss[i] :: ss.drop (i + 1) := by
    simp
  have hsize : ((ss.take i).foldl (g.fillNext tokens) cells).size = cells.size + i := by
    rw [size_foldl_fillNext, List.length_take]
    omega
  conv_lhs => rw [hcut]
  rw [List.foldl_append, List.foldl_cons, getElem?_foldl_fillNext_of_lt]
  · simp only [fillNext]
    rw [← hsize, Array.getElem?_push_size]
  · simp only [fillNext, Array.size_push]
    omega

/-- A cell is computed from the cells of shorter spans. -/
theorem cellOf_congr
    {cell? cell?' : Span → Option Cell} {s : Span}
    (hs : s.Within tokens.length)
    (h : ∀ t : Span, t.Within tokens.length → t.len < s.len → cell? t = cell?' t) :
    g.cellOf tokens cell? s = g.cellOf tokens cell?' s := by
  have hways : g.ways cell? s = g.ways cell?' s := by
    unfold ways
    refine List.flatMap_congr ?_
    intro k hk
    obtain ⟨hpos, hlt⟩ := List.mem_range'_1.mp hk
    have hleft := h (s.left k) (Span.left_within hs (by omega) (by omega)) (by
      simp only [Span.left]; omega)
    have hright := h (s.right k) (Span.right_within hs (by omega)) (by
      simp only [Span.right]; omega)
    rw [hleft, hright]
  unfold cellOf
  rw [hways]

/-- A table answers every span of a sentence with the cell computed from the table itself. -/
def Tabulates
    (g : Grammar)
    (tokens : List String)
    (cell? : Span → Option Cell) : Prop :=
  ∀ s : Span, s.Within tokens.length → cell? s = some (g.cellOf tokens cell? s)

/-- A filled table obeys the recurrence. -/
theorem tabulates_fillCells
    (g : Grammar)
    (tokens : List String) :
    g.Tabulates tokens (cellAt? tokens.length (g.fillCells tokens)) := by
  intro s hs
  have hspans := getElem?_spans_slot hs
  have hcell := @getElem?_foldl_fillNext g tokens _ _ _ #[] hspans
  rw [Array.size_empty, Nat.zero_add] at hcell
  rw [cellAt?, if_pos hs]
  refine hcell.trans (congrArg some (cellOf_congr hs ?_))
  -- a shorter span was filled before `s`, and its cell has stayed
  intro t ht hlt
  have hslot := Span.slot_lt_slot hs ht hlt
  have hlength := (List.getElem?_eq_some_iff.mp hspans).1
  have hsize : (((spans tokens.length).take (s.slot tokens.length)).foldl
      (g.fillNext tokens) #[]).size = s.slot tokens.length := by
    rw [size_foldl_fillNext, List.length_take, Array.size_empty]
    omega
  rw [cellAt?, cellAt?, if_pos ht, if_pos ht, fillCells]
  conv_rhs => rw [← List.take_append_drop (s.slot tokens.length) (spans tokens.length)]
  rw [List.foldl_append]
  exact (getElem?_foldl_fillNext_of_lt _ _ (by omega)).symm

/-- The ways to derive a span are the applications of a rule at a cut whose two symbols derive
both parts. -/
theorem mem_ways_iff
    {cell? : Span → Option Cell} {s : Span} {way : Way} :
    way ∈ g.ways cell? s ↔
      ∃ k left right B rule m m',
        (0 < k ∧ k < s.len) ∧
        cell? (s.left k) = some left ∧
        cell? (s.right k) = some right ∧
        rule ∈ g.binaryRulesByLeft B ∧
        left.derivations? B = some m ∧
        right.derivations? rule.right = some m' ∧
        way = ⟨rule.head, m * m', ⟨s.left k, B, s.right k, rule.right⟩⟩ := by
  simp only [ways, List.mem_flatMap, List.mem_range'_1]
  constructor
  · rintro ⟨k, hk, hway⟩
    split at hway
    · rename_i left right hleft hright
      obtain ⟨B, _, hway⟩ := List.mem_flatMap.mp hway
      split at hway
      · cases hway
      · rename_i m hm
        obtain ⟨rule, hrule, hmap⟩ := List.mem_filterMap.mp hway
        obtain ⟨m', hm', rfl⟩ := Option.map_eq_some_iff.mp hmap
        exact ⟨k, left, right, B, rule, m, m', by omega, hleft, hright, hrule, hm, hm', rfl⟩
    · cases hway
  · rintro ⟨k, left, right, B, rule, m, m', hk, hleft, hright, hrule, hm, hm', rfl⟩
    refine ⟨k, by omega, ?_⟩
    rw [hleft, hright]
    refine List.mem_flatMap.mpr ⟨B, ?_, ?_⟩
    · rw [← Cell.isSome_derivations?_iff, hm]
      rfl
    · rw [hm]
      exact List.mem_filterMap.mpr ⟨rule, hrule, by rw [hm']; rfl⟩

/-- The ways to derive a span from one symbol. -/
def waysTo
    (ways : List Way)
    (A : Symbol) : List Way :=
  ways.filter (·.head == A)

theorem mem_waysTo_iff
    {ways : List Way} {A : Symbol} {way : Way} :
    way ∈ waysTo ways A ↔ way ∈ ways ∧ way.head = A := by
  simp [waysTo]

theorem entryOf?_eq
    (ways : List Way)
    (A : Symbol) :
    entryOf? ways A =
      if waysTo ways A = [] then none
      else some ⟨((waysTo ways A).map Way.count).sum, (waysTo ways A).map Way.split⟩ := by
  simp only [entryOf?, waysTo]
  split <;> simp_all [List.sum_eq_foldr]

/-- The entry of a symbol among those of the given symbols. -/
theorem lookup_entriesOf
    (ways : List Way)
    (symbols : List Symbol)
    (A : Symbol) :
    (entriesOf ways symbols).lookup A = if A ∈ symbols then entryOf? ways A else none := by
  induction symbols with
  | nil => rfl
  | cons B symbols ih =>
      simp only [entriesOf, List.filterMap_cons] at ih ⊢
      by_cases hAB : A = B
      · subst hAB
        cases hentry : entryOf? ways A with
        | none =>
            rw [Option.map_none, ih, hentry]
            simp
        | some entry =>
            simp
      · have hbeq : (A == B) = false := by
          simpa using hAB
        cases hentry : entryOf? ways B with
        | none =>
            rw [Option.map_none, ih]
            simp [hAB]
        | some entry =>
            rw [Option.map_some, List.lookup_cons, hbeq]
            simp only
            rw [ih]
            simp [hAB]

theorem map_fst_entriesOf
    (ways : List Way)
    (symbols : List Symbol) :
    (entriesOf ways symbols).map Prod.fst =
      symbols.filter fun A => (entryOf? ways A).isSome := by
  induction symbols with
  | nil => rfl
  | cons B symbols ih =>
      simp only [entriesOf, List.filterMap_cons, List.filter_cons] at ih ⊢
      cases entryOf? ways B with
      | none => simpa using ih
      | some entry => simpa using ih

theorem mem_nonterminals_iff
    {A : Symbol} :
    A ∈ g.nonterminals ↔ A.index < g.symbols.length := by
  simp only [nonterminals, List.mem_map, List.mem_range]
  constructor
  · rintro ⟨index, hlt, rfl⟩
    exact hlt
  · intro hlt
    exact ⟨A.index, hlt, rfl⟩

theorem nodup_nonterminals
    (g : Grammar) :
    g.nonterminals.Nodup := by
  refine List.nodup_range.map ?_
  intro i j h
  exact congrArg Symbol.index h

/-- The cell of a single token counts each symbol that becomes its word once. -/
theorem derivations?_cellOf_single
    {cell? : Span → Option Cell} {s : Span}
    (hlen : s.len = 1)
    (A : Symbol) :
    (g.cellOf tokens cell? s).derivations? A =
      if A ∈ g.lexicalHeads (tokens.getD s.start "") ∧ g.keeps tokens.length s A = true
      then some 1 else none := by
  simp [cellOf, hlen, Cell.derivations?, List.mem_filter]

/-- The cell of a longer span counts the ways to derive each symbol. -/
theorem derivations?_cellOf_longer
    {cell? : Span → Option Cell} {s : Span}
    (hlen : s.len ≠ 1)
    (A : Symbol) :
    (g.cellOf tokens cell? s).derivations? A =
      if A ∈ g.nonterminals ∧ g.keeps tokens.length s A = true
      then (entryOf? (g.ways cell? s) A).map Entry.count else none := by
  simp only [cellOf, if_neg hlen, Cell.derivations?, Cell.lookup, lookup_entriesOf,
    List.mem_filter]
  split <;> rfl

/-- A cell lists each symbol once. -/
theorem nodup_symbols_cellOf
    (hg : g.WellFormed)
    (cell? : Span → Option Cell)
    (s : Span) :
    (g.cellOf tokens cell? s).symbols.Nodup := by
  by_cases hlen : s.len = 1
  · simp only [cellOf, hlen, if_true, Cell.symbols]
    exact (hg.nodup_lexicalHeads _).filter _
  · simp only [cellOf, if_neg hlen, Cell.symbols, map_fst_entriesOf]
    exact ((nodup_nonterminals g).filter _).filter _

theorem left_of_mem_waysAt
    {s : Span} {k : Nat} {left right : Cell} {way : Way}
    (h : way ∈ g.waysAt s k left right) :
    way.split.left = s.left k := by
  obtain ⟨B, _, h⟩ := List.mem_flatMap.mp h
  split at h
  · cases h
  · obtain ⟨rule, _, hmap⟩ := List.mem_filterMap.mp h
    obtain ⟨m', _, rfl⟩ := Option.map_eq_some_iff.mp hmap
    rfl

/-- Two ways at one cut that have one head differ in their left or in their right symbol. -/
theorem pairwise_waysAt
    (hg : g.WellFormed)
    {s : Span} {k : Nat} {left right : Cell}
    (hleft : left.symbols.Nodup) :
    (g.waysAt s k left right).Pairwise fun way way' =>
      way.head = way'.head → way.split ≠ way'.split := by
  unfold waysAt
  rw [List.pairwise_flatMap]
  constructor
  · intro B _
    split
    · exact List.Pairwise.nil
    · rw [List.pairwise_filterMap]
      refine (hg.nodup_binaryRulesByLeft B).imp_of_mem ?_
      intro rule rule' hrule hrule' hne way hway way' hway' hhead hsplit
      obtain ⟨_, _, rfl⟩ := Option.map_eq_some_iff.mp hway
      obtain ⟨_, _, rfl⟩ := Option.map_eq_some_iff.mp hway'
      have hB := (hg.mem_binaryRulesByLeft_iff.mp hrule).2
      have hB' := (hg.mem_binaryRulesByLeft_iff.mp hrule').2
      obtain ⟨A, _, C⟩ := rule
      obtain ⟨A', _, C'⟩ := rule'
      simp_all
  · refine hleft.imp ?_
    intro B B' hne way hway way' hway' _ hsplit
    split at hway
    · cases hway
    · split at hway'
      · cases hway'
      · obtain ⟨_, _, hmap⟩ := List.mem_filterMap.mp hway
        obtain ⟨_, _, hmap'⟩ := List.mem_filterMap.mp hway'
        obtain ⟨_, _, rfl⟩ := Option.map_eq_some_iff.mp hmap
        obtain ⟨_, _, rfl⟩ := Option.map_eq_some_iff.mp hmap'
        exact hne (congrArg Split.leftSymbol hsplit)

namespace Tabulates

variable {cell? : Span → Option Cell} {s : Span}

/-- The parts of a span that is cut have cells. -/
theorem exists_cells
    (ht : g.Tabulates tokens cell?)
    (hs : s.Within tokens.length)
    {k : Nat}
    (hpos : 0 < k)
    (hlt : k < s.len) :
    ∃ left right, cell? (s.left k) = some left ∧ cell? (s.right k) = some right :=
  ⟨_, _, ht _ (Span.left_within hs hpos hlt), ht _ (Span.right_within hs hlt)⟩

theorem nodup_symbols
    (ht : g.Tabulates tokens cell?)
    (hg : g.WellFormed)
    (hs : s.Within tokens.length)
    {cell : Cell}
    (hcell : cell? s = some cell) :
    cell.symbols.Nodup := by
  rw [ht s hs, Option.some.injEq] at hcell
  rw [← hcell]
  exact nodup_symbols_cellOf hg cell? s

/-- A symbol that a cell lists has a derivation. -/
theorem pos_of_derivations?
    (ht : g.Tabulates tokens cell?)
    (hs : s.Within tokens.length)
    {cell : Cell} {A : Symbol} {m : Nat}
    (hcell : cell? s = some cell)
    (hm : cell.derivations? A = some m) :
    0 < m := by
  induction hlen : s.len using Nat.strong_induction_on generalizing s cell A m with
  | _ len ih =>
      rw [ht s hs, Option.some.injEq] at hcell
      subst hcell
      by_cases hone : s.len = 1
      · rw [derivations?_cellOf_single hone] at hm
        split at hm
        · cases hm
          exact Nat.one_pos
        · cases hm
      · rw [derivations?_cellOf_longer hone] at hm
        split at hm
        · obtain ⟨entry, hentry, rfl⟩ := Option.map_eq_some_iff.mp hm
          rw [entryOf?_eq] at hentry
          split at hentry
          · cases hentry
          · rename_i hne
            cases hentry
            -- one way is enough, and both of its factors are positive
            obtain ⟨way, hway⟩ := List.exists_mem_of_ne_nil _ hne
            obtain ⟨k, left, right, B, rule, m, m', hk, hleft, hright, _, hm, hm', rfl⟩ :=
              mem_ways_iff.mp (mem_waysTo_iff.mp hway).1
            have hfirst : 0 < m :=
              ih (s.left k).len (by simp only [Span.left]; omega)
                (Span.left_within hs hk.1 hk.2) hleft hm rfl
            have hsecond : 0 < m' :=
              ih (s.right k).len (by simp only [Span.right]; omega)
                (Span.right_within hs hk.2) hright hm' rfl
            have hle := List.le_sum_of_mem (List.mem_map_of_mem (f := Way.count) hway)
            exact Nat.lt_of_lt_of_le (Nat.mul_pos hfirst hsecond) hle
        · cases hm

/-- Two ways to derive a span from one symbol split it differently. -/
theorem pairwise_ways
    (ht : g.Tabulates tokens cell?)
    (hg : g.WellFormed)
    (hs : s.Within tokens.length) :
    (g.ways cell? s).Pairwise fun way way' =>
      way.head = way'.head → way.split ≠ way'.split := by
  unfold ways
  rw [List.pairwise_flatMap]
  constructor
  · intro k hk
    obtain ⟨hpos, hlt⟩ := List.mem_range'_1.mp hk
    obtain ⟨left, right, hleft, hright⟩ := ht.exists_cells hs (k := k) (by omega) (by omega)
    rw [hleft, hright]
    exact pairwise_waysAt hg
      (ht.nodup_symbols hg (Span.left_within hs (by omega) (by omega)) hleft)
  · refine List.Pairwise.imp ?_ (List.nodup_range' 1)
    intro k k' hne way hway way' hway' _ hsplit
    split at hway
    · split at hway'
      · have hcut := left_of_mem_waysAt hway
        have hcut' := left_of_mem_waysAt hway'
        rw [hsplit, hcut'] at hcut
        exact hne (congrArg Span.len hcut).symm
      · cases hway'
    · cases hway

end Tabulates
end Grammar
end ChartParsing
