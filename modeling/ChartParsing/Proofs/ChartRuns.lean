import ChartParsing.Forest
import ChartParsing.Proofs.FilledChart

/-!
# Runs of a chart

A chart can be filled and cleared in any order.  What it holds depends on the last operation
alone, and a chart that was filled holds one cell for each span of its sentence.

**Filling.** `Chart.during` is a chart on the way: the cells of some first spans are written.
The next span is longer than its parts, so the cells of the parts are among them
(`Chart.isSome_cell?_during`), and the cell that is written next stays where its span will look
for it (`Chart.stepped_fill`).

**Results.** `followAll_vacant_or_holds`: after any operations a chart is vacant, or it holds
the sentence of the last operation with its whole table.
-/

namespace ChartParsing
namespace Chart

/-- What can be done with a chart. -/
inductive Operation
  | fill (tokens : List String)
  | clear
  deriving DecidableEq, Repr

/-- The chart after an operation. -/
def follow (c : Chart) : Operation → Chart
  | .fill tokens => (c.fill tokens).2
  | .clear => c.clear

/-- The chart after operations in order. -/
def followAll (c : Chart) (operations : List Operation) : Chart :=
  operations.foldl follow c

/-- A chart on the way to be filled: the cells of the given spans are written. -/
def during (g : Grammar) (tokens : List String) (written : List Span) : Chart :=
  ⟨g, tokens, written.foldl (g.fillNext tokens) #[]⟩

/-- There is no sentence in the chart. -/
structure Vacant (c : Chart) : Prop where
  tokens_eq : c.tokens = []
  cells_eq : c.cells = #[]
  count?_eq : c.count? = none
  isFilled_eq : c.isFilled = false
  ofChart_eq : Forest.ofChart c = .error .treesBeforeParse

/-- A span can be cut after its first `k` tokens, and the cells of both parts are written. -/
structure CutWritten (c : Chart) (s : Span) (k : Nat) : Prop where
  splitAt_ne : s.splitAt k ≠ .error .splitOutside
  splitAt_eq : c.len < Span.wordSize → s.splitAt k = .ok (s.left k, s.right k)
  isSome_left : (c.cell? (s.left k)).isSome
  isSome_right : (c.cell? (s.right k)).isSome

/-- Filling wrote the cell of a span after those of the earlier spans. -/
structure Stepped (c : Chart) (earlier : List Span) (s : Span) : Prop where
  cut_written : ∀ k, 1 ≤ k → k < s.len → (during c.grammar c.tokens earlier).CutWritten s k
  exists_cell : ∃ cell,
    (during c.grammar c.tokens (earlier ++ [s])).cells =
        (during c.grammar c.tokens earlier).cells.push cell ∧
      c.cells[s.slot c.len]? = some cell ∧
      c.cell? s = some cell ∧
      (s.len = 1 → ∃ symbols, cell = .leaf (c.tokens.getD s.start "") symbols)

/-- The chart holds a sentence with its whole table. -/
structure Holds (c : Chart) (tokens : List String) : Prop where
  tokens_ne_nil : tokens ≠ []
  tokens_eq : c.tokens = tokens
  size_cells : c.cells.size = tokens.length * (tokens.length + 1) / 2
  /-- A query whose end is a word is answered with the cell of its span. -/
  cell_eq : ∀ s : Span, s.start + s.len < Span.wordSize → c.cell s = .ok (c.cell? s)
  isSome_cell?_iff : ∀ s : Span,
    (c.cell? s).isSome ↔ 1 ≤ s.len ∧ s.start + s.len ≤ tokens.length
  /-- Different spans of the sentence have different slots. -/
  eq_of_slot_eq : ∀ s t : Span, s.Within tokens.length → t.Within tokens.length →
    s.slot tokens.length = t.slot tokens.length → s = t
  /-- The slots of the spans are the places of the table. -/
  exists_slot_eq_iff : ∀ i, (∃ s : Span, s.Within tokens.length ∧ s.slot tokens.length = i) ↔
    i < c.cells.size
  /-- The table was written span by span. -/
  eq_during : c = during c.grammar tokens (spans tokens.length)
  stepped : ∀ earlier s later, spans tokens.length = earlier ++ s :: later → c.Stepped earlier s
  exists_count? : ∃ n, c.count? = some n
  isFilled_eq : c.isFilled = true
  exists_ofChart : ∃ f, Forest.ofChart c = .ok f

variable {g : Grammar} {c : Chart} {tokens : List String} {earlier later : List Span} {s t : Span}

theorem vacant_empty
    (g : Grammar) :
    (empty g).Vacant where
  tokens_eq := rfl
  cells_eq := rfl
  count?_eq := rfl
  isFilled_eq := rfl
  ofChart_eq := rfl

@[simp] theorem size_cells_during
    (g : Grammar)
    (tokens : List String)
    (written : List Span) :
    (during g tokens written).cells.size = written.length := by
  rw [during, Grammar.size_foldl_fillNext, Array.size_empty, Nat.zero_add]

/-- A span is reached after as many spans as its slot says. -/
theorem slot_eq_length
    {n : Nat}
    (h : spans n = earlier ++ s :: later) :
    s.slot n = earlier.length := by
  refine slot_eq_of_getElem? ?_
  rw [h, List.getElem?_append_right (Nat.le_refl _), Nat.sub_self]
  rfl

theorem within_of_append
    {n : Nat}
    (h : spans n = earlier ++ s :: later) :
    s.Within n := by
  refine mem_spans_iff.mp ?_
  rw [h]
  exact List.mem_append_right _ List.mem_cons_self

/-- When a span is reached, the cells of all shorter spans are written. -/
theorem isSome_cell?_during
    (h : spans tokens.length = earlier ++ s :: later)
    (ht : t.Within tokens.length)
    (hlt : t.len < s.len) :
    ((during g tokens earlier).cell? t).isSome := by
  have hslot := Span.slot_lt_slot (within_of_append h) ht hlt
  rw [slot_eq_length h] at hslot
  have hlen : (during g tokens earlier).len = tokens.length := rfl
  rw [← size_cells_during g tokens earlier] at hslot
  rw [cell?, hlen, cellAt?, if_pos ht, Array.getElem?_eq_getElem hslot]
  rfl

/-- When a span is reached, it can be cut everywhere into spans whose cells are written. -/
theorem cutWritten_during
    (h : spans tokens.length = earlier ++ s :: later)
    {k : Nat}
    (hpos : 1 ≤ k)
    (hlt : k < s.len) :
    (during g tokens earlier).CutWritten s k := by
  have hs := within_of_append h
  refine ⟨?_, ?_, ?_, ?_⟩
  · rw [Span.splitAt, if_pos ⟨hpos, hlt⟩, Span.addWords]
    split <;> simp [Except.map]
  · intro hword
    have hlen : (during g tokens earlier).len = tokens.length := rfl
    have hend := hs.2
    rw [Span.splitAt, if_pos ⟨hpos, hlt⟩, Span.addWords, if_pos (by omega)]
    rfl
  · exact isSome_cell?_during h (Span.left_within hs hpos hlt) hlt
  · refine isSome_cell?_during h (Span.right_within hs hlt) ?_
    simp only [Span.right]
    omega

/-- The cell that is written for a span is the one that the span looks up in the end. -/
theorem stepped_fill
    (h : spans tokens.length = earlier ++ s :: later) :
    (during g tokens (spans tokens.length)).Stepped earlier s := by
  refine ⟨fun k hpos hlt => cutWritten_during h hpos hlt, ?_⟩
  have hs := within_of_append h
  have hget : (spans tokens.length)[earlier.length]? = some s := by
    rw [h, List.getElem?_append_right (Nat.le_refl _), Nat.sub_self]
    rfl
  have hcell := @Grammar.getElem?_foldl_fillNext g tokens _ _ _ #[] hget
  rw [Array.size_empty, Nat.zero_add, h, List.take_left, ← h] at hcell
  have hslot : (during g tokens (spans tokens.length)).cells[s.slot tokens.length]? =
      some (g.cellOf tokens (cellAt? tokens.length (during g tokens earlier).cells) s) := by
    rw [slot_eq_length h]
    exact hcell
  refine ⟨_, ?_, hslot, ?_, ?_⟩
  · simp only [during, List.foldl_append, List.foldl_cons, List.foldl_nil]
    rfl
  · have hlen : (during g tokens (spans tokens.length)).len = tokens.length := rfl
    rw [cell?, hlen, cellAt?, if_pos hs]
    exact hslot
  · intro hone
    rw [Grammar.cellOf, if_pos hone]
    exact ⟨_, rfl⟩

/-- A chart that was filled with a sentence holds it. -/
theorem Filled.holds
    {n : Nat}
    (h : c.Filled g tokens n) :
    c.Holds tokens := by
  have hisFilled := h.isFilled_eq_true
  obtain ⟨_, rfl, hne, hcomplete, hcount⟩ := h
  have hduring : c = during c.grammar c.tokens (spans c.tokens.length) := by
    obtain ⟨grammar, tokens, cells⟩ := c
    exact congrArg (Chart.mk grammar tokens) hcomplete
  have hsize : c.cells.size = (spans c.tokens.length).length := by
    rw [hduring]
    exact size_cells_during _ _ _
  refine
    { tokens_ne_nil := hne
      tokens_eq := rfl
      size_cells := ?_
      cell_eq := fun s hword => cell_eq_ok hword
      isSome_cell?_iff := fun s => hcomplete.isSome_cell?_iff
      eq_of_slot_eq := fun s t hs ht hslot => slot_injective hs ht hslot
      exists_slot_eq_iff := ?_
      eq_during := hduring
      stepped := ?_
      exists_count? := ⟨n, hcount⟩
      isFilled_eq := hisFilled
      exists_ofChart := ⟨_, if_pos hisFilled⟩ }
  · have htwo := two_mul_length_spans c.tokens.length
    omega
  · intro i
    rw [hsize]
    exact exists_slot_eq_iff
  · intro earlier s later hspans
    rw [hduring]
    exact stepped_fill hspans

theorem grammar_follow
    (c : Chart)
    (operation : Operation) :
    (c.follow operation).grammar = c.grammar := by
  cases operation with
  | fill tokens =>
      simp only [follow, fill]
      split <;> rfl
  | clear => rfl

/-- Operations keep the grammar of a chart. -/
theorem grammar_followAll
    (c : Chart)
    (operations : List Operation) :
    (c.followAll operations).grammar = c.grammar := by
  induction operations generalizing c with
  | nil => rfl
  | cons operation rest ih => exact (ih (c.follow operation)).trans (grammar_follow c operation)

theorem followAll_append_singleton
    (c : Chart)
    (operations : List Operation)
    (last : Operation) :
    c.followAll (operations ++ [last]) = (c.followAll operations).follow last := by
  rw [followAll, List.foldl_append]
  rfl

/-- What the last operation leaves behind: nothing if it cleared the chart or was rejected, and
else the whole table of its sentence. -/
theorem vacant_or_holds_follow
    (c : Chart)
    (last : Operation) :
    ((c.follow last).Vacant ∧
        (last = .clear ∨
          ∃ tokens, last = .fill tokens ∧ (c.fill tokens).1 = .error .emptyInput)) ∨
      ∃ tokens n, last = .fill tokens ∧ (c.fill tokens).1 = .ok n ∧
        (c.follow last).Holds tokens := by
  cases last with
  | clear => exact Or.inl ⟨vacant_empty c.grammar, Or.inl rfl⟩
  | fill tokens =>
      by_cases hnil : tokens = []
      · subst hnil
        exact Or.inl ⟨vacant_empty c.grammar, Or.inr ⟨[], rfl, rfl⟩⟩
      · obtain ⟨n, filled, hfill⟩ := c.exists_fill hnil
        have hholds := (Filled.of_fill hfill).holds
        refine Or.inr ⟨tokens, n, rfl, by rw [hfill], ?_⟩
        rwa [follow, hfill]

/-- After any operations a chart is vacant, since nothing was done or the last operation cleared
it or was rejected, or it holds the sentence of the last operation with its whole table. -/
theorem followAll_vacant_or_holds
    (g : Grammar)
    (operations : List Operation) :
    ((empty g).followAll operations).grammar = g ∧
      ((((empty g).followAll operations).Vacant ∧
          (operations = [] ∨
            (∃ earlier, operations = earlier ++ [.clear]) ∨
            ∃ earlier tokens, operations = earlier ++ [.fill tokens] ∧
              (((empty g).followAll earlier).fill tokens).1 = .error .emptyInput)) ∨
        ∃ earlier tokens n, operations = earlier ++ [.fill tokens] ∧
          (((empty g).followAll earlier).fill tokens).1 = .ok n ∧
          ((empty g).followAll operations).Holds tokens) := by
  refine ⟨grammar_followAll (empty g) operations, ?_⟩
  rcases List.eq_nil_or_concat operations with rfl | ⟨earlier, last, rfl⟩
  · exact Or.inl ⟨vacant_empty g, Or.inl rfl⟩
  · rw [List.concat_eq_append, followAll_append_singleton]
    rcases vacant_or_holds_follow ((empty g).followAll earlier) last with
      ⟨hvacant, rfl | ⟨tokens, rfl, hfill⟩⟩ | ⟨tokens, n, rfl, hfill, hholds⟩
    · exact Or.inl ⟨hvacant, Or.inr (Or.inl ⟨earlier, rfl⟩)⟩
    · exact Or.inl ⟨hvacant, Or.inr (Or.inr ⟨earlier, tokens, rfl, hfill⟩)⟩
    · exact Or.inr ⟨earlier, tokens, n, rfl, hfill, hholds⟩

end Chart
end ChartParsing
