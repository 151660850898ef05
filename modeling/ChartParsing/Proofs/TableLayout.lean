import ChartParsing.Chart.Layout
import Mathlib.Data.List.Nodup
import Mathlib.Tactic.Ring

/-!
# Slots of a table

The slot of a span is the number of spans before it: all shorter ones, and those of its own
length that start earlier.  Halving a product, as `Span.slot` does, gives that number
exactly.

**Results.**
* `getElem?_spans_slot`: a span stands at its slot among the spans of its sentence.
* `slot_lt_slot`: shorter spans come first.
* `slot_injective`, `exists_slot_eq_iff`: the slots of the spans are the places of the table,
  each of them once.
-/

namespace ChartParsing

/-- The number of spans of a sentence of `n` tokens that hold at most `k` of them. -/
def spansUpTo (n k : Nat) : Nat :=
  ((List.range k).map (n - ·)).sum

@[simp] theorem spansUpTo_zero
    (n : Nat) :
    spansUpTo n 0 = 0 := by
  rfl

@[simp] theorem spansUpTo_succ
    (n k : Nat) :
    spansUpTo n (k + 1) = spansUpTo n k + (n - k) := by
  simp [spansUpTo, List.range_succ]

theorem spansUpTo_mono
    {n j k : Nat}
    (h : j ≤ k) :
    spansUpTo n j ≤ spansUpTo n k := by
  induction h with
  | refl => exact Nat.le_refl _
  | step _ ih =>
      rw [spansUpTo_succ]
      omega

theorem two_mul_spansUpTo
    {n k : Nat}
    (h : k ≤ n) :
    2 * spansUpTo n k = k * (2 * n + 1 - k) := by
  induction k with
  | zero => simp
  | succ k ih =>
      obtain ⟨d, rfl⟩ := Nat.exists_eq_add_of_le h
      have hleft : 2 * (k + 1 + d) + 1 - k = k + 2 * d + 3 := by omega
      have hright : 2 * (k + 1 + d) + 1 - (k + 1) = k + 2 * d + 2 := by omega
      have hrest : k + 1 + d - k = d + 1 := by omega
      rw [spansUpTo_succ, Nat.mul_add, ih (by omega), hleft, hright, hrest]
      ring

namespace Span

variable {n : Nat} {s t : Span}

theorem Within.len_le
    (h : s.Within n) :
    s.len ≤ n := by
  obtain ⟨_, hend⟩ := h
  omega

theorem left_within
    {k : Nat}
    (h : s.Within n)
    (hpos : 0 < k)
    (hlt : k < s.len) :
    (s.left k).Within n := by
  obtain ⟨_, hend⟩ := h
  exact ⟨hpos, by simp only [left]; omega⟩

theorem right_within
    {k : Nat}
    (h : s.Within n)
    (hlt : k < s.len) :
    (s.right k).Within n := by
  obtain ⟨_, hend⟩ := h
  simp only [right]
  exact ⟨by simp only; omega, by simp only; omega⟩

theorem whole_within
    (h : 0 < n) :
    (whole n).Within n := by
  exact ⟨h, by simp [whole]⟩

/-- A span as long as the sentence is the span of all its tokens. -/
theorem eq_whole_iff
    (h : s.Within n) :
    s = whole n ↔ s.len = n := by
  obtain ⟨start, len⟩ := s
  obtain ⟨_, hend⟩ := h
  simp only [whole, mk.injEq] at hend ⊢
  omega

/-- The slot of a span is the number of spans before it. -/
theorem slot_eq
    (h : s.Within n) :
    s.slot n = spansUpTo n (s.len - 1) + s.start := by
  have hlen := h.len_le
  have htwo := two_mul_spansUpTo (n := n) (k := s.len - 1) (by omega)
  have hfactor : 2 * n + 1 - (s.len - 1) = 2 * n + 2 - s.len := by
    have hpos := h.1
    omega
  rw [hfactor] at htwo
  rw [slot, ← htwo, Nat.mul_div_cancel_left _ (by decide)]

/-- Shorter spans come first. -/
theorem slot_lt_slot
    (hs : s.Within n)
    (ht : t.Within n)
    (hlt : t.len < s.len) :
    t.slot n < s.slot n := by
  rw [slot_eq hs, slot_eq ht]
  obtain ⟨hpos, hend⟩ := ht
  have hnext := spansUpTo_succ n (t.len - 1)
  have hmono : spansUpTo n (t.len - 1 + 1) ≤ spansUpTo n (s.len - 1) :=
    spansUpTo_mono (by omega)
  omega

end Span

theorem mem_spans_iff
    {n : Nat} {s : Span} :
    s ∈ spans n ↔ s.Within n := by
  obtain ⟨start, len⟩ := s
  simp only [spans, List.mem_flatMap, List.mem_map, List.mem_range, Span.mk.injEq, Span.Within]
  constructor
  · rintro ⟨shorter, hshorter, _, hstart, rfl, rfl⟩
    omega
  · rintro ⟨hpos, hend⟩
    exact ⟨len - 1, by omega, start, by omega, rfl, by omega⟩

/-- The spans up to a length are as many as their number says. -/
theorem length_flatMap_spans
    (n k : Nat) :
    ((List.range k).flatMap fun shorter =>
      (List.range (n - shorter)).map fun start => (⟨start, shorter + 1⟩ : Span)).length =
      spansUpTo n k := by
  simp [spansUpTo, List.length_flatMap]

theorem length_spans
    (n : Nat) :
    (spans n).length = spansUpTo n n :=
  length_flatMap_spans n n

/-- A span stands at its slot among the spans of its sentence. -/
theorem getElem?_spans_slot
    {n : Nat} {s : Span}
    (h : s.Within n) :
    (spans n)[s.slot n]? = some s := by
  obtain ⟨start, len⟩ := s
  obtain ⟨k, rfl⟩ : ∃ k, len = k + 1 := Nat.exists_eq_succ_of_ne_zero (Nat.pos_iff_ne_zero.mp h.1)
  obtain ⟨_, hend⟩ := h
  simp only at hend
  -- the lengths up to `k`, the length `k + 1`, and the longer ones
  have hrange : List.range n =
      List.range k ++ k :: (List.range (n - (k + 1))).map (k + 1 + ·) := by
    rw [← List.singleton_append, ← List.append_assoc, ← List.range_succ, ← List.range_add]
    congr 1
    omega
  have hslot : (⟨start, k + 1⟩ : Span).slot n = spansUpTo n k + start :=
    Span.slot_eq ⟨Nat.succ_pos k, hend⟩
  rw [hslot, spans, hrange, List.flatMap_append, List.flatMap_cons]
  rw [List.getElem?_append_right (by rw [length_flatMap_spans]; omega), length_flatMap_spans]
  rw [Nat.add_sub_cancel_left, List.getElem?_append_left (by simp; omega), List.getElem?_map,
    List.getElem?_range (by omega)]
  rfl

/-- The spans of a sentence of `n` tokens are as many as the numbers up to `n` add up to. -/
theorem two_mul_length_spans
    (n : Nat) :
    2 * (spans n).length = n * (n + 1) := by
  have hfactor : 2 * n + 1 - n = n + 1 := by omega
  rw [length_spans, two_mul_spansUpTo (Nat.le_refl n), hfactor]

theorem nodup_spans
    (n : Nat) :
    (spans n).Nodup := by
  unfold spans
  rw [List.nodup_flatMap]
  constructor
  · intro shorter _
    refine List.nodup_range.map ?_
    intro start start' h
    exact congrArg Span.start h
  · refine List.nodup_range.imp ?_
    intro shorter shorter' hne s hs hs'
    obtain ⟨_, _, rfl⟩ := List.mem_map.mp hs
    obtain ⟨_, _, heq⟩ := List.mem_map.mp hs'
    exact hne (Nat.succ.inj (congrArg Span.len heq)).symm

/-- A span with so many spans before it has that slot. -/
theorem slot_eq_of_getElem?
    {n i : Nat} {s : Span}
    (h : (spans n)[i]? = some s) :
    s.slot n = i := by
  have hs : s.Within n := mem_spans_iff.mp (List.mem_of_getElem? h)
  obtain ⟨hlt, hget⟩ := List.getElem?_eq_some_iff.mp h
  obtain ⟨hlt', hget'⟩ := List.getElem?_eq_some_iff.mp (getElem?_spans_slot hs)
  exact (nodup_spans n).getElem_inj_iff.mp (hget'.trans hget.symm)

/-- Two spans of a sentence that have one slot are equal. -/
theorem slot_injective
    {n : Nat} {s t : Span}
    (hs : s.Within n)
    (ht : t.Within n)
    (h : s.slot n = t.slot n) :
    s = t := by
  have hspan := getElem?_spans_slot hs
  rw [h, getElem?_spans_slot ht] at hspan
  exact (Option.some.inj hspan).symm

/-- The slots of the spans are the places in the order of filling. -/
theorem exists_slot_eq_iff
    {n i : Nat} :
    (∃ s : Span, s.Within n ∧ s.slot n = i) ↔ i < (spans n).length := by
  constructor
  · rintro ⟨s, hs, rfl⟩
    exact (List.getElem?_eq_some_iff.mp (getElem?_spans_slot hs)).1
  · intro hlt
    have hget := List.getElem?_eq_getElem hlt
    exact ⟨_, mem_spans_iff.mp (List.getElem_mem hlt), slot_eq_of_getElem? hget⟩

end ChartParsing
