/-!
# Spans of a sentence

A span is a stretch of consecutive tokens, given by its first position and its length.

**Words.** Positions are 64-bit words.  A sum of two positions that is no word is no position
either, and breaks off the computation that needs it (`Abort`).
-/

namespace ChartParsing

/-- Why a computation with positions breaks off without an answer. -/
inductive Abort
  /-- A sum of two words is no word. -/
  | overflow
  /-- A span is cut where one of the halves would be empty. -/
  | splitOutside
  deriving DecidableEq, Repr

/-- The wording of the reason. -/
def Abort.message : Abort → String
  | overflow => "attempt to add with overflow"
  | splitOutside => "Split outside of span"

/-- The tokens from position `start` on, `len` of them. -/
structure Span where
  start : Nat
  len : Nat
  deriving DecidableEq, Hashable, Repr

namespace Span

/-- One more than the largest position. -/
def wordSize : Nat :=
  Nat.pow 2 64

/-- The sum of two words. -/
def addWords (a b : Nat) : Except Abort Nat :=
  if a + b < wordSize then .ok (a + b) else .error .overflow

/-- The position after the last token. -/
def stop (s : Span) : Except Abort Nat :=
  addWords s.start s.len

/-- The span lies in a sentence of `n` tokens and holds at least one of them. -/
def Within (n : Nat) (s : Span) : Prop :=
  0 < s.len ∧ s.start + s.len ≤ n

instance (n : Nat) (s : Span) : Decidable (s.Within n) :=
  inferInstanceAs (Decidable (0 < s.len ∧ s.start + s.len ≤ n))

/-- The first `k` tokens of a span. -/
def left (s : Span) (k : Nat) : Span :=
  ⟨s.start, k⟩

/-- The tokens of a span after the first `k`. -/
def right (s : Span) (k : Nat) : Span :=
  ⟨s.start + k, s.len - k⟩

/-- Both halves of a span cut after its first `k` tokens; neither may be empty. -/
def splitAt (s : Span) (k : Nat) : Except Abort (Span × Span) :=
  if 0 < k ∧ k < s.len then
    (addWords s.start k).map fun middle => (s.left k, ⟨middle, s.len - k⟩)
  else
    .error .splitOutside

/-- The span of all tokens of a sentence of `n` tokens. -/
def whole (n : Nat) : Span :=
  ⟨0, n⟩

/-- The span as a half-open interval. -/
def text (s : Span) : String :=
  "[" ++ toString s.start ++ ", " ++ toString (s.start + s.len) ++ ")"

/-- The text of a span that any two words make, which takes its end. -/
def display (s : Span) : Except Abort String :=
  s.stop.map fun _ => s.text

end Span
end ChartParsing
