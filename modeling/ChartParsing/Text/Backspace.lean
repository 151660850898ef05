import ChartParsing.Text.Cluster

/-!
# Backspaces

In a line that is typed, a backspace takes back the cluster before it.  The size of a cluster
is remembered in one byte, so of a cluster that takes 256 bytes or more only the remainder is
taken back; where that would cut a character in two, the line cannot be edited.

**Results.** A line without backspaces stays as it is (`applyBackspaces?_of_not_mem`).
-/

namespace ChartParsing
namespace Text

/-- The character that takes back what is before it. -/
def backspace : Char :=
  '\x08'

/-- A line as far as it is typed. -/
structure TypedLine where
  /-- The characters, last first. -/
  chars : List Char
  /-- The numbers of bytes that backspaces would take back, last first. -/
  sizes : List UInt8
  deriving DecidableEq, Repr

/-- The number of bytes of a text. -/
def byteSize (cs : List Char) : Nat :=
  (cs.map Char.utf8Size).foldr (· + ·) 0

/-- Drops bytes from a text, given last character first; fails if that would leave a part of a
character. -/
def dropBytes? : Nat → List Char → Option (List Char)
  | 0, cs => some cs
  | _ + 1, [] => none
  | n + 1, c :: cs =>
      if c.utf8Size ≤ n + 1 then dropBytes? (n + 1 - c.utf8Size) cs else none

/-- Types one cluster. -/
def TypedLine.type? (line : TypedLine) (cluster : List Char) : Option TypedLine :=
  if cluster = [backspace] then
    match line.sizes with
    | [] => some line
    | size :: sizes => do return ⟨← dropBytes? size.toNat line.chars, sizes⟩
  else
    some ⟨cluster.reverse ++ line.chars, (byteSize cluster).toUInt8 :: line.sizes⟩

/-- The line that is left when all of its backspaces have been typed. -/
def applyBackspaces? (cs : List Char) : Option (List Char) := do
  let line ← (clusters cs).foldlM TypedLine.type? ⟨[], []⟩
  return line.chars.reverse

/-- Typing clusters without backspaces keeps all of their characters. -/
theorem exists_foldlM_type?
    (ks : List (List Char))
    (line : TypedLine)
    (h : backspace ∉ ks.flatten) :
    ∃ sizes, ks.foldlM TypedLine.type? line = some ⟨ks.flatten.reverse ++ line.chars, sizes⟩ := by
  induction ks generalizing line with
  | nil => exact ⟨line.sizes, rfl⟩
  | cons k ks ih =>
      simp only [List.flatten_cons, List.mem_append, not_or] at h
      have plain : k ≠ [backspace] := by
        rintro rfl
        simp at h
      obtain ⟨sizes, hs⟩ :=
        ih ⟨k.reverse ++ line.chars, (byteSize k).toUInt8 :: line.sizes⟩ h.2
      exact ⟨sizes, by simp [TypedLine.type?, plain, hs]⟩

/-- A line without backspaces stays as it is. -/
theorem applyBackspaces?_of_not_mem
    (cs : List Char)
    (h : backspace ∉ cs) :
    applyBackspaces? cs = some cs := by
  obtain ⟨sizes, hs⟩ := exists_foldlM_type? (clusters cs) ⟨[], []⟩ (by simpa using h)
  simp [applyBackspaces?, hs]

end Text
end ChartParsing
