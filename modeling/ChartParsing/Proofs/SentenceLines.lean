import ChartParsing.Proofs.TrimmedFields
import ChartParsing.Sentence

/-!
# Lines of sentence files

A file of sentences is read line by line, and no line has a say in how another one is read.  So a
file that goes on behind a new-line has the sentences of both its parts, and an error in the second
part is said to be on the line that it stands on in the whole file.

**Lines.** A carriage return at the end of a line, and whether the last line ends with a new-line,
make no difference: a file is read as its stretches between new-lines are (`Sentence.readAll_eq`).

**Results.** `Sentence.readAll_append_newline`: how two texts with a new-line between them are read.
-/

namespace ChartParsing

namespace Text

variable {cs field : List Char} {c : Char}

/-- A line without the carriage return at its end, if it has one. -/
def dropReturn (line : List Char) : List Char :=
  if line.getLast? = some '\r' then line.dropLast else line

theorem dropReturn_cons
    (h : field ≠ [] ∨ c ≠ '\r') :
    dropReturn (c :: field) = c :: dropReturn field := by
  cases field with
  | nil =>
      have hc : c ≠ '\r' := h.resolve_left fun hne => hne rfl
      simp [dropReturn, hc]
  | cons d field =>
      rw [dropReturn, dropReturn, List.getLast?_cons_cons, List.dropLast_cons_cons]
      split <;> rfl

/-- A character that begins no end of a line belongs to the first line. -/
theorem lines_cons
    (hnewline : c ≠ '\n')
    (hreturn : c = '\r' → cs.head? ≠ some '\n') :
    lines (c :: cs) = (c :: (lines cs).headD []) :: (lines cs).tail := by
  rw [lines]
  · cases lines cs <;> rfl
  · rintro rest rfl rfl
    exact hreturn rfl rfl
  · exact hnewline

/-- A text without a new-line is one line, if it holds a character. -/
theorem lines_of_free
    (hfield : '\n' ∉ field) :
    lines field = if field.isEmpty then [] else [field] := by
  induction field with
  | nil => rfl
  | cons c field ih =>
      obtain ⟨hc, hfield⟩ := List.ne_and_not_mem_of_not_mem_cons hfield
      have hhead : field.head? ≠ some '\n' := fun hhead => hfield (List.mem_of_head? hhead)
      rw [lines_cons hc.symm fun _ => hhead, ih hfield]
      cases field <;> rfl

/-- The first line of a text goes up to its first new-line, or a carriage return in front of it. -/
theorem lines_append_newline
    (hfield : '\n' ∉ field)
    (rest : List Char) :
    lines (field ++ '\n' :: rest) = dropReturn field :: lines rest := by
  induction field with
  | nil => exact lines_newline rest
  | cons c field ih =>
      obtain ⟨hc, hfree⟩ := List.ne_and_not_mem_of_not_mem_cons hfield
      by_cases hreturn : field ≠ [] ∨ c ≠ '\r'
      · rw [List.cons_append, lines_cons hc.symm, ih hfree, dropReturn_cons hreturn]
        · rfl
        · rintro rfl hhead
          have hne : field ≠ [] := hreturn.resolve_right fun hne => hne rfl
          rw [List.head?_append_of_ne_nil _ hne] at hhead
          exact hfree (List.mem_of_head? hhead)
      · obtain ⟨hnil, hcr⟩ := not_or.mp hreturn
        obtain rfl := not_not.mp hnil
        obtain rfl := not_not.mp hcr
        exact lines_return_newline rest

/-- A blank at the end of a text is trimmed with it. -/
theorem trim_append_singleton
    (hc : isBlank c = true)
    (cs : List Char) :
    trim (cs ++ [c]) = trim cs := by
  by_cases hblank : trimStart cs = []
  · have hstart : trimStart (cs ++ [c]) = [] := by
      rw [trimStart_eq_nil_iff] at hblank ⊢
      simpa [hc, or_imp, forall_and] using hblank
    rw [trim, trim, hstart, hblank]
  · have hstart : trimStart (cs ++ [c]) = trimStart cs ++ [c] := by
      rw [trimStart, List.dropWhile_append, ← trimStart, if_neg (by simpa using hblank)]
    rw [trim, trim, hstart, trimEnd_append_singleton, if_pos hc]

theorem trim_dropReturn
    (line : List Char) :
    trim (dropReturn line) = trim line := by
  rw [dropReturn]
  split
  · rename_i hlast
    obtain ⟨front, rfl⟩ := List.getLast?_eq_some_iff.mp hlast
    rw [List.dropLast_concat, trim_append_singleton (by decide)]
  · rfl

end Text

/-- The error of a line that has some more lines in front of it. -/
def SentenceError.behind (earlier : Nat) (e : SentenceError) : SentenceError :=
  { e with line := e.line + earlier }

namespace Sentence

open Text

/-- A line is read as it is trimmed. -/
theorem ofLine_congr
    {line line' : List Char}
    (h : trim line = trim line')
    (number : Nat) :
    ofLine number line = ofLine number line' := by
  rw [ofLine, ofLine, h]

/-- The lines of a text are read as its stretches between new-lines are. -/
theorem ofLines_lines
    (number : Nat)
    (cs : List Char) :
    ofLines number (lines cs) = ofLines number (cs.splitOn '\n') := by
  induction cs using induction_on_fields ['\n'] generalizing number with
  | last field hfield =>
      have hfree : '\n' ∉ field := fun hmem => hfield '\n' hmem List.mem_cons_self
      rw [lines_of_free hfree, List.splitOn_eq_singleton hfree]
      split
      · rename_i hempty
        rw [List.isEmpty_iff.mp hempty]
        rfl
      · rfl
  | cons field d rest hfield hd ih =>
      obtain rfl := List.mem_singleton.mp hd
      have hfree : '\n' ∉ field := fun hmem => hfield '\n' hmem hd
      rw [lines_append_newline hfree, List.splitOn_append_cons_self,
        List.splitOn_eq_singleton hfree, List.singleton_append, ofLines, ofLines, ih,
        ofLine_congr (trim_dropReturn field)]

theorem readAll_eq
    (cs : List Char) :
    readAll cs = ofLines 1 (cs.splitOn '\n') :=
  ofLines_lines 1 cs

/-- Lines are read one after the other, up to the first error. -/
theorem ofLines_append
    (number : Nat)
    (earlier later : List (List Char)) :
    ofLines number (earlier ++ later) = do
      let first ← ofLines number earlier
      let second ← ofLines (number + earlier.length) later
      return first ++ second := by
  induction earlier generalizing number with
  | nil =>
      rw [List.nil_append, ofLines, List.length_nil, Nat.add_zero]
      cases ofLines number later <;> rfl
  | cons line earlier ih =>
      rw [List.cons_append, ofLines, ofLines, ih, List.length_cons, Nat.add_assoc,
        Nat.add_comm 1]
      cases ofLine number line with
      | error e => rfl
      | ok sentence? =>
          cases ofLines (number + 1) earlier with
          | error e => rfl
          | ok first =>
              cases ofLines (number + (earlier.length + 1)) later with
              | error e => rfl
              | ok second => simp [Bind.bind, Except.bind, Pure.pure, Except.pure]

theorem ofContent_behind
    (number earlier : Nat)
    (content : List Char) :
    ofContent (number + earlier) content =
      (ofContent number content).mapError (·.behind earlier) := by
  rw [ofContent, ofContent]
  cases cutLast ':' content with
  | none => rfl
  | some parts =>
      obtain ⟨before, after⟩ := parts
      dsimp only
      cases Numeral.read (trim after) <;> rfl

/-- More lines in front of a line only change the number in its error. -/
theorem ofLine_behind
    (number earlier : Nat)
    (line : List Char) :
    ofLine (number + earlier) line = (ofLine number line).mapError (·.behind earlier) := by
  rw [ofLine, ofLine]
  split
  · rfl
  · rw [ofContent_behind]
    cases ofContent number (trim line) <;> rfl

theorem ofLines_behind
    (number earlier : Nat)
    (list : List (List Char)) :
    ofLines (number + earlier) list =
      (ofLines number list).mapError (·.behind earlier) := by
  induction list generalizing number with
  | nil => rfl
  | cons line list ih =>
      rw [ofLines, ofLines, ofLine_behind, Nat.add_right_comm, ih]
      cases ofLine number line with
      | error e => rfl
      | ok sentence? => cases ofLines (number + 1) list <;> rfl

/-- A text, a new-line and another text are read as the two texts are: the error of the first text
comes first, then the error of the second one, on a line behind all those of the first, and if there
is none, the sentences of the first text are followed by those of the second. -/
theorem readAll_append_newline
    (a b : List Char) :
    readAll (a ++ '\n' :: b) = do
      let first ← readAll a
      let second ← (readAll b).mapError (·.behind (1 + a.count '\n'))
      return first ++ second := by
  rw [readAll_eq, readAll_eq, readAll_eq, List.splitOn_append_cons_self, ofLines_append,
    length_splitOn, ofLines_behind, Nat.add_comm 1]

end Sentence
end ChartParsing
