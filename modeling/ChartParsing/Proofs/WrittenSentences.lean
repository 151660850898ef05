import ChartParsing.Proofs.SentenceFiles

/-!
# Writing sentence files

Sentences can be written to a file, one a line, and are read back as they were.  A line has the
tokens with one blank between any two of them, and behind them a colon and the count that is
expected, if one is.  Blank lines and comments may stand between the lines.

**Sentences.** `Sentence.Recordable` says which sentences a file can hold.  A colon may stand in a
token only if a count is expected, as the last colon of a line is taken for the one in front of the
count; without a count there has to be a token, as the line would be blank.

**Step.** A written line has its sentence on it (`Sentence.onLine_line`).

**Results.** `Sentence.written_sentences_are_read`: a file of written sentences, with blank lines
and comments anywhere, is read as these sentences.
-/

namespace ChartParsing

namespace Text

variable {c d : Char}

/-! ## Counts -/

namespace Numeral

theorem isDigit_of_mem_toString
    {n : Nat}
    (hc : c ∈ (toString n).toList) :
    c.isDigit = true := by
  rw [Nat.toString_eq_repr, Nat.toList_repr] at hc
  exact Nat.isDigit_of_mem_toDigits (by decide) (by decide) hc

/-- The decimal digits of a count state it. -/
theorem states_toString
    (n : Nat) :
    States (toString n).toList n := by
  have hdigits : ∀ c ∈ (toString n).toList, c.isDigit = true := fun c => isDigit_of_mem_toString
  rw [Nat.toString_eq_repr, Nat.toList_repr] at hdigits ⊢
  obtain ⟨first, rest, hlist⟩ :=
    List.exists_cons_of_ne_nil (Nat.toDigits_ne_nil (n := n) (b := 10))
  rw [hlist] at hdigits ⊢
  obtain ⟨hfirst, hrest⟩ := List.forall_mem_cons.mp hdigits
  have hplain : rest.filter (· ≠ '_') = rest := by
    refine List.filter_eq_self.mpr fun c hc => decide_eq_true ?_
    rintro rfl
    cases hrest _ hc
  have hstates := States.intro (.inl rfl) hfirst fun c hc => .inl (hrest c hc)
  rwa [hplain, ← hlist, Nat.ofDigitChars_ten_toDigits, List.nil_append, hlist] at hstates

theorem isBlank_of_isDigit
    (hc : c.isDigit = true) :
    isBlank c = false := by
  simp only [Char.isDigit, ge_iff_le, Bool.and_eq_true, decide_eq_true_eq,
    UInt32.le_iff_toNat_le] at hc
  obtain ⟨hlow, hhigh⟩ := hc
  change 48 ≤ c.toNat at hlow
  change c.toNat ≤ 57 at hhigh
  simp [isBlank]
  omega

theorem trimmed_toString
    (n : Nat) :
    Trimmed (toString n).toList where
  head := fun _ hc => isBlank_of_isDigit (isDigit_of_mem_toString (List.mem_of_head? hc))
  last := fun _ hc => isBlank_of_isDigit (isDigit_of_mem_toString (List.mem_of_getLast? hc))

end Numeral

/-! ## Words -/

theorem trimmedField_of_isWord
    {w : List Char}
    (h : IsWord wordDelimiters w) :
    trimmedField w = [w] := by
  rw [trimmedField, h.trimmed.trim_eq, if_neg (by simpa using h.ne_nil)]

theorem words_append_cons
    {w : List Char}
    (h : IsWord wordDelimiters w)
    (hd : d ∈ wordDelimiters)
    (rest : List Char) :
    words (w ++ d :: rest) = w :: words rest := by
  rw [words, pieces_append_cons h.not_delimiter hd, trimmedField_of_isWord h]
  rfl

/-- Words with one blank between any two of them, and perhaps one behind them, are the words of
this text. -/
theorem words_intercalate
    {ws : List (List Char)}
    (hws : ∀ w ∈ ws, IsWord wordDelimiters w) :
    words ([' '].intercalate ws) = ws ∧ words ([' '].intercalate ws ++ [' ']) = ws := by
  have hblank : ' ' ∈ wordDelimiters := List.mem_cons_self
  have hnil : words [] = [] := pieces_nil
  induction ws with
  | nil =>
      have hfield : ∀ c ∈ ([] : List Char), c ∉ wordDelimiters := nofun
      exact ⟨hnil, (pieces_append_cons hfield hblank []).trans hnil⟩
  | cons w ws ih =>
      obtain ⟨hw, hws⟩ := List.forall_mem_cons.mp hws
      cases ws with
      | nil =>
          rw [List.intercalate_singleton, words_append_cons hw hblank, hnil]
          refine ⟨?_, rfl⟩
          rw [words, pieces_of_free hw.not_delimiter, trimmedField_of_isWord hw]
      | cons w' ws =>
          obtain ⟨hjoined, hbehind⟩ := ih hws
          rw [List.intercalate_cons_cons, List.append_assoc, List.append_assoc, List.append_assoc,
            List.singleton_append, List.singleton_append, words_append_cons hw hblank,
            words_append_cons hw hblank, hjoined, hbehind]
          exact ⟨rfl, rfl⟩

/-- A row of words begins as its first word does. -/
theorem head?_intercalate
    {w : List Char}
    (hw : w ≠ [])
    (ws : List (List Char)) :
    ([' '].intercalate (w :: ws)).head? = w.head? := by
  cases ws with
  | nil => rw [List.intercalate_singleton]
  | cons w' ws =>
      rw [List.intercalate_cons_cons, List.append_assoc, List.head?_append_of_ne_nil _ hw]

end Text

namespace Sentence

open Text

variable {s : Sentence} {sentences : List Sentence} {lines : List (List Char)}

/-- The line of a file that a sentence is written on. -/
def line (s : Sentence) : String :=
  s.text ++ s.expected.elim "" fun count => " : " ++ toString count

/-- A sentence that a line of a file can hold. -/
structure Recordable (s : Sentence) : Prop where
  isWord : ∀ token ∈ s.tokens, IsWord wordDelimiters token.toList
  not_comment : ∀ token ∈ s.tokens.head?, ∀ c ∈ token.toList.head?, c ∉ commentMarks
  of_unexpected : s.expected = none →
    s.tokens ≠ [] ∧ ∀ token ∈ s.tokens, ':' ∉ token.toList

instance (s : Sentence) : Decidable s.Recordable :=
  decidable_of_iff
    (s.tokens.all (fun token => IsWord wordDelimiters token.toList) = true ∧
      s.tokens.head?.all (fun token => token.toList.head?.all (· ∉ commentMarks)) = true ∧
      (s.expected = none →
        s.tokens ≠ [] ∧ s.tokens.all (fun token => ':' ∉ token.toList) = true)) (by
    simp only [List.all_eq_true, Option.all_eq_true, decide_eq_true_eq]
    constructor
    · rintro ⟨hword, hcomment, hcolon⟩
      exact ⟨hword, hcomment, hcolon⟩
    · rintro ⟨hword, hcomment, hcolon⟩
      exact ⟨hword, hcomment, hcolon⟩)

/-- A line of a file that holds no sentence: it is blank, or a comment. -/
def IsIdle (line : List Char) : Prop :=
  (∀ c ∈ line, isBlank c = true) ∨ ∃ c ∈ line.head?, c ∈ commentMarks

/-- Lines of a file that hold sentences in order, each on a line of its own. -/
inductive Layout : List Sentence → List (List Char) → Prop
  | nil : Layout [] []
  | idle
      {sentences : List Sentence} {idle : List Char} {lines : List (List Char)}
      (hidle : IsIdle idle)
      (hline : '\n' ∉ idle)
      (rest : Layout sentences lines) :
      Layout sentences (idle :: lines)
  | sentence
      (s : Sentence)
      {sentences : List Sentence} {lines : List (List Char)}
      (rest : Layout sentences lines) :
      Layout (s :: sentences) (s.line.toList :: lines)

theorem isBlank_of_mem_commentMarks
    {c : Char}
    (hc : c ∈ commentMarks) :
    isBlank c = false := by
  simp only [commentMarks, List.mem_cons, List.not_mem_nil, or_false] at hc
  rcases hc with rfl | rfl | rfl <;> decide

theorem IsIdle.skipped
    {idle : List Char}
    (h : IsIdle idle) :
    Skipped idle := by
  rcases h with hblank | ⟨c, hc, hmark⟩
  · intro c hc
    have hkept := List.find?_some hc
    rw [hblank c (List.mem_of_find?_eq_some hc)] at hkept
    cases hkept
  · obtain ⟨rest, rfl⟩ := List.head?_eq_some_iff.mp hc
    exact (skipped_cons_iff (isBlank_of_mem_commentMarks hmark)).mpr hmark

theorem toList_text
    (s : Sentence) :
    s.text.toList = [' '].intercalate (s.tokens.map String.toList) := by
  rw [text, String.toList_intercalate]
  rfl

theorem not_mem_text
    {c : Char}
    (hblank : c ≠ ' ')
    (htokens : ∀ token ∈ s.tokens, c ∉ token.toList) :
    c ∉ s.text.toList := by
  rw [toList_text]
  intro hmem
  rcases mem_of_mem_intercalate hmem with rfl | ⟨w, hw, hmem⟩
  · exact hblank rfl
  · obtain ⟨token, htoken, rfl⟩ := List.mem_map.mp hw
    exact htokens token htoken hmem

theorem toList_line
    (s : Sentence) :
    s.line.toList = s.text.toList ++
      s.expected.elim [] fun count => ' ' :: ':' :: ' ' :: (toString count).toList := by
  rw [line, String.toList_append]
  cases s.expected with
  | none => rfl
  | some count =>
      rw [Option.elim_some, String.toList_append]
      rfl

theorem tokensOf_eq
    {cs : List Char} {tokens : List String}
    (h : words cs = tokens.map String.toList) :
    tokensOf cs = tokens := by
  rw [tokensOf, ← pieces_eq_cutAndTrim, ← words, h, List.map_map]
  simp

namespace Recordable

variable (h : s.Recordable)
include h

theorem isWord_of_mem_map :
    ∀ w ∈ s.tokens.map String.toList, IsWord wordDelimiters w := by
  simpa using h.isWord

/-- A line that begins with the tokens of a sentence is not skipped, if there are any. -/
theorem not_skipped_append
    (hne : s.tokens ≠ [])
    (rest : List Char) :
    ¬ Skipped (s.text.toList ++ rest) := by
  obtain ⟨token, tokens, htokens⟩ := List.exists_cons_of_ne_nil hne
  have hfirst : token ∈ s.tokens.head? := by
    rw [htokens]
    rfl
  have hword := h.isWord token (List.mem_of_head? hfirst)
  obtain ⟨c, more, hc⟩ := List.exists_cons_of_ne_nil hword.ne_nil
  have hchar : c ∈ token.toList.head? := by
    rw [hc]
    rfl
  have hhead := head?_intercalate hword.ne_nil (tokens.map String.toList)
  rw [← List.map_cons, ← htokens, ← toList_text, hchar] at hhead
  obtain ⟨others, htext⟩ := List.head?_eq_some_iff.mp hhead
  rw [htext, List.cons_append, skipped_cons_iff (hword.trimmed.head c hchar)]
  exact h.not_comment token hfirst c hchar

/-- With a count a line is not skipped either, as a colon is no comment. -/
theorem not_skipped_counted
    (after : List Char) :
    ¬ Skipped ((s.text.toList ++ [' ']) ++ ':' :: after) := by
  rw [List.append_assoc]
  by_cases hnil : s.tokens = []
  · have htext : s.text.toList = [] := by
      rw [toList_text, hnil]
      rfl
    rw [htext, List.nil_append, List.singleton_append, skipped_cons_of_isBlank (by decide),
      skipped_cons_iff (by decide)]
    decide
  · exact h.not_skipped_append hnil _

/-- Without a count a sentence is written as its tokens. -/
theorem onLine_text
    (hexpected : s.expected = none) :
    OnLine s.text.toList s := by
  obtain ⟨hne, hcolon⟩ := h.of_unexpected hexpected
  have hkept := h.not_skipped_append hne []
  rw [List.append_nil] at hkept
  have htokens : tokensOf s.text.toList = s.tokens := by
    rw [toList_text]
    exact tokensOf_eq (words_intercalate h.isWord_of_mem_map).1
  have honline := OnLine.plain hkept (not_mem_text (by decide) hcolon)
  rwa [htokens, ← hexpected] at honline

/-- A count is written behind a colon that is the last one. -/
theorem onLine_counted
    {count : Nat}
    (hexpected : s.expected = some count) :
    OnLine ((s.text.toList ++ [' ']) ++ ':' :: ' ' :: (toString count).toList) s := by
  have hlast : ':' ∉ ' ' :: (toString count).toList := by
    rw [List.mem_cons, not_or]
    refine ⟨by decide, fun hmem => ?_⟩
    cases Numeral.isDigit_of_mem_toString hmem
  have hcount : Numeral.States (trim (' ' :: (toString count).toList)) count := by
    rw [trim_cons_of_isBlank (by decide), (Numeral.trimmed_toString count).trim_eq]
    exact Numeral.states_toString count
  have htokens : tokensOf (s.text.toList ++ [' ']) = s.tokens := by
    rw [toList_text]
    exact tokensOf_eq (words_intercalate h.isWord_of_mem_map).2
  have honline := OnLine.counted (h.not_skipped_counted _) hlast hcount
  rwa [htokens, ← hexpected] at honline

end Recordable

/-- A written line has its sentence on it. -/
theorem onLine_line
    (h : s.Recordable) :
    OnLine s.line.toList s := by
  rw [toList_line]
  cases hexpected : s.expected with
  | none =>
      rw [Option.elim_none, List.append_nil]
      exact h.onLine_text hexpected
  | some count =>
      have honline := h.onLine_counted hexpected
      rwa [List.append_assoc] at honline

/-! ## Files -/

theorem newline_not_mem_line
    (h : s.Recordable) :
    '\n' ∉ s.line.toList := by
  have htext : '\n' ∉ s.text.toList := not_mem_text (by decide) fun token htoken hmem =>
    (h.isWord token htoken).not_delimiter '\n' hmem (by decide)
  rw [toList_line, List.mem_append, not_or]
  refine ⟨htext, ?_⟩
  cases s.expected with
  | none => nofun
  | some count =>
      have hcount : '\n' ∉ (toString count).toList := by
        intro hmem
        cases Numeral.isDigit_of_mem_toString hmem
      simpa only [Option.elim_some, List.mem_cons, not_or] using
        ⟨by decide, by decide, by decide, hcount⟩

namespace Layout

/-- The lines of a file hold no new-line. -/
theorem newline_not_mem
    (h : Layout sentences lines)
    (hsentences : ∀ s ∈ sentences, s.Recordable) :
    ∀ line ∈ lines, '\n' ∉ line := by
  induction h with
  | nil => nofun
  | idle _ hline _ ih => exact List.forall_mem_cons.mpr ⟨hline, ih hsentences⟩
  | sentence s _ ih =>
      obtain ⟨hs, hsentences⟩ := List.forall_mem_cons.mp hsentences
      exact List.forall_mem_cons.mpr ⟨newline_not_mem_line hs, ih hsentences⟩

/-- An empty line may stand at the end. -/
theorem append_nil
    (h : Layout sentences lines) :
    Layout sentences (lines ++ [[]]) := by
  induction h with
  | nil => exact .idle (.inl nofun) nofun .nil
  | idle hidle hline _ ih => exact .idle hidle hline ih
  | sentence s _ ih => exact .sentence s ih

/-- Lines that are laid out so have the sentences on them. -/
theorem onLines
    (h : Layout sentences lines)
    (hsentences : ∀ s ∈ sentences, s.Recordable) :
    OnLines lines sentences := by
  induction h with
  | nil => exact .nil
  | idle hidle _ _ ih => exact .skipped hidle.skipped (ih hsentences)
  | sentence s _ ih =>
      obtain ⟨hs, hsentences⟩ := List.forall_mem_cons.mp hsentences
      exact .sentence (onLine_line hs) (ih hsentences)

theorem readAll_intercalate
    (h : Layout sentences lines)
    (hsentences : ∀ s ∈ sentences, s.Recordable) :
    readAll (['\n'].intercalate lines) = .ok sentences := by
  by_cases hnil : lines = []
  · subst hnil
    cases h
    rfl
  · rw [readAll_eq_ok_iff, List.splitOn_intercalate _ (h.newline_not_mem hsentences) hnil]
    exact h.onLines hsentences

end Layout

theorem flatMap_newline
    (lines : List (List Char)) :
    lines.flatMap (· ++ ['\n']) = ['\n'].intercalate (lines ++ [[]]) := by
  induction lines with
  | nil => rfl
  | cons line lines ih =>
      have hne : lines ++ [[]] ≠ [] := List.append_ne_nil_of_right_ne_nil _ (List.cons_ne_nil _ _)
      rw [List.flatMap_cons, ih, List.cons_append, List.intercalate_cons_of_ne_nil hne]

/-- Sentences that are written one a line, with blank lines and comments anywhere between the lines,
are read back, whether the last line ends with a new-line or not. -/
theorem written_sentences_are_read
    (hsentences : ∀ s ∈ sentences, s.Recordable)
    (hlines : Layout sentences lines) :
    readAll (['\n'].intercalate lines) = .ok sentences ∧
      readAll (lines.flatMap (· ++ ['\n'])) = .ok sentences := by
  refine ⟨hlines.readAll_intercalate hsentences, ?_⟩
  rw [flatMap_newline]
  exact hlines.append_nil.readAll_intercalate hsentences

/-- A comment, a sentence of colons, a blank line, a sentence of no tokens, and one without a
count, behind which the text may end with a new-line. -/
theorem written_sentences_are_read_with_comment :
    let sentences : List Sentence :=
      [⟨["a:b", ":"], some 12⟩, ⟨[], some 0⟩, ⟨["x\u00a0y", "z"], none⟩]
    let text := "# counts: 1\r\na:b : : 12\n \t\n : 0\nx\u00a0y z".toList
    (∀ s ∈ sentences, s.Recordable) ∧
      readAll text = .ok sentences ∧ readAll (text ++ ['\n']) = .ok sentences := by
  intro sentences text
  have hsentences : ∀ s ∈ sentences, s.Recordable := by
    have hall : sentences.all (fun s => s.Recordable) = true := by decide +kernel
    simpa only [List.all_eq_true, decide_eq_true_eq] using hall
  have hcomment : IsIdle "# counts: 1\r".toList := .inr ⟨'#', rfl, List.mem_cons_self⟩
  have hblank : IsIdle " \t".toList := by
    have hall : " \t".toList.all isBlank = true := by decide +kernel
    exact .inl (List.all_eq_true.mp hall)
  have hlines : Layout sentences _ :=
    .idle hcomment (by simp) (.sentence _ (.idle hblank (by simp) (.sentence _ (.sentence _ .nil))))
  obtain ⟨hopen, hclosed⟩ := written_sentences_are_read hsentences hlines
  exact ⟨hsentences, hopen, hclosed⟩

end Sentence
end ChartParsing
