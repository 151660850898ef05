import ChartParsing.Proofs.CheckedRun
import ChartParsing.Proofs.WrittenSentences
import Mathlib

/-!
# What a session prints

A session and a run with a file of sentences decide in different ways what a line means.  A file is
read line by line, each line is trimmed, and what is skipped is never parsed; a session looks for
the words of the line as it is typed, and keeps its own chart.  Still both print the same for lines
that are plain: without a colon, a backspace, or a comment.

**Words.** A line without words is blank (`Text.words_eq_nil_iff`).

**Step.** A plain line of a file is the sentence of its words, if it has any
(`Sentence.ofLine_of_isPlain`), and a session prints the outcome of that sentence alone
(`Command.answerLine?_of_isPlain`).

**Results.** `Command.session_prints_batch`: a session prints what a run with a file prints, and a
prompt in front of each line and of the end.
-/

namespace ChartParsing

namespace Text

variable {cs : List Char} {c : Char}

/-! ## Lines without words -/

theorem trimmedField_eq_nil_iff
    {field : List Char} :
    trimmedField field = [] ↔ ∀ c ∈ field, isBlank c = true := by
  rw [← trimStart_eq_nil_iff, ← trim_eq_nil_iff, trimmedField]
  split
  · rename_i hempty
    exact iff_of_true rfl (List.isEmpty_iff.mp hempty)
  · rename_i hne
    exact iff_of_false (List.cons_ne_nil _ _) fun hnil => hne (List.isEmpty_iff.mpr hnil)

theorem isBlank_of_mem_wordDelimiters
    (hc : c ∈ wordDelimiters) :
    isBlank c = true := by
  simp only [wordDelimiters, List.mem_cons, List.not_mem_nil, or_false] at hc
  rcases hc with rfl | rfl | rfl | rfl <;> decide

/-- A text without words is blank. -/
theorem words_eq_nil_iff :
    words cs = [] ↔ trim cs = [] := by
  rw [trim_eq_nil_iff, trimStart_eq_nil_iff]
  induction cs using induction_on_fields wordDelimiters with
  | last field hfield => rw [words, pieces_of_free hfield, trimmedField_eq_nil_iff]
  | cons field d rest hfield hmem ih =>
      rw [words, pieces_append_cons hfield hmem, Delimiters.piece, List.nil_append,
        List.append_eq_nil_iff, trimmedField_eq_nil_iff, ← words, ih, List.forall_mem_append,
        List.forall_mem_cons, and_iff_right (isBlank_of_mem_wordDelimiters hmem)]

end Text

/-! ## Plain lines -/

namespace Sentence

open Text

variable {line : List Char}

/-- A line that means the same when it is typed as in a file: nothing in it is a count, takes
characters back, or makes it a comment. -/
structure IsPlain (line : List Char) : Prop where
  not_count : ':' ∉ line
  not_edited : backspace ∉ line
  not_comment : ∀ c ∈ (trim line).head?, c ∉ commentMarks

-- by `Option.all`, as the instance that is found for all members tries every character
instance (line : List Char) : Decidable (IsPlain line) :=
  decidable_of_iff
    (':' ∉ line ∧ backspace ∉ line ∧
      (trim line).head?.all (fun c => c ∉ commentMarks) = true) (by
    simp only [Option.all_eq_true, decide_eq_true_eq]
    constructor
    · rintro ⟨hcount, hedited, hcomment⟩
      exact ⟨hcount, hedited, hcomment⟩
    · rintro ⟨hcount, hedited, hcomment⟩
      exact ⟨hcount, hedited, hcomment⟩)

/-- The sentence of the words of a line, if it has any. -/
def ofWords? (line : List Char) : Option Sentence :=
  if (words line).isEmpty then none else some (ofText line)

/-- A plain line of a file is the sentence of its words. -/
theorem ofLine_of_isPlain
    (h : IsPlain line)
    (number : Nat) :
    ofLine number line = .ok (ofWords? line) := by
  by_cases hblank : trim line = []
  · have hskipped : Skipped line := by
      rw [← isSkipped_trim_iff, hblank]
      rfl
    rw [ofLine_of_skipped hskipped, ofWords?, words_eq_nil_iff.mpr hblank]
    rfl
  · have hkept : ¬ Skipped line := by
      obtain ⟨c, rest, htrim⟩ := List.exists_cons_of_ne_nil hblank
      have hhead : c ∈ (trim line).head? := by
        rw [htrim]
        rfl
      rw [← isSkipped_trim_iff, htrim, isSkipped_cons_iff]
      exact h.not_comment c hhead
    have hsome : ofWords? line = some (ofText line) := by
      refine if_neg fun hempty => hblank ?_
      exact words_eq_nil_iff.mp (List.isEmpty_iff.mp hempty)
    rw [ofLine_of_onLine (.plain hkept h.not_count), hsome, ofText_eq]

theorem ofLines_of_isPlain
    {lines : List (List Char)}
    (h : ∀ line ∈ lines, IsPlain line)
    (number : Nat) :
    ofLines number lines = .ok (lines.filterMap ofWords?) := by
  induction lines generalizing number with
  | nil => rfl
  | cons line lines ih =>
      obtain ⟨hline, hlines⟩ := List.forall_mem_cons.mp h
      rw [ofLines, ofLine_of_isPlain hline, ih hlines, List.filterMap_cons]
      cases ofWords? line <;> rfl

end Sentence

namespace Command

open Text

variable {g : Grammar} {c : Chart} {line : List Char} {lines : List (List Char)}

/-- What is printed for a line: the outcome of the sentence of its words, if it has any. -/
def answerTo (g : Grammar) (line : List Char) : String :=
  (Sentence.ofWords? line).elim "" fun s => (Batch.outcome ⟨g, true⟩ s).text ++ "\n"

/-! ## Sessions -/

/-- A session prints the answer to a plain line, whatever the lines before have left behind. -/
theorem answerLine?_of_isPlain
    (h : Sentence.IsPlain line)
    (hc : c.grammar = g) :
    ∃ next, answerLine? ⟨g, true⟩ c line = some (answerTo g line, next) ∧ next.grammar = g := by
  have hedited := applyBackspaces?_of_not_mem line h.not_edited
  by_cases hwords : words line = []
  · have htokens : (Sentence.ofText line).tokens = [] := by
      rw [Sentence.ofText, hwords]
      rfl
    refine ⟨c, ?_, hc⟩
    simp [answerLine?, hedited, htokens, answerTo, Sentence.ofWords?, hwords]
  · have htokens : (Sentence.ofText line).tokens ≠ [] := by
      rw [Sentence.ofText]
      simpa using hwords
    have houtcome := Batch.parse_fst (b := ⟨g, true⟩) (s := Sentence.ofText line) hc
    refine ⟨_, ?_, Batch.grammar_parse (b := ⟨g, true⟩) (s := Sentence.ofText line) hc⟩
    simp [answerLine?, hedited, htokens, answerTo, Sentence.ofWords?, hwords, houtcome]

theorem answerLines_of_isPlain
    (h : ∀ line ∈ lines, Sentence.IsPlain line)
    (hc : c.grammar = g) :
    answerLines ⟨g, true⟩ c lines =
      ⟨String.join (lines.map fun line => prompt ++ answerTo g line) ++ prompt, .inputEnded⟩ := by
  induction lines generalizing c with
  | nil => rfl
  | cons line lines ih =>
      obtain ⟨hline, hlines⟩ := List.forall_mem_cons.mp h
      obtain ⟨next, hanswer, hnext⟩ := answerLine?_of_isPlain hline hc
      rw [answerLines, hanswer]
      simp only [ih hlines hnext, List.map_cons, String.join_cons, String.append_assoc]

/-! ## Runs -/

/-- An outcome is printed for each line that has words, and no other one. -/
theorem join_outcomes
    (g : Grammar)
    (lines : List (List Char)) :
    String.join ((Batch.run ⟨g, true⟩ (lines.filterMap Sentence.ofWords?)).map
        fun o => o.text ++ "\n") =
      String.join (lines.map (answerTo g)) := by
  rw [Batch.run_eq_map, List.map_map]
  induction lines with
  | nil => rfl
  | cons line lines ih =>
      rw [List.filterMap_cons, List.map_cons, String.join_cons, answerTo, ← ih]
      cases Sentence.ofWords? line with
      | none => simp
      | some s => simp

/-- An argument of the command names a file with a text. -/
structure Names (read : Reader) (argument : String) (text : String) : Prop where
  is_path : isPath argument = true
  ne_empty : argument ≠ ""
  read_eq : read argument = .ok (.text text)

section Runs

variable {read : Reader} {grammarPath sentencePath grammarText text : String}
  (hgrammar : Names read grammarPath grammarText)
  (hg : Grammar.ofText grammarText.toList = .ok g)

theorem Names.readText_eq
    {path : String}
    (h : Names read path text)
    (input : List Char) :
    readText read path input = .ok (text.toList, input) := by
  rw [readText, h.read_eq]
  rfl

theorem Names.ne_dashes
    {path : String}
    (h : Names read path text) :
    path ≠ "--" := by
  rintro rfl
  exact absurd h.is_path (by decide +kernel)

include hgrammar hg

/-- With a grammar alone, the command holds a session. -/
theorem run_grammarPath
    (input : List Char) :
    run read input [grammarPath] = (session g input).report := by
  have hoptions : Options.ofArguments? [grammarPath] =
      some ⟨grammarPath, none, false, false, false⟩ := by
    simp [Options.ofArguments?, Arguments.ofList?, hgrammar.ne_dashes, hgrammar.is_path,
      hgrammar.ne_empty, allDistinct]
  have hload : loadGrammar read grammarPath input = .ok (g, input) := by
    rw [loadGrammar, hgrammar.readText_eq]
    simp only [Except.mapError, Bind.bind, Except.bind, hg]
    rfl
  rw [run, hoptions]
  simp only [execute, perform, hload, Bind.bind, Except.bind]
  rfl

/-- With a file of sentences and the flag for trees, the command prints the outcomes of the
sentences. -/
theorem run_sentencePath
    {sentences : List Sentence}
    (hsentences : Names read sentencePath text)
    (hread : Sentence.readAll text.toList = .ok sentences)
    (input : List Char) :
    run read input [grammarPath, sentencePath, "--trees"] =
      reportOutcomes false (Batch.run ⟨g, true⟩ sentences) := by
  have hflag : isPath "--trees" = false := by decide +kernel
  have hoptions : Options.ofArguments? [grammarPath, sentencePath, "--trees"] =
      some ⟨grammarPath, some sentencePath, true, false, false⟩ := by
    simp [Options.ofArguments?, Arguments.ofList?, hgrammar.ne_dashes, hgrammar.is_path,
      hgrammar.ne_empty, hsentences.ne_dashes, hsentences.is_path, hsentences.ne_empty, hflag,
      Flag.ofArgument?, allDistinct]
  have hloads : Loads read input grammarPath sentencePath g sentences :=
    .intro (hgrammar.readText_eq input) (Grammar.ofText_eq_ok_iff.mp hg)
      (hsentences.readText_eq input) (Sentence.readAll_eq_ok_iff.mp hread)
  rw [run, hoptions]
  exact runOnFiles_of_loads hloads

end Runs

/-- A session over a text of plain lines prints, apart from the prompt in front of each line and of
the end, what a run with a file of that text and the flag for trees prints. -/
theorem session_prints_batch
    {read : Reader} {grammarPath sentencePath grammarText text : String} {g : Grammar}
    (hgrammar : Names read grammarPath grammarText)
    (hg : Grammar.ofText grammarText.toList = .ok g)
    (hsentences : Names read sentencePath text)
    (hlines : ∀ line ∈ Text.lines text.toList, Sentence.IsPlain line)
    (input : List Char) :
    run read text.toList [grammarPath] =
        ⟨0, String.join ((Text.lines text.toList).map fun line => prompt ++ answerTo g line) ++
          prompt, ""⟩ ∧
      run read input [grammarPath, sentencePath, "--trees"] =
        ⟨0, String.join ((Text.lines text.toList).map (answerTo g)), ""⟩ := by
  have hread : Sentence.readAll text.toList =
      .ok ((Text.lines text.toList).filterMap Sentence.ofWords?) :=
    Sentence.ofLines_of_isPlain hlines 1
  have hsession := answerLines_of_isPlain (g := g) (c := .empty g) hlines rfl
  rw [run_grammarPath hgrammar hg, run_sentencePath hgrammar hg hsentences hread, session,
    hsession, reportOutcomes, join_outcomes]
  exact ⟨rfl, rfl⟩

/-- A blank line of a kind that separates no words, outer blanks, a line twice, and no new-line at
the end. -/
theorem session_prints_batch_blankLine :
    let text := "a a\r\n\u3000 \n\u00a0a a\t"
    let read : Reader := fun path =>
      if path = "g" then .ok (.text "S -> S S | 'a'") else .ok (.text text)
    Names read "g" "S -> S S | 'a'" ∧ Names read "s" text ∧
      Grammar.ofText "S -> S S | 'a'".toList = .ok binaryTreeGrammar ∧
      (∀ line ∈ Text.lines text.toList, Sentence.IsPlain line) ∧
      (run read text.toList ["g"]).stdout =
        "~> a a\t1\n[S [S a] [S a]]\n~> ~> a a\t1\n[S [S a] [S a]]\n~> " ∧
      (run read [] ["g", "s", "--trees"]).stdout =
        "a a\t1\n[S [S a] [S a]]\na a\t1\n[S [S a] [S a]]\n" := by
  intro text read
  have hgrammar : Names read "g" "S -> S S | 'a'" :=
    ⟨by decide +kernel, by decide +kernel, by decide +kernel⟩
  have hsentences : Names read "s" text :=
    ⟨by decide +kernel, by decide +kernel, by decide +kernel⟩
  have hg : Grammar.ofText "S -> S S | 'a'".toList = .ok binaryTreeGrammar := by
    decide +kernel
  have hlines : ∀ line ∈ Text.lines text.toList, Sentence.IsPlain line := by
    have hall : (Text.lines text.toList).all (fun line => Sentence.IsPlain line) = true := by
      decide +kernel
    simpa only [List.all_eq_true, decide_eq_true_eq] using hall
  have hanswers : (Text.lines text.toList).map (answerTo binaryTreeGrammar) =
      ["a a\t1\n[S [S a] [S a]]\n", "", "a a\t1\n[S [S a] [S a]]\n"] := by
    cbv
  have hprompts : (Text.lines text.toList).map (fun line =>
      prompt ++ answerTo binaryTreeGrammar line) =
        ((Text.lines text.toList).map (answerTo binaryTreeGrammar)).map (prompt ++ ·) := by
    rw [List.map_map]
    rfl
  obtain ⟨hsession, hbatch⟩ := session_prints_batch hgrammar hg hsentences hlines []
  refine ⟨hgrammar, hsentences, hg, hlines, ?_, ?_⟩
  · rw [hsession, hprompts, hanswers]
    decide +kernel
  · rw [hbatch, hanswers]
    decide +kernel

end Command
end ChartParsing
