import ChartParsing.Command.Run
import ChartParsing.Proofs.BatchRuns
import ChartParsing.Proofs.SentenceFiles
import ChartParsing.Proofs.SourceFaults

/-!
# The verdict of a checking run

A run with a file of sentences can be trusted by its exit code alone: it ends with 2 if a file
cannot be loaded, and otherwise with 1 if it checks and a sentence of the file has no tokens or
another number of derivations than was expected of it, and with 0 if not.

**Descriptions.** `Loads` says which grammar and which sentences are written in the two files, and
`Fails` what is wrong with the first file that cannot be loaded.  Both go by the tokens and the
lines of the texts, without a reader.  `Sentence.Misses` compares the count that is expected with
the derivations of the grammar, without a chart.

**Results.** `runOnFiles_verdict`: what a run prints and how it ends.
-/

namespace ChartParsing

/-! ## Sentences that miss their counts -/

/-- A count is expected of a sentence, and the sentence has no tokens, or not that number of
derivations from the start symbol. -/
def Sentence.Misses (s : Sentence) (g : Grammar) : Prop :=
  ∃ n, s.expected = some n ∧ (s.tokens = [] ∨ (g.derivations g.start s.tokens).encard ≠ n)

/-- What is said about a sentence of which a count is expected. -/
inductive Sentence.Complaint (s : Sentence) (g : Grammar) : String → Prop
  | noTokens
      {n : Nat}
      (hexpected : s.expected = some n)
      (hnil : s.tokens = []) :
      Complaint s g ("'" ++ s.text ++ "' expected " ++ toString n ++ " got " ++
        ("error: " ++ ParseError.emptyInput.message))
  | otherCount
      {n m : Nat}
      (hexpected : s.expected = some n)
      (hne : s.tokens ≠ [])
      (hcount : (g.derivations g.start s.tokens).encard = m) :
      Complaint s g ("'" ++ s.text ++ "' expected " ++ toString n ++ " got " ++ toString m)

namespace Outcome.Reports

variable {o : Outcome} {b : Batch} {s : Sentence}

/-- An outcome is a mismatch exactly if its sentence misses its count. -/
theorem mismatch_iff_misses
    (h : o.Reports b s) :
    o.mismatch = true ↔ s.Misses b.grammar := by
  rw [mismatch_iff, h.expected_eq, Sentence.Misses]
  refine exists_congr fun n => and_congr_right fun _ => ?_
  by_cases hnil : s.tokens = []
  · rw [h.count_eq_error_iff.mpr hnil]
    exact iff_of_true (by simp) (.inl hnil)
  · obtain ⟨m, hcount, hencard⟩ := h.exists_count hnil
    rw [hcount, hencard, or_iff_right hnil]
    simp

/-- A mismatch is described by its sentence. -/
theorem complaint
    (h : o.Reports b s)
    (hmiss : s.Misses b.grammar) :
    s.Complaint b.grammar o.comparison := by
  obtain ⟨n, hexpected, -⟩ := hmiss
  rw [comparison, h.sentence_eq, h.expected_eq, hexpected]
  by_cases hnil : s.tokens = []
  · rw [h.count_eq_error_iff.mpr hnil]
    exact .noTokens hexpected hnil
  · obtain ⟨m, hcount, hencard⟩ := h.exists_count hnil
    rw [hcount]
    exact .otherCount hexpected hnil hencard

end Outcome.Reports

/-! ## Files that load, and files that do not -/

/-- A text is in the format of grammar texts, and a grammar lists what it writes. -/
def Grammar.WrittenIn (g : Grammar) (text : List Char) : Prop :=
  ∃ lines productions start, Formatted text lines productions start ∧
    g.Lists (productions.flatMap Production.symbols) productions start

/-- What is wrong with a text that no grammar is written in: its first faulty line, or what it lacks
when no line is faulty. -/
def GrammarError.FaultOf (e : GrammarError) (text : List Char) : Prop :=
  FirstRefused FaultyAfter (SourceTokens.lines text) e ∨
    NoneRefused FaultyAfter (SourceTokens.lines text) ∧
      Undescriptive (SourceTokens.lines text) e

/-- The sentences on the lines of a text. -/
def Sentence.WrittenIn (sentences : List Sentence) (text : List Char) : Prop :=
  OnLines (text.splitOn '\n') sentences

/-- What is wrong with a text of sentences: its first malformed line. -/
def SentenceError.FaultOf (e : SentenceError) (text : List Char) : Prop :=
  FirstRefused (fun earlier => Sentence.Malformed (earlier.length + 1)) (text.splitOn '\n') e

namespace Command

/-- Why the two files of a run cannot be loaded: the first step that fails. -/
inductive Fails
    (read : Reader)
    (input : List Char)
    (grammarPath sentencePath : String) :
    Failure → Prop
  | grammarFile
      {error : FileError}
      (hread : readText read grammarPath input = .error error) :
      Fails read input grammarPath sentencePath (.grammarFile grammarPath error)
  | grammar
      {text rest : List Char} {error : GrammarError}
      (hread : readText read grammarPath input = .ok (text, rest))
      (hgrammar : error.FaultOf text) :
      Fails read input grammarPath sentencePath (.grammar grammarPath error)
  | sentenceFile
      {text rest : List Char} {g : Grammar} {error : FileError}
      (hread : readText read grammarPath input = .ok (text, rest))
      (hgrammar : g.WrittenIn text)
      (hread' : readText read sentencePath rest = .error error) :
      Fails read input grammarPath sentencePath (.sentenceFile error)
  | sentence
      {text rest text' rest' : List Char} {g : Grammar} {error : SentenceError}
      (hread : readText read grammarPath input = .ok (text, rest))
      (hgrammar : g.WrittenIn text)
      (hread' : readText read sentencePath rest = .ok (text', rest'))
      (hsentences : error.FaultOf text') :
      Fails read input grammarPath sentencePath (.sentence error)

/-- The grammar and the sentences that the two files of a run hold. -/
inductive Loads
    (read : Reader)
    (input : List Char)
    (grammarPath sentencePath : String) :
    Grammar → List Sentence → Prop
  | intro
      {text rest text' rest' : List Char} {g : Grammar} {sentences : List Sentence}
      (hread : readText read grammarPath input = .ok (text, rest))
      (hgrammar : g.WrittenIn text)
      (hread' : readText read sentencePath rest = .ok (text', rest'))
      (hsentences : Sentence.WrittenIn sentences text') :
      Loads read input grammarPath sentencePath g sentences

/-- The run with a grammar and a file of sentences, and without messages about its work. -/
def runOnFiles
    (read : Reader)
    (input : List Char)
    (grammarPath sentencePath : String)
    (trees check : Bool) : Report :=
  execute read input ⟨grammarPath, some sentencePath, trees, check, false⟩

section Runs

variable {read : Reader} {input : List Char} {grammarPath sentencePath : String}
  {trees check : Bool} {failure : Failure} {g : Grammar} {sentences : List Sentence}

theorem Loads.wellFormed
    (h : Loads read input grammarPath sentencePath g sentences) :
    g.WellFormed := by
  obtain ⟨-, hgrammar, -, -⟩ := h
  exact Grammar.WellFormed.of_ofText (Grammar.ofText_eq_ok_iff.mpr hgrammar)

theorem fails_or_loads
    (read : Reader)
    (input : List Char)
    (grammarPath sentencePath : String) :
    (∃ failure, Fails read input grammarPath sentencePath failure) ∨
      ∃ g sentences, Loads read input grammarPath sentencePath g sentences := by
  cases hread : readText read grammarPath input with
  | error error => exact .inl ⟨_, .grammarFile hread⟩
  | ok taken =>
      cases hgrammar : Grammar.ofText taken.1 with
      | error error =>
          exact .inl ⟨_, .grammar hread (Grammar.ofText_eq_error_iff.mp hgrammar)⟩
      | ok g =>
          have hgrammar := Grammar.ofText_eq_ok_iff.mp hgrammar
          cases hread' : readText read sentencePath taken.2 with
          | error error => exact .inl ⟨_, .sentenceFile hread hgrammar hread'⟩
          | ok taken' =>
              cases hsentences : Sentence.readAll taken'.1 with
              | error error =>
                  have hsentences := Sentence.readAll_eq_error_iff.mp hsentences
                  exact .inl ⟨_, .sentence hread hgrammar hread' hsentences⟩
              | ok sentences =>
                  have hsentences := Sentence.readAll_eq_ok_iff.mp hsentences
                  exact .inr ⟨g, sentences, .intro hread hgrammar hread' hsentences⟩

section Steps

variable {text rest : List Char} {path : String}

theorem loadGrammar_of_writtenIn
    (hread : readText read path input = .ok (text, rest))
    (hgrammar : g.WrittenIn text) :
    loadGrammar read path input = .ok (g, rest) := by
  have hg := Grammar.ofText_eq_ok_iff.mpr hgrammar
  rw [loadGrammar, hread]
  simp only [Except.mapError, Bind.bind, Except.bind, hg]
  rfl

theorem loadGrammar_of_faultOf
    {error : GrammarError}
    (hread : readText read path input = .ok (text, rest))
    (hgrammar : error.FaultOf text) :
    loadGrammar read path input = .error (.grammar path error) := by
  have hg := Grammar.ofText_eq_error_iff.mpr hgrammar
  rw [loadGrammar, hread]
  simp only [Except.mapError, Bind.bind, Except.bind, hg]

theorem loadSentences_of_writtenIn
    (hread : readText read path input = .ok (text, rest))
    (hsentences : Sentence.WrittenIn sentences text) :
    loadSentences read path input = .ok sentences := by
  have hall := Sentence.readAll_eq_ok_iff.mpr hsentences
  rw [loadSentences, hread]
  simp only [Except.mapError, Bind.bind, Except.bind, hall]

theorem loadSentences_of_faultOf
    {error : SentenceError}
    (hread : readText read path input = .ok (text, rest))
    (hsentences : error.FaultOf text) :
    loadSentences read path input = .error (.sentence error) := by
  have hall := Sentence.readAll_eq_error_iff.mpr hsentences
  rw [loadSentences, hread]
  simp only [Except.mapError, Bind.bind, Except.bind, hall]

end Steps

theorem runOnFiles_of_fails
    (h : Fails read input grammarPath sentencePath failure) :
    runOnFiles read input grammarPath sentencePath trees check = failure.report := by
  rw [runOnFiles, execute, perform]
  cases h with
  | grammarFile hread =>
      rw [loadGrammar, hread]
      rfl
  | grammar hread hgrammar =>
      rw [loadGrammar_of_faultOf hread hgrammar]
      rfl
  | sentenceFile hread hgrammar hread' =>
      simp only [loadGrammar_of_writtenIn hread hgrammar, Bind.bind, Except.bind, loadSentences,
        Except.mapError, hread']
  | sentence hread hgrammar hread' hsentences =>
      simp only [loadGrammar_of_writtenIn hread hgrammar, Bind.bind, Except.bind,
        loadSentences_of_faultOf hread' hsentences]

theorem runOnFiles_of_loads
    (h : Loads read input grammarPath sentencePath g sentences) :
    runOnFiles read input grammarPath sentencePath trees check =
      reportOutcomes check (Batch.run ⟨g, trees⟩ sentences) := by
  obtain ⟨hread, hgrammar, hread', hsentences⟩ := h
  rw [runOnFiles, execute, perform]
  simp only [loadGrammar_of_writtenIn hread hgrammar, Bind.bind, Except.bind,
    loadSentences_of_writtenIn hread' hsentences]
  rfl

/-! ## Reports -/

open Classical in
/-- What is reported on the sentences of a file. -/
structure Report.Verdict
    (report : Report)
    (g : Grammar)
    (sentences : List Sentence)
    (trees check : Bool) : Prop where
  /-- Every sentence has its outcome, in order. -/
  outcomes : List.Forall₂ (fun s o => Outcome.Reports o ⟨g, trees⟩ s) sentences
    (Batch.run ⟨g, trees⟩ sentences)
  stdout_eq : report.stdout =
    String.join ((Batch.run ⟨g, trees⟩ sentences).map fun o => o.text ++ "\n")
  code_eq : report.code = if check = true ∧ ∃ s ∈ sentences, s.Misses g then 1 else 0
  stderr_eq_empty : check = false → report.stderr = ""
  /-- The sentences that miss their counts are named in order, and then counted. -/
  exists_stderr_eq : check = true →
    ∃ missed complaints, missed = sentences.filter (fun s => s.Misses g) ∧
      List.Forall₂ (fun s text => Sentence.Complaint s g text) missed complaints ∧
      report.stderr =
        String.join (complaints.map fun text => "Mismatch: " ++ text ++ "\n") ++
          toString missed.length ++ " of " ++ toString sentences.length ++
          " sentences mismatched\n"

open Classical in
/-- The mismatches of a batch are the outcomes of the sentences that miss their counts. -/
theorem filter_mismatch_run
    (hg : g.WellFormed)
    (trees : Bool)
    (sentences : List Sentence) :
    (Batch.run ⟨g, trees⟩ sentences).filter Outcome.mismatch =
      (sentences.filter fun s => s.Misses g).map (Batch.outcome ⟨g, trees⟩) := by
  rw [Batch.run_eq_map, List.filter_map]
  refine congrArg _ (List.filter_congr fun s _ => ?_)
  have hreports := Batch.reports_outcome (b := ⟨g, trees⟩) hg s
  rw [Function.comp_apply, Bool.eq_iff_iff, hreports.mismatch_iff_misses, decide_eq_true_iff]

theorem verdict_reportOutcomes
    (hg : g.WellFormed)
    (sentences : List Sentence)
    (trees check : Bool) :
    (reportOutcomes check (Batch.run ⟨g, trees⟩ sentences)).Verdict g sentences trees check := by
  classical
  have hreports (s : Sentence) : Outcome.Reports (Batch.outcome ⟨g, trees⟩ s) ⟨g, trees⟩ s :=
    Batch.reports_outcome hg s
  have houtcomes := Batch.forall₂_reports_run (b := ⟨g, trees⟩) hg sentences
  have hany : (Batch.run ⟨g, trees⟩ sentences).any Outcome.mismatch = true ↔
      ∃ s ∈ sentences, s.Misses g := by
    rw [Batch.run_eq_map, List.any_map, List.any_eq_true]
    exact exists_congr fun s => and_congr_right fun _ => (hreports s).mismatch_iff_misses
  cases check with
  | false =>
      exact
        { outcomes := houtcomes
          stdout_eq := rfl
          code_eq := by simp [reportOutcomes]
          stderr_eq_empty := fun _ => rfl
          exists_stderr_eq := fun h => by cases h }
  | true =>
      refine
        { outcomes := houtcomes
          stdout_eq := rfl
          code_eq := by simp [reportOutcomes, hany]
          stderr_eq_empty := fun h => by cases h
          exists_stderr_eq := fun _ => ?_ }
      refine ⟨_, (sentences.filter fun s => s.Misses g).map
        fun s => (Batch.outcome ⟨g, trees⟩ s).comparison, rfl, ?_, ?_⟩
      · rw [List.forall₂_map_right_iff, List.forall₂_same]
        intro s hs
        exact (hreports s).complaint (by simpa using (List.mem_filter.mp hs).2)
      · have hlength : (Batch.run ⟨g, trees⟩ sentences).length = sentences.length :=
          houtcomes.length_eq.symm
        simp only [reportOutcomes, checkText, filter_mismatch_run hg, if_pos, List.map_map,
          List.length_map, hlength]
        rfl

/-- A run with a grammar and a file of sentences ends with 2 and prints nothing exactly if a file
cannot be loaded, of which it gives the reason.  Otherwise both files can be loaded, and it prints
the outcomes of all sentences, ends with 1 exactly if it checks and a sentence misses its count, and
names these sentences. -/
theorem runOnFiles_verdict
    (read : Reader)
    (input : List Char)
    (grammarPath sentencePath : String)
    (trees check : Bool) :
    ((runOnFiles read input grammarPath sentencePath trees check).code = 2 ∧
        (runOnFiles read input grammarPath sentencePath trees check).stdout = "" ↔
      ∃ failure, Fails read input grammarPath sentencePath failure) ∧
    (∀ failure, Fails read input grammarPath sentencePath failure →
      (runOnFiles read input grammarPath sentencePath trees check).stderr =
        "Error: " ++ failure.message ++ "\n") ∧
    ((¬ ∃ failure, Fails read input grammarPath sentencePath failure) →
      ∃ g sentences, Loads read input grammarPath sentencePath g sentences) ∧
    ∀ g sentences, Loads read input grammarPath sentencePath g sentences →
      (runOnFiles read input grammarPath sentencePath trees check).Verdict
        g sentences trees check := by
  have hverdict (g : Grammar) (sentences : List Sentence)
      (h : Loads read input grammarPath sentencePath g sentences) :
      (runOnFiles read input grammarPath sentencePath trees check).Verdict
        g sentences trees check := by
    rw [runOnFiles_of_loads h]
    exact verdict_reportOutcomes h.wellFormed sentences trees check
  refine ⟨⟨?_, ?_⟩, ?_, ?_, hverdict⟩
  · rintro ⟨hcode, -⟩
    refine (fails_or_loads read input grammarPath sentencePath).resolve_right ?_
    rintro ⟨g, sentences, hloads⟩
    rw [(hverdict g sentences hloads).code_eq] at hcode
    split at hcode <;> cases hcode
  · rintro ⟨failure, hfails⟩
    rw [runOnFiles_of_fails hfails]
    exact ⟨rfl, rfl⟩
  · intro failure hfails
    rw [runOnFiles_of_fails hfails]
    rfl
  · exact (fails_or_loads read input grammarPath sentencePath).resolve_left

/-- Of three words two trees are found where three are expected, and a count is expected of no word
at all; in another file the second line has no count behind its last colon. -/
theorem runOnFiles_verdict_missedCounts :
    let read : Reader := fun path =>
      if path = "grammar" then .ok (.text "S -> S S | 'a'")
      else if path = "sentences" then .ok (.text "a a a : 3\n ; a : 0\r\na a: +1\n : 2")
      else .ok (.text "a : 1\na : b: 2x\n")
    let sentences : List Sentence :=
      [⟨["a", "a", "a"], some 3⟩, ⟨["a", "a"], some 1⟩, ⟨[], some 2⟩]
    let checked := runOnFiles read [] "grammar" "sentences" false true
    let refused := runOnFiles read [] "grammar" "other" false true
    Loads read [] "grammar" "sentences" binaryTreeGrammar sentences ∧
      Sentence.Misses ⟨["a", "a", "a"], some 3⟩ binaryTreeGrammar ∧
      checked.code = 1 ∧
      checked.stdout = "a a a\t2\na a\t1\n\terror: Cannot parse empty sentence\n" ∧
      checked.stderr =
        "Mismatch: 'a a a' expected 3 got 2\n" ++
          "Mismatch: '' expected 2 got error: Cannot parse empty sentence\n" ++
          "2 of 3 sentences mismatched\n" ∧
      (runOnFiles read [] "grammar" "sentences" false false).code = 0 ∧
      Fails read [] "grammar" "other" (.sentence ⟨2, "2x"⟩) ∧
      refused.code = 2 ∧ refused.stdout = "" ∧
      refused.stderr =
        "Error: Bad test sentence at line 2: expected a parse count, got '2x'\n" := by
  intro read sentences checked refused
  have hgrammar : Grammar.WrittenIn binaryTreeGrammar "S -> S S | 'a'".toList :=
    Grammar.ofText_eq_ok_iff.mp (by decide +kernel)
  have hloads : Loads read [] "grammar" "sentences" binaryTreeGrammar sentences :=
    .intro rfl hgrammar rfl (Sentence.readAll_eq_ok_iff.mp (by decide +kernel))
  have hfails : Fails read [] "grammar" "other" (.sentence ⟨2, "2x"⟩) :=
    .sentence rfl hgrammar rfl (Sentence.readAll_eq_error_iff.mp (by decide +kernel))
  have hmisses : Sentence.Misses ⟨["a", "a", "a"], some 3⟩ binaryTreeGrammar := by
    have hreports :=
      Batch.reports_outcome (b := ⟨binaryTreeGrammar, false⟩) hloads.wellFormed
        ⟨["a", "a", "a"], some 3⟩
    exact hreports.mismatch_iff_misses.mp (by decide +kernel)
  obtain ⟨-, -, -, hverdict⟩ := runOnFiles_verdict read [] "grammar" "sentences" false true
  obtain ⟨-, -, -, hunchecked⟩ := runOnFiles_verdict read [] "grammar" "sentences" false false
  obtain ⟨hrefused, hreason, -⟩ := runOnFiles_verdict read [] "grammar" "other" false true
  obtain ⟨hcode, hstdout⟩ := hrefused.mpr ⟨_, hfails⟩
  refine ⟨hloads, hmisses, ?_, ?_, ?_, ?_, hfails, hcode, hstdout, ?_⟩
  · rw [(hverdict _ _ hloads).code_eq]
    exact if_pos ⟨rfl, _, List.mem_cons_self, hmisses⟩
  · rw [(hverdict _ _ hloads).stdout_eq]
    decide +kernel
  · decide +kernel
  · rw [(hunchecked _ _ hloads).code_eq]
    exact if_neg fun h => Bool.false_ne_true h.1
  · exact hreason _ hfails

end Runs

end Command
end ChartParsing
