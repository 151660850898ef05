import ChartParsing.Batch
import ChartParsing.Proofs.ForestQueries

/-!
# Runs of a batch

A batch parses all of its sentences on one chart.  A filling keeps nothing of what the chart held
before but the grammar, so that every sentence has the outcome that it has alone.

**Invariant.** The chart of a batch has the grammar of the batch; this is all that one sentence
leaves to the next (`parse_fst`, `grammar_parse`).

**Results.**
* `Chart.Filled.trees_spec`, `Chart.Filled.encard_derivations`: what a filled chart says about its
  sentence.
* `run_eq_map`: a batch gives each sentence the outcome that it has alone.
* `run_reports_sentences`: what these outcomes are, and how many of each kind are reported.
-/

namespace ChartParsing

/-! ## One sentence -/

namespace Chart.Filled

variable {filled : Chart} {g : Grammar} {tokens : List String} {n : Nat}

/-- A forest of a filled chart lists the derivations of its sentence, each once, and as many as
were counted. -/
theorem trees_spec
    (h : filled.Filled g tokens n)
    (hg : g.WellFormed) :
    ∃ f, Forest.ofChart filled = .ok f ∧
      f.trees.1.Nodup ∧ f.trees.1.length = n ∧
      ∀ t, t ∈ f.trees.1 ↔ t ∈ g.derivations g.start tokens := by
  obtain ⟨cell, hcell, hcount⟩ := h.exists_root_cell
  obtain ⟨f, hf, rfl, hsound⟩ := Forest.exists_ofChart h
  obtain rfl := h.grammar_eq
  obtain rfl := h.tokens_eq
  have htrees : f.trees.1 = f.chart.treesAt f.chart.root f.chart.grammar.start :=
    (Forest.treesOf_spec hsound _ _).1
  obtain ⟨hnodup, hmem⟩ := treesAt_root_lists_derivations h.complete hg h.root_within
  refine ⟨f, hf, ?_⟩
  rw [htrees]
  refine ⟨hnodup, ?_, hmem⟩
  rw [length_treesAt h.complete h.root_within hcell, hcount]

/-- A filled chart counts the derivations of its sentence from the start symbol. -/
theorem encard_derivations
    (h : filled.Filled g tokens n)
    (hg : g.WellFormed) :
    (g.derivations g.start tokens).encard = n := by
  obtain ⟨f, -, hnodup, hlength, hmem⟩ := h.trees_spec hg
  have hset : g.derivations g.start tokens = ↑f.trees.1.toFinset := by
    ext t
    rw [List.coe_toFinset, Set.mem_ofPred_eq, hmem]
  rw [hset, Set.encard_coe_eq_coe_finsetCard, List.toFinset_card_of_nodup hnodup, hlength]

end Chart.Filled

namespace Outcome

/-- The sentence was parsed and has no derivation. -/
theorem isUnparsed_iff
    (o : Outcome) :
    o.isUnparsed = true ↔ o.count = .ok 0 := by
  rw [isUnparsed]
  split <;> simp [*]

/-- The expected count is there, and it is not the count that was found. -/
theorem mismatch_iff
    (o : Outcome) :
    o.mismatch = true ↔ ∃ n ∈ o.expected, o.count ≠ .ok n := by
  cases hexpected : o.expected with
  | none => simp [mismatch, hexpected]
  | some n =>
      cases hcount : o.count with
      | error e => simp [mismatch, hexpected, hcount]
      | ok m => simp [mismatch, hexpected, hcount, @eq_comm _ m n]

/-- What an outcome of a batch says about a sentence. -/
structure Reports (o : Outcome) (b : Batch) (s : Sentence) : Prop where
  run_eq : b.run [s] = [o]
  sentence_eq : o.sentence = s.text
  expected_eq : o.expected = s.expected
  count_eq_error_iff : o.count = .error .emptyInput ↔ s.tokens = []
  exists_count : s.tokens ≠ [] → ∃ n, o.count = .ok n ∧
    (b.grammar.derivations b.grammar.start s.tokens).encard = n
  /-- The texts of the derivations, each of them once. -/
  exists_trees : ∀ n, o.count = .ok n → b.withTrees = true →
    ∃ trees : List Tree, o.trees = trees.map Tree.text ∧ trees.Nodup ∧ trees.length = n ∧
      ∀ t, t ∈ trees ↔ t ∈ b.grammar.derivations b.grammar.start s.tokens
  trees_eq_nil : b.withTrees = false ∨ (∃ e, o.count = .error e) → o.trees = []

end Outcome

namespace Batch

variable {b : Batch} {c : Chart} {s : Sentence}

/-- The outcome of a sentence on a chart that held none. -/
def outcome (b : Batch) (s : Sentence) : Outcome :=
  (b.parse (.empty b.grammar) s).1

/-- Nothing is seen of the sentence that was in the chart. -/
theorem parse_fst
    (h : c.grammar = b.grammar) :
    (b.parse c s).1 = b.outcome s := by
  have hfill : c.fill s.tokens = (Chart.empty b.grammar).fill s.tokens := by
    rw [← h]
    rfl
  rw [outcome, parse, parse, hfill]

theorem grammar_parse
    (h : c.grammar = b.grammar) :
    (b.parse c s).2.grammar = b.grammar := by
  rw [← h]
  simp only [parse, Chart.fill]
  split <;> rfl

/-- A batch that goes on with a chart of its grammar gives each sentence the outcome that it has
alone. -/
theorem runFrom_eq_map
    (h : c.grammar = b.grammar)
    (sentences : List Sentence) :
    b.runFrom c sentences = sentences.map b.outcome := by
  induction sentences generalizing c with
  | nil => rfl
  | cons s rest ih =>
      simp only [runFrom, List.map_cons, parse_fst h, ih (grammar_parse h)]

theorem run_eq_map
    (b : Batch)
    (sentences : List Sentence) :
    b.run sentences = sentences.map b.outcome :=
  runFrom_eq_map rfl sentences

theorem outcome_of_nil
    (hnil : s.tokens = []) :
    b.outcome s = ⟨s.text, .error .emptyInput, [], s.expected⟩ := by
  have hfill : (Chart.empty b.grammar).fill s.tokens =
      (.error .emptyInput, Chart.empty b.grammar) := by
    rw [hnil]
    rfl
  simp [outcome, parse, hfill, Except.toBool]

theorem outcome_of_fill
    {n : Nat} {filled : Chart}
    (hfill : (Chart.empty b.grammar).fill s.tokens = (.ok n, filled)) :
    b.outcome s =
      ⟨s.text, .ok n, if b.withTrees then treeTexts filled else [], s.expected⟩ := by
  simp [outcome, parse, hfill, Except.toBool]

/-- What comes of one sentence. -/
theorem reports_outcome
    (hg : b.grammar.WellFormed)
    (s : Sentence) :
    (b.outcome s).Reports b s := by
  have hrun : b.run [s] = [b.outcome s] := run_eq_map b [s]
  by_cases hnil : s.tokens = []
  · rw [outcome_of_nil hnil] at hrun ⊢
    exact
      { run_eq := hrun
        sentence_eq := rfl
        expected_eq := rfl
        count_eq_error_iff := iff_of_true rfl hnil
        exists_count := fun hne => absurd hnil hne
        exists_trees := fun n hn => by cases hn
        trees_eq_nil := fun _ => rfl }
  · obtain ⟨n, filled, hfill⟩ := (Chart.empty b.grammar).exists_fill hnil
    have hfilled := Chart.Filled.of_fill hfill
    rw [outcome_of_fill hfill] at hrun ⊢
    refine
      { run_eq := hrun
        sentence_eq := rfl
        expected_eq := rfl
        count_eq_error_iff := iff_of_false (by simp) hnil
        exists_count := fun _ => ⟨n, rfl, hfilled.encard_derivations hg⟩
        exists_trees := ?_
        trees_eq_nil := ?_ }
    · rintro m ⟨⟩ hwith
      obtain ⟨f, hf, hnodup, hlength, hmem⟩ := hfilled.trees_spec hg
      refine ⟨f.trees.1, ?_, hnodup, hlength, hmem⟩
      simp only [if_pos hwith, treeTexts, hf]
    · rintro (hwith | ⟨e, he⟩)
      · simp only [hwith, if_neg Bool.false_ne_true]
      · cases he

theorem forall₂_reports_run
    (hg : b.grammar.WellFormed)
    (sentences : List Sentence) :
    List.Forall₂ (fun s o => Outcome.Reports o b s) sentences (b.run sentences) := by
  rw [run_eq_map, List.forall₂_map_right_iff, List.forall₂_same]
  exact fun s _ => reports_outcome hg s

/-! ## Messages -/

theorem level_ne_info_of_mem_fillMessages
    {m : Message}
    (h : m ∈ c.fillMessages) :
    m.level ≠ .info := by
  rw [Chart.fillMessages] at h
  split at h
  · rcases List.mem_cons.mp h with rfl | h
    · exact Level.noConfusion
    · obtain ⟨_, _, rfl⟩ := List.mem_map.mp h
      exact Level.noConfusion
  · cases h

theorem level_ne_info_of_mem_messagesFrom
    {number : Nat} {sentences : List Sentence} {m : Message}
    (h : m ∈ b.messagesFrom number c sentences) :
    m.level ≠ .info := by
  induction sentences generalizing number c with
  | nil => cases h
  | cons s rest ih =>
      simp only [messagesFrom, List.cons_append, List.mem_cons, List.mem_append] at h
      rcases h with rfl | h | h
      · exact Level.noConfusion
      · exact level_ne_info_of_mem_fillMessages h
      · exact ih h

/-- The closing message tells how many outcomes there are, how many sentences were parsed without
a derivation, and how many were expected to have a count that was not found. -/
theorem closingMessage_eq
    (outcomes : List Outcome) :
    closingMessage outcomes =
      ⟨.info, "Parsed " ++ toString outcomes.length ++ " sentences, " ++
        toString (outcomes.countP fun o => o.count = .ok 0) ++ " with no parse, " ++
        toString (outcomes.countP fun o => ∃ n ∈ o.expected, o.count ≠ .ok n) ++
        " mismatches"⟩ := by
  have hunparsed : outcomes.countP Outcome.isUnparsed =
      outcomes.countP fun o => o.count = .ok 0 :=
    List.countP_congr fun o _ => by simp [o.isUnparsed_iff]
  have hmismatch : outcomes.countP Outcome.mismatch =
      outcomes.countP fun o => ∃ n ∈ o.expected, o.count ≠ .ok n :=
    List.countP_congr fun o _ => by rw [o.mismatch_iff, decide_eq_true_iff]
  rw [closingMessage, hunparsed, hmismatch]

/-- A batch has one outcome for each sentence, in order, which says what it would say if the
sentence were alone; and the one message for users tells how many there are of each kind. -/
theorem run_reports_sentences
    {declarations : List Declaration} {start : String} {b : Batch}
    (hg : Grammar.ofDeclarations declarations start = .ok b.grammar)
    (sentences : List Sentence) :
    List.Forall₂ (fun s o => Outcome.Reports o b s) sentences (b.run sentences) ∧
      ∃ earlier closing, b.messages sentences = earlier ++ [closing] ∧
        (∀ m ∈ earlier, m.level ≠ .info) ∧
        closing = ⟨.info, "Parsed " ++ toString (b.run sentences).length ++ " sentences, " ++
          toString ((b.run sentences).countP fun o => o.count = .ok 0) ++ " with no parse, " ++
          toString ((b.run sentences).countP fun o => ∃ n ∈ o.expected, o.count ≠ .ok n) ++
          " mismatches"⟩ := by
  have hwf := Grammar.WellFormed.of_ofDeclarations hg
  exact ⟨forall₂_reports_run hwf sentences, _, _, rfl,
    fun m hm => level_ne_info_of_mem_messagesFrom hm, closingMessage_eq _⟩

/-- On one chart: two trees, then no tokens, then a word that the grammar does not have. -/
theorem run_reports_binaryTrees :
    Grammar.ofDeclarations binaryTreeDeclarations "S" = .ok binaryTreeGrammar ∧
      ∃ o₁ o₂ o₃,
        run ⟨binaryTreeGrammar, true⟩
          [⟨["a", "a", "a"], some 2⟩, ⟨[], some 1⟩, ⟨["a", "b"], none⟩] = [o₁, o₂, o₃] ∧
        o₁.count = .ok 2 ∧ o₁.trees.length = 2 ∧
        o₂.count = .error .emptyInput ∧ o₂.expected = some 1 ∧ o₂.trees = [] ∧
        o₃.count = .ok 0 ∧ o₃.trees = [] := by
  have hg : Grammar.ofDeclarations binaryTreeDeclarations "S" = .ok binaryTreeGrammar := by
    decide
  obtain ⟨houtcomes, -⟩ :=
    run_reports_sentences (b := ⟨binaryTreeGrammar, true⟩) hg
      [⟨["a", "a", "a"], some 2⟩, ⟨[], some 1⟩, ⟨["a", "b"], none⟩]
  have hcounts : (run ⟨binaryTreeGrammar, true⟩
      [⟨["a", "a", "a"], some 2⟩, ⟨[], some 1⟩, ⟨["a", "b"], none⟩]).map Outcome.count =
        [.ok 2, .error .emptyInput, .ok 0] := by
    decide +kernel
  generalize run ⟨binaryTreeGrammar, true⟩
    [⟨["a", "a", "a"], some 2⟩, ⟨[], some 1⟩, ⟨["a", "b"], none⟩] = outcomes at *
  obtain _ | ⟨h₁, _ | ⟨h₂, _ | ⟨h₃, _ | _⟩⟩⟩ := houtcomes
  rename_i o₁ o₂ o₃
  obtain ⟨hcount₁, hcount₂, hcount₃⟩ : o₁.count = .ok 2 ∧ o₂.count = .error .emptyInput ∧
      o₃.count = .ok 0 := by
    simpa using hcounts
  have htrees {o : Outcome} {s : Sentence} {n : Nat}
      (ho : o.Reports ⟨binaryTreeGrammar, true⟩ s)
      (hn : o.count = .ok n) :
      o.trees.length = n := by
    obtain ⟨trees, htexts, -, hlength, -⟩ := ho.exists_trees n hn rfl
    rw [htexts, List.length_map, hlength]
  exact ⟨hg, o₁, o₂, o₃, rfl, hcount₁, htrees h₁ hcount₁, hcount₂, h₂.expected_eq,
    h₂.trees_eq_nil (.inr ⟨_, hcount₂⟩), hcount₃, List.length_eq_zero_iff.mp (htrees h₃ hcount₃)⟩

end Batch
end ChartParsing
