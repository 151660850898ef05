import ChartParsing.Proofs.DerivationCount
import Std.Data.HashMap.Lemmas

/-!
# Queries to a forest

A forest remembers what it has listed.  Its answers do not show that: whatever was asked
before, a query is answered with the trees that plain recursion lists, and breaks off where the
chart does.

**Invariant.** `Memory.Sound` says that a memory holds only lists of plain recursion.  One
query keeps it (`recallTrees_spec`, by induction on the length of the span, and `answer_spec`),
and so do any number of queries (`answerAll_spec`).

**Results.**
* `Forest.answer_answerAll`: the answer to a query after any other queries.
* `collect_lists_derivations`: a query lists the derivations of the words of its span, each
  once.
* `length_answers_eq_counts`: every answer has as many trees as the chart counts.
-/

namespace ChartParsing

/-- A memory holds only what plain recursion lists. -/
def Memory.Sound
    (memory : Memory)
    (c : Chart) : Prop :=
  ∀ s A trees, memory[(s, A)]? = some trees → trees = c.treesAt s A

namespace Chart

variable {c : Chart}

theorem sound_empty
    (c : Chart) :
    Memory.Sound ∅ c := by
  intro s A trees h
  simp at h

theorem sound_insert
    {memory : Memory}
    (hm : memory.Sound c)
    (s : Span)
    (A : Symbol) :
    Memory.Sound (memory.insert (s, A) (c.treesAt s A)) c := by
  intro s' A' trees h
  rw [Std.HashMap.getElem?_insert] at h
  split at h
  · rename_i hkey
    obtain ⟨rfl, rfl⟩ := Prod.mk.inj (eq_of_beq hkey)
    exact (Option.some.inj h).symm
  · exact hm s' A' trees h

/-- Recalling the trees of one split after another lists what plain recursion lists for all
of them. -/
theorem foldl_recall
    {s : Span}
    (symbol : String)
    (hrecall : ∀ (t : Span) (B : Symbol) (memory : Memory),
      t.len < s.len → memory.Sound c →
        (c.recallTrees t B memory).1 = c.treesAt t B ∧
          (c.recallTrees t B memory).2.Sound c)
    (splits : List Split)
    (listed : List Tree)
    {memory : Memory}
    (hm : memory.Sound c) :
    let step := fun (acc : List Tree × Memory) (split : Split) =>
      if _h : split.Shortens s then
        let lefts := c.recallTrees split.left split.leftSymbol acc.2
        let rights := c.recallTrees split.right split.rightSymbol lefts.2
        (acc.1 ++ joinTrees symbol lefts.1 rights.1, rights.2)
      else
        acc
    (splits.foldl step (listed, memory)).1 =
        listed ++ splits.flatMap (fun split =>
          if _h : split.Shortens s then
            joinTrees symbol
              (c.treesAt split.left split.leftSymbol)
              (c.treesAt split.right split.rightSymbol)
          else
            []) ∧
      (splits.foldl step (listed, memory)).2.Sound c := by
  intro step
  induction splits generalizing listed memory with
  | nil => exact ⟨(List.append_nil listed).symm, hm⟩
  | cons split splits ih =>
      rw [List.foldl_cons, List.flatMap_cons]
      by_cases h : split.Shortens s
      · obtain ⟨hlefts, hmleft⟩ := hrecall split.left split.leftSymbol memory h.1 hm
        obtain ⟨hrights, hmright⟩ := hrecall split.right split.rightSymbol _ h.2 hmleft
        have hstep : step (listed, memory) split =
            (listed ++ joinTrees symbol
              (c.treesAt split.left split.leftSymbol)
              (c.treesAt split.right split.rightSymbol),
              (c.recallTrees split.right split.rightSymbol
                (c.recallTrees split.left split.leftSymbol memory).2).2) := by
          simp only [step, dif_pos h, hlefts, hrights]
        rw [hstep, dif_pos h, ← List.append_assoc]
        exact ih _ hmright
      · have hstep : step (listed, memory) split = (listed, memory) := dif_neg h
        rw [hstep, dif_neg h, List.nil_append]
        exact ih listed hm

/-- A query answers with the trees of plain recursion and keeps the memory sound. -/
theorem recallTrees_spec
    (s : Span)
    (A : Symbol)
    {memory : Memory}
    (hm : memory.Sound c) :
    (c.recallTrees s A memory).1 = c.treesAt s A ∧
      (c.recallTrees s A memory).2.Sound c := by
  induction hlen : s.len using Nat.strong_induction_on generalizing s A memory with
  | _ len ih =>
      have hrecall : ∀ (t : Span) (B : Symbol) (memory : Memory),
          t.len < s.len → memory.Sound c →
            (c.recallTrees t B memory).1 = c.treesAt t B ∧
              (c.recallTrees t B memory).2.Sound c := by
        intro t B memory hlt hm
        exact ih t.len (by omega) t B hm rfl
      rw [recallTrees]
      cases hknown : memory[(s, A)]? with
      | some trees =>
          exact ⟨hm s A trees hknown, hm⟩
      | none =>
          have hlisted : ∀ {listed : List Tree} {memory' : Memory},
              listed = c.treesAt s A → memory'.Sound c →
                listed = c.treesAt s A ∧ Memory.Sound (memory'.insert (s, A) listed) c := by
            rintro listed memory' rfl hm'
            exact ⟨rfl, sound_insert hm' s A⟩
          cases hcell : cellAt? c.len c.cells s with
          | none =>
              refine hlisted ?_ hm
              rw [treesAt, hcell]
          | some cell =>
              cases cell with
              | leaf word symbols =>
                  refine hlisted ?_ hm
                  rw [treesAt, hcell]
              | internal entries =>
                  cases hentry : entries.lookup A with
                  | none =>
                      simp only [hentry]
                      refine hlisted ?_ hm
                      rw [treesAt, hcell]
                      simp only [hentry]
                  | some entry =>
                      simp only [hentry]
                      obtain ⟨hfold, hmfold⟩ :=
                        foldl_recall (c.grammar.name A) hrecall entry.splits [] hm
                      refine hlisted ?_ hmfold
                      rw [treesAt, hcell]
                      simp only [hentry]
                      exact hfold

/-- The trees of a span are as many as its cell counts. -/
theorem length_treesAt_eq_count
    (hc : c.Complete)
    (s : Span)
    (A : Symbol) :
    (c.treesAt s A).length = ((c.cell? s).map (·.count A)).getD 0 := by
  by_cases hs : s.Within c.len
  · obtain ⟨cell, hcell⟩ := hc.exists_cell hs
    rw [cell?, hcell]
    exact length_treesAt hc hs hcell A
  · rw [treesAt_of_not_within hs, cell?_eq_none hs]
    rfl

/-- The trees of a span are the derivations of its words, each once. -/
theorem treesAt_lists_derivations
    (hc : c.Complete)
    (hg : c.grammar.WellFormed)
    (s : Span)
    (A : Symbol) :
    (c.treesAt s A).Nodup ∧
      ∀ t, t ∈ c.treesAt s A ↔
        s.Within c.len ∧ (s = c.root → A = c.grammar.start) ∧
          t ∈ c.grammar.derivations A (s.words c.tokens) := by
  by_cases hs : s.Within c.len
  · refine ⟨nodup_treesAt hc hg hs A, fun t => ?_⟩
    rw [mem_treesAt_iff hc hg hs, Grammar.keeps_iff, ← Span.eq_whole_iff hs]
    exact (and_iff_right hs).symm
  · rw [treesAt_of_not_within hs]
    exact ⟨List.nodup_nil, fun t => iff_of_false List.not_mem_nil fun h => hs h.1⟩

/-- The trees of the sentence are its derivations, each once. -/
theorem treesAt_root_lists_derivations
    (hc : c.Complete)
    (hg : c.grammar.WellFormed)
    (hroot : c.root.Within c.len) :
    (c.treesAt c.root c.grammar.start).Nodup ∧
      ∀ t, t ∈ c.treesAt c.root c.grammar.start ↔
        t ∈ c.grammar.derivations c.grammar.start c.tokens := by
  obtain ⟨hnodup, hmem⟩ := treesAt_lists_derivations hc hg c.root c.grammar.start
  have hwords : c.root.words c.tokens = c.tokens := Span.words_whole c.tokens
  refine ⟨hnodup, fun t => ?_⟩
  rw [hmem, and_iff_right hroot, and_iff_right fun _ => rfl, hwords]

end Chart

/-- What a forest can be asked. -/
inductive Forest.Query
  | collect (s : Span) (A : Symbol)
  | trees
  deriving DecidableEq, Repr

/-- The answer of plain recursion to a query. -/
def Chart.plainAnswer (c : Chart) : Forest.Query → Except Abort (List Tree)
  | .collect s A => (c.cell s).map fun _ => c.treesAt s A
  | .trees => .ok (c.treesAt c.root c.grammar.start)

namespace Forest

/-- Answers one query. -/
def answer (f : Forest) : Query → Except Abort (List Tree) × Forest
  | .collect s A => f.collect s A
  | .trees =>
      let answer := f.trees
      (.ok answer.1, answer.2)

/-- Answers queries one after another, also behind one that broke off. -/
def answerAll (f : Forest) : List Query → List (Except Abort (List Tree)) × Forest
  | [] => ([], f)
  | query :: rest =>
      let first := f.answer query
      let others := first.2.answerAll rest
      (first.1 :: others.1, others.2)

section Answers

variable {f : Forest} (hf : f.memory.Sound f.chart)
include hf

theorem treesOf_spec
    (s : Span)
    (A : Symbol) :
    (f.treesOf s A).1 = f.chart.treesAt s A ∧
      (f.treesOf s A).2.chart = f.chart ∧
      (f.treesOf s A).2.memory.Sound f.chart := by
  obtain ⟨hanswer, hmemory⟩ := Chart.recallTrees_spec s A hf
  exact ⟨hanswer, rfl, hmemory⟩

/-- One query is answered as by plain recursion and keeps the memory sound. -/
theorem answer_spec
    (query : Query) :
    (f.answer query).1 = f.chart.plainAnswer query ∧
      (f.answer query).2.chart = f.chart ∧
      (f.answer query).2.memory.Sound f.chart := by
  cases query with
  | collect s A =>
      obtain ⟨hanswer, hchart, hmemory⟩ := treesOf_spec hf s A
      rw [answer, collect, Chart.plainAnswer]
      cases f.chart.cell s with
      | error abort => exact ⟨rfl, rfl, hf⟩
      | ok _ => exact ⟨congrArg _ hanswer, hchart, hmemory⟩
  | trees =>
      obtain ⟨hanswer, hchart, hmemory⟩ := treesOf_spec hf f.chart.root f.chart.grammar.start
      exact ⟨congrArg _ hanswer, hchart, hmemory⟩

/-- Any number of queries are answered as by plain recursion and keep the memory sound. -/
theorem answerAll_spec
    (queries : List Query) :
    (f.answerAll queries).1 = queries.map f.chart.plainAnswer ∧
      (f.answerAll queries).2.chart = f.chart ∧
      (f.answerAll queries).2.memory.Sound f.chart := by
  induction queries generalizing f with
  | nil => exact ⟨rfl, rfl, hf⟩
  | cons query rest ih =>
      obtain ⟨hanswer, hchart, hmemory⟩ := answer_spec hf query
      rw [← hchart] at hmemory
      obtain ⟨hanswers, hchart', hmemory'⟩ := ih hmemory
      rw [hchart] at hanswers hchart' hmemory'
      refine ⟨?_, hchart', hmemory'⟩
      rw [answerAll, List.map_cons, hanswer, hanswers]

/-- Whatever was asked before, a query is answered as by plain recursion. -/
theorem answer_answerAll
    (earlier : List Query)
    (query : Query) :
    ((f.answerAll earlier).2.answer query).1 = f.chart.plainAnswer query := by
  obtain ⟨-, hchart, hsound⟩ := answerAll_spec hf earlier
  rw [← hchart] at hsound
  rw [(answer_spec hsound query).1, hchart]

end Answers

/-- A filled chart has a forest, which remembers nothing yet. -/
theorem exists_ofChart
    {g : Grammar} {tokens : List String} {n : Nat} {filled : Chart}
    (h : filled.Filled g tokens n) :
    ∃ f, ofChart filled = .ok f ∧ f.chart = filled ∧ f.memory.Sound f.chart := by
  refine ⟨⟨filled, ∅⟩, ?_, rfl, Chart.sound_empty filled⟩
  rw [ofChart, if_pos h.isFilled_eq_true]

end Forest

/-- Whatever was asked before, a query to the forest of a filled chart whose end is a word lists the
derivations of the words of its span from its symbol, each once.  It lists none beyond the
sentence, and over the whole sentence only those from the start symbol. -/
theorem collect_lists_derivations
    {declarations : List Declaration} {start : String}
    {c filled : Chart} {tokens : List String} {n : Nat}
    (hg : Grammar.ofDeclarations declarations start = .ok c.grammar)
    (hfill : c.fill tokens = (.ok n, filled)) :
    ∃ f, Forest.ofChart filled = .ok f ∧
      ∀ earlier : List Forest.Query,
        (∀ s A, s.start + s.len < Span.wordSize →
          ∃ trees, ((f.answerAll earlier).2.collect s A).1 = .ok trees ∧ trees.Nodup ∧
            ∀ t, t ∈ trees ↔
              s.Within tokens.length ∧ (s = filled.root → A = c.grammar.start) ∧
                t ∈ c.grammar.derivations A (s.words tokens)) ∧
        (f.answerAll earlier).2.trees.1.Nodup ∧
        ∀ t, t ∈ (f.answerAll earlier).2.trees.1 ↔
          t ∈ c.grammar.derivations c.grammar.start tokens := by
  have hfilled := Chart.Filled.of_fill hfill
  have hwf := Grammar.WellFormed.of_ofDeclarations hg
  rw [← hfilled.grammar_eq] at hwf ⊢
  rw [← hfilled.tokens_eq]
  obtain ⟨f, hf, rfl, hsound⟩ := Forest.exists_ofChart hfilled
  refine ⟨f, hf, fun earlier => ⟨fun s A hword => ?_, ?_⟩⟩
  · have hanswer := Forest.answer_answerAll hsound earlier (.collect s A)
    rw [Chart.plainAnswer, Chart.cell_eq_ok hword] at hanswer
    exact ⟨_, hanswer, Chart.treesAt_lists_derivations hfilled.complete hwf s A⟩
  · have htrees := Forest.answer_answerAll hsound earlier .trees
    rw [Except.ok.inj htrees]
    exact Chart.treesAt_root_lists_derivations hfilled.complete hwf hfilled.root_within

/-- Of three words, the last two have one tree and those from the third on, four words long,
have none, also after a query whose end is no word. -/
theorem collect_lists_binaryTrees :
    Grammar.ofDeclarations binaryTreeDeclarations "S" = .ok binaryTreeGrammar ∧
      ((Chart.empty binaryTreeGrammar).fill ["a", "a", "a"]).1 = .ok 2 ∧
      ∃ f trees, Forest.ofChart ((Chart.empty binaryTreeGrammar).fill ["a", "a", "a"]).2 = .ok f ∧
        ((f.answerAll [.collect ⟨Span.wordSize - 1, 2⟩ ⟨0⟩, .trees]).2.collect ⟨1, 2⟩ ⟨0⟩).1 =
          .ok trees ∧
        .node "S" (.leaf "S" "a") (.leaf "S" "a") ∈ trees ∧
        ((f.answerAll [.collect ⟨Span.wordSize - 1, 2⟩ ⟨0⟩, .trees]).2.collect ⟨2, 4⟩ ⟨0⟩).1 =
          .ok [] := by
  have hg : Grammar.ofDeclarations binaryTreeDeclarations "S" = .ok binaryTreeGrammar := by
    decide
  have hn : ((Chart.empty binaryTreeGrammar).fill ["a", "a", "a"]).1 = .ok 2 := by
    decide +kernel
  obtain ⟨f, hf, hanswers⟩ :=
    collect_lists_derivations (c := Chart.empty binaryTreeGrammar) hg (Prod.ext hn rfl)
  obtain ⟨hcollect, -⟩ := hanswers [.collect ⟨Span.wordSize - 1, 2⟩ ⟨0⟩, .trees]
  obtain ⟨trees, hlast, -, hmem⟩ := hcollect ⟨1, 2⟩ ⟨0⟩ (by decide)
  obtain ⟨beyond, hbeyond, -, hnone⟩ := hcollect ⟨2, 4⟩ ⟨0⟩ (by decide)
  refine ⟨hg, hn, f, trees, hf, hlast, ?_, ?_⟩
  · have hleaf : Derives binaryTreeGrammar ⟨0⟩ (.leaf "S" "a") :=
      .lexical (by decide)
    have hnode : Derives binaryTreeGrammar ⟨0⟩ (.node "S" (.leaf "S" "a") (.leaf "S" "a")) :=
      .binary (by decide) hleaf hleaf
    exact (hmem _).mpr ⟨by decide, fun _ => rfl, hnode, by decide⟩
  · rw [hbeyond]
    refine congrArg _ (List.eq_nil_iff_forall_not_mem.mpr fun t ht => ?_)
    exact absurd ((hnone t).mp ht).1 (by decide)

/-- The number of trees that a chart counts for a query, where its sentence has `n`
derivations. -/
def Chart.countFor (c : Chart) (n : Nat) : Forest.Query → Except Abort Nat
  | .collect s A => (c.cell s).map fun cell? => (cell?.map (·.count A)).getD 0
  | .trees => .ok n

/-- Each answer of a forest, whatever is asked and in any order, has as many trees as the
chart counts, and breaks off where the chart does. -/
theorem length_answers_eq_counts
    {c filled : Chart} {tokens : List String} {n : Nat}
    (hfill : c.fill tokens = (.ok n, filled)) :
    ∃ f, Forest.ofChart filled = .ok f ∧
      ∀ queries : List Forest.Query,
        (f.answerAll queries).1.map (Except.map List.length) =
          queries.map (filled.countFor n) := by
  have hfilled := Chart.Filled.of_fill hfill
  obtain ⟨f, hf, rfl, hsound⟩ := Forest.exists_ofChart hfilled
  refine ⟨f, hf, ?_⟩
  intro queries
  rw [(Forest.answerAll_spec hsound queries).1, List.map_map]
  refine List.map_congr_left ?_
  intro query _
  cases query with
  | collect s A =>
      have hlength := Chart.length_treesAt_eq_count hfilled.complete s A
      rw [Function.comp_apply, Chart.plainAnswer, Chart.countFor, Chart.cell_eq]
      split
      · rfl
      · exact congrArg _ hlength
  | trees =>
      obtain ⟨cell, hcell, hcount⟩ := hfilled.exists_root_cell
      rw [← hfilled.grammar_eq] at hcount
      have hlength :=
        Chart.length_treesAt_eq_count hfilled.complete f.chart.root f.chart.grammar.start
      rw [hcell, Option.map_some, Option.getD_some, hcount] at hlength
      exact congrArg _ hlength

/-- Four words have five binary trees, however often they are asked for, two of them have one, and
a query whose end is no word breaks off. -/
theorem length_answers_binaryTrees :
    ((Chart.empty binaryTreeGrammar).fill ["a", "a", "a", "a"]).1 = .ok 5 ∧
      ∃ f, Forest.ofChart ((Chart.empty binaryTreeGrammar).fill ["a", "a", "a", "a"]).2 = .ok f ∧
        (f.answerAll
          [.collect ⟨1, 2⟩ ⟨0⟩, .trees, .collect ⟨Span.wordSize - 1, 2⟩ ⟨0⟩, .collect ⟨3, 4⟩ ⟨0⟩,
            .trees]).1.map (Except.map List.length) =
          [.ok 1, .ok 5, .error .overflow, .ok 0, .ok 5] := by
  have hn : ((Chart.empty binaryTreeGrammar).fill ["a", "a", "a", "a"]).1 = .ok 5 := by
    decide +kernel
  obtain ⟨f, hf, hlengths⟩ := length_answers_eq_counts (Prod.ext hn rfl)
  refine ⟨hn, f, hf, ?_⟩
  rw [hlengths]
  decide +kernel

end ChartParsing
