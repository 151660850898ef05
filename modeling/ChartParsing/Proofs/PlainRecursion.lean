import ChartParsing.Listing
import ChartParsing.Proofs.ForestQueries
import ChartParsing.Proofs.RecordedSplits

/-!
# Memory and plain recursion

The answers of a forest are those of plain recursion, and neither recursion goes on for ever.  A
recorded split has two parts that are shorter than the span and lie in the sentence, so that every
call below a span is for a shorter one.

**Invariant.** A sound memory holds only what plain recursion lists.  Starting with one, the
recursion ends, and whenever it ends it has listed the trees of plain recursion and left a sound
memory (`Chart.EndsPlainly`).  That is shown by induction on the length of the span, for all splits
of an entry one after another (`recallsSplits_spec`).

**Results.**
* `Chart.lists_iff`: plain recursion ends with one list of trees.
* `Chart.endsPlainly`: so does the recursion with a memory, and with the same one.
* `answers_are_plain_recursion`: no answer of a forest depends on what was asked before.
-/

namespace ChartParsing
namespace Chart

variable {c : Chart} {s : Span} {A : Symbol} {entry : Entry} {symbol : String}
variable {splits : List Split} {trees : List Tree} {memory memory' : Memory}

/-- What is listed at once is what plain recursion lists. -/
theorem atOnce_iff
    (hentry : c.entryAt? s A = none) :
    c.AtOnce s A trees ↔ trees = c.treesAt s A := by
  rw [treesAt, ← cell?]
  rw [entryAt?] at hentry
  constructor
  · intro h
    cases h with
    | missing hcell => rw [hcell]
    | leaf hcell hA => simp only [hcell, if_pos hA]
    | noLeaf hcell hA => simp only [hcell, if_neg hA]
    | noEntry hcell hentry => simp only [hcell, hentry]
  · rintro rfl
    cases hcell : c.cell? s with
    | none => exact .missing hcell
    | some cell =>
        cases cell with
        | leaf word symbols =>
            by_cases hA : A ∈ symbols
            · simp only [if_pos hA]
              exact .leaf hcell hA
            · simp only [if_neg hA]
              exact .noLeaf hcell hA
        | internal entries =>
            have hnone : entries.lookup A = none := by
              rwa [hcell] at hentry
            simp only [hnone]
            exact .noEntry hcell hnone

theorem AtOnce.entryAt?_eq_none
    (h : c.AtOnce s A trees) :
    c.entryAt? s A = none := by
  rw [entryAt?]
  cases h with
  | missing hcell => rw [hcell]; rfl
  | leaf hcell _ => rw [hcell]; rfl
  | noLeaf hcell _ => rw [hcell]; rfl
  | noEntry hcell hentry => rw [hcell]; exact hentry

/-! ## Recorded splits -/

/-- Both parts of a recorded split lie in the sentence and are shorter than the span. -/
structure Split.Parts (c : Chart) (s : Span) (split : Split) : Prop where
  left_within : split.left.Within c.len
  right_within : split.right.Within c.len
  shortens : split.Shortens s

/-- A span with an entry lies in the sentence, and its cell has the entry. -/
theorem cellAt?_of_entryAt?
    (hentry : c.entryAt? s A = some entry) :
    s.Within c.len ∧
      ∃ entries, cellAt? c.len c.cells s = some (.internal entries) ∧
        entries.lookup A = some entry := by
  rw [entryAt?, cell?] at hentry
  obtain ⟨cell, hcell, hlookup⟩ := Option.bind_eq_some_iff.mp hentry
  refine ⟨?_, ?_⟩
  · by_contra hout
    rw [cellAt?, if_neg hout] at hcell
    cases hcell
  · cases cell with
    | leaf word symbols => cases hlookup
    | internal entries => exact ⟨entries, hcell, hlookup⟩

/-- The splits of an entry are those of ways to derive the span. -/
theorem parts_of_mem_splits
    (hc : c.Complete)
    (hentry : c.entryAt? s A = some entry)
    {split : Split}
    (hsplit : split ∈ entry.splits) :
    Split.Parts c s split := by
  obtain ⟨hin, entries, hcell, hlookup⟩ := cellAt?_of_entryAt? hentry
  have hlen : s.len ≠ 1 := by
    intro hone
    rw [hc.tabulates s hin, Grammar.cellOf, if_pos hone] at hcell
    cases hcell
  have heq : (Cell.internal entries).lookup A = some entry := hlookup
  rw [lookup_eq hc hin hlen hcell, Grammar.entryOf?_eq] at heq
  split at heq
  · split at heq
    · cases heq
    · cases heq
      obtain ⟨way, hto, rfl⟩ := List.mem_map.mp hsplit
      have hway := (Grammar.mem_waysTo_iff.mp hto).1
      have hshortens := Grammar.shortens_of_mem_ways hway
      obtain ⟨k, _, _, _, _, _, _, hk, _, _, _, _, _, rfl⟩ := Grammar.mem_ways_iff.mp hway
      exact ⟨Span.left_within hin hk.1 hk.2, Span.right_within hin hk.2, hshortens⟩
  · cases heq

/-- The trees under a symbol for splits, in order. -/
def treesOfSplits (c : Chart) (symbol : String) (splits : List Split) : List Tree :=
  splits.flatMap fun split =>
    joinTrees symbol
      (c.treesAt split.left split.leftSymbol)
      (c.treesAt split.right split.rightSymbol)

theorem treesOfSplits_cons
    (split : Split)
    (splits : List Split) :
    c.treesOfSplits symbol (split :: splits) =
      joinTrees symbol
        (c.treesAt split.left split.leftSymbol)
        (c.treesAt split.right split.rightSymbol) ++ c.treesOfSplits symbol splits :=
  List.flatMap_cons

theorem treesAt_of_entryAt?
    (hc : c.Complete)
    (hentry : c.entryAt? s A = some entry) :
    c.treesAt s A = c.treesOfSplits (c.grammar.name A) entry.splits := by
  obtain ⟨_, entries, hcell, hlookup⟩ := cellAt?_of_entryAt? hentry
  rw [treesAt, hcell]
  simp only [hlookup]
  refine List.flatMap_congr ?_
  intro split hsplit
  exact dif_pos (parts_of_mem_splits hc hentry hsplit).shortens

/-! ## Plain recursion -/

/-- Plain recursion ends for splits if it does for their parts. -/
theorem listsSplits_iff
    (hparts : ∀ split ∈ splits,
      (∀ trees, c.Lists split.left split.leftSymbol trees ↔
        trees = c.treesAt split.left split.leftSymbol) ∧
      ∀ trees, c.Lists split.right split.rightSymbol trees ↔
        trees = c.treesAt split.right split.rightSymbol) :
    c.ListsSplits symbol splits trees ↔ trees = c.treesOfSplits symbol splits := by
  induction splits generalizing trees with
  | nil =>
      constructor
      · intro h
        cases h
        rfl
      · rintro rfl
        exact .nil
  | cons split splits ih =>
      obtain ⟨⟨hlefts, hrights⟩, hrest⟩ := List.forall_mem_cons.mp hparts
      rw [treesOfSplits_cons]
      constructor
      · intro h
        cases h with
        | cons hleft hright hothers =>
            rw [(hlefts _).mp hleft, (hrights _).mp hright, (ih hrest).mp hothers]
      · rintro rfl
        exact .cons ((hlefts _).mpr rfl) ((hrights _).mpr rfl) ((ih hrest).mpr rfl)

theorem lists_iff_atOnce
    (hentry : c.entryAt? s A = none) :
    c.Lists s A trees ↔ c.AtOnce s A trees := by
  constructor
  · intro h
    cases h with
    | atOnce h => exact h
    | entry hentry' _ => simp [hentry] at hentry'
  · exact .atOnce

theorem lists_iff_listsSplits
    (hentry : c.entryAt? s A = some entry) :
    c.Lists s A trees ↔ c.ListsSplits (c.grammar.name A) entry.splits trees := by
  constructor
  · intro h
    cases h with
    | atOnce h => simp [h.entryAt?_eq_none] at hentry
    | entry hentry' h =>
        rw [hentry, Option.some.injEq] at hentry'
        rwa [hentry']
  · exact .entry hentry

/-- Plain recursion ends with one list of trees. -/
theorem lists_iff
    (hc : c.Complete) :
    c.Lists s A trees ↔ trees = c.treesAt s A := by
  induction hlen : s.len using Nat.strong_induction_on generalizing s A trees with
  | _ len ih =>
      cases hentry : c.entryAt? s A with
      | none =>
          exact (lists_iff_atOnce hentry).trans (atOnce_iff hentry)
      | some entry =>
          rw [lists_iff_listsSplits hentry, treesAt_of_entryAt? hc hentry]
          refine listsSplits_iff ?_
          intro split hsplit
          have hparts := parts_of_mem_splits hc hentry hsplit
          obtain ⟨hleft, hright⟩ := hparts.shortens
          exact ⟨fun _ => ih split.left.len (by omega) rfl,
            fun _ => ih split.right.len (by omega) rfl⟩

/-! ## Recursion with a memory -/

theorem recalls_iff_of_known
    {known : List Tree}
    (hknown : memory[(s, A)]? = some known) :
    c.Recalls memory s A trees memory' ↔ trees = known ∧ memory' = memory := by
  constructor
  · intro h
    cases h with
    | known h =>
        rw [hknown, Option.some.injEq] at h
        exact ⟨h.symm, rfl⟩
    | atOnce hfresh _ => simp [hknown] at hfresh
    | entry hfresh _ _ => simp [hknown] at hfresh
  · rintro ⟨rfl, rfl⟩
    exact .known hknown

theorem recalls_iff_atOnce
    (hfresh : memory[(s, A)]? = none)
    (hentry : c.entryAt? s A = none) :
    c.Recalls memory s A trees memory' ↔
      c.AtOnce s A trees ∧ memory' = memory.insert (s, A) trees := by
  constructor
  · intro h
    cases h with
    | known hknown => simp [hfresh] at hknown
    | atOnce _ h => exact ⟨h, rfl⟩
    | entry _ hentry' _ => simp [hentry] at hentry'
  · rintro ⟨h, rfl⟩
    exact .atOnce hfresh h

theorem recalls_iff_recallsSplits
    (hfresh : memory[(s, A)]? = none)
    (hentry : c.entryAt? s A = some entry) :
    c.Recalls memory s A trees memory' ↔
      ∃ memory'', c.RecallsSplits (c.grammar.name A) memory entry.splits trees memory'' ∧
        memory' = memory''.insert (s, A) trees := by
  constructor
  · intro h
    cases h with
    | known hknown => simp [hfresh] at hknown
    | atOnce _ h => simp [h.entryAt?_eq_none] at hentry
    | entry _ hentry' h =>
        rw [hentry, Option.some.injEq] at hentry'
        subst hentry'
        exact ⟨_, h, rfl⟩
  · rintro ⟨memory'', h, rfl⟩
    exact .entry hfresh hentry h

/-- Starting with any sound memory, the recursion ends, and only with the trees of plain recursion
and a sound memory. -/
def EndsPlainly (c : Chart) (s : Span) (A : Symbol) : Prop :=
  ∀ memory : Memory, memory.Sound c →
    (∃ memory', c.Recalls memory s A (c.treesAt s A) memory') ∧
      ∀ trees memory', c.Recalls memory s A trees memory' →
        trees = c.treesAt s A ∧ memory'.Sound c

/-- The recursion ends for splits if it does for their parts, whatever these leave in the memory. -/
theorem recallsSplits_spec
    (symbol : String)
    (hparts : ∀ split ∈ splits,
      c.EndsPlainly split.left split.leftSymbol ∧ c.EndsPlainly split.right split.rightSymbol)
    (hm : memory.Sound c) :
    (∃ memory', c.RecallsSplits symbol memory splits (c.treesOfSplits symbol splits) memory') ∧
      ∀ trees memory', c.RecallsSplits symbol memory splits trees memory' →
        trees = c.treesOfSplits symbol splits ∧ memory'.Sound c := by
  induction splits generalizing memory with
  | nil =>
      refine ⟨⟨memory, .nil⟩, ?_⟩
      intro trees memory' h
      cases h
      exact ⟨rfl, hm⟩
  | cons split splits ih =>
      obtain ⟨⟨hlefts, hrights⟩, hrest⟩ := List.forall_mem_cons.mp hparts
      rw [treesOfSplits_cons]
      constructor
      · obtain ⟨⟨memoryLeft, hleft⟩, honlyLeft⟩ := hlefts memory hm
        have hmleft := (honlyLeft _ _ hleft).2
        obtain ⟨⟨memoryRight, hright⟩, honlyRight⟩ := hrights memoryLeft hmleft
        have hmright := (honlyRight _ _ hright).2
        obtain ⟨⟨memory', hothers⟩, _⟩ := ih hrest hmright
        exact ⟨memory', .cons hleft hright hothers⟩
      · intro trees memory' h
        cases h with
        | cons hleft hright hothers =>
            obtain ⟨rfl, hmleft⟩ := (hlefts memory hm).2 _ _ hleft
            obtain ⟨rfl, hmright⟩ := (hrights _ hmleft).2 _ _ hright
            obtain ⟨rfl, hm'⟩ := (ih hrest hmright).2 _ _ hothers
            exact ⟨rfl, hm'⟩

/-- The recursion with a memory ends with the trees of plain recursion. -/
theorem endsPlainly
    (hc : c.Complete)
    (s : Span)
    (A : Symbol) :
    c.EndsPlainly s A := by
  induction hlen : s.len using Nat.strong_induction_on generalizing s A with
  | _ len ih =>
      intro memory hm
      cases hknown : memory[(s, A)]? with
      | some known =>
          simp only [recalls_iff_of_known hknown]
          obtain rfl := hm s A known hknown
          refine ⟨⟨memory, rfl, rfl⟩, ?_⟩
          rintro trees memory' ⟨rfl, rfl⟩
          exact ⟨rfl, hm⟩
      | none =>
          cases hentry : c.entryAt? s A with
          | none =>
              simp only [recalls_iff_atOnce hknown hentry]
              refine ⟨⟨_, (atOnce_iff hentry).mpr rfl, rfl⟩, ?_⟩
              rintro trees _ ⟨h, rfl⟩
              obtain rfl := (atOnce_iff hentry).mp h
              exact ⟨rfl, sound_insert hm s A⟩
          | some entry =>
              simp only [recalls_iff_recallsSplits hknown hentry]
              have hparts : ∀ split ∈ entry.splits,
                  c.EndsPlainly split.left split.leftSymbol ∧
                    c.EndsPlainly split.right split.rightSymbol := by
                intro split hsplit
                have hparts := parts_of_mem_splits hc hentry hsplit
                obtain ⟨hleft, hright⟩ := hparts.shortens
                exact ⟨ih split.left.len (by omega) split.left _ rfl,
                  ih split.right.len (by omega) split.right _ rfl⟩
              obtain ⟨⟨memory', hends⟩, honly⟩ :=
                recallsSplits_spec (c.grammar.name A) hparts hm
              rw [← treesAt_of_entryAt? hc hentry] at hends honly
              refine ⟨⟨_, memory', hends, rfl⟩, ?_⟩
              rintro trees _ ⟨memory'', h, rfl⟩
              obtain ⟨rfl, hm'⟩ := honly trees memory'' h
              exact ⟨rfl, sound_insert hm' s A⟩

/-! ## Queries -/

/-- The span and the symbol that a query asks for. -/
def target (c : Chart) : Forest.Query → Span × Symbol
  | .collect s A => (s, A)
  | .trees => (c.root, c.grammar.start)

/-- The trees of plain recursion for a query. -/
def treesFor (c : Chart) (query : Forest.Query) : List Tree :=
  c.treesAt (c.target query).1 (c.target query).2

/-- Plain recursion ends with these trees for a query. -/
def ListsFor (c : Chart) (query : Forest.Query) : List Tree → Prop :=
  c.Lists (c.target query).1 (c.target query).2

/-- Queries are answered one after another, each with the memory that the one before leaves. -/
inductive AnswersAll
    (c : Chart) :
    Memory → List Forest.Query → List (List Tree) → Memory → Prop
  | nil
      {memory : Memory} :
      AnswersAll c memory [] [] memory
  | cons
      {memory memory' memory'' : Memory} {query : Forest.Query} {queries : List Forest.Query}
      {trees : List Tree} {answers : List (List Tree)}
      (hfirst : c.Recalls memory (c.target query).1 (c.target query).2 trees memory')
      (hrest : AnswersAll c memory' queries answers memory'') :
      AnswersAll c memory (query :: queries) (trees :: answers) memory''

end Chart

/-- The end of the span of a query is a word. -/
def Forest.Query.Fits : Forest.Query → Prop
  | .collect s _ => s.start + s.len < Span.wordSize
  | .trees => True

instance (query : Forest.Query) : Decidable query.Fits :=
  match query with
  | .collect s _ => inferInstanceAs (Decidable (s.start + s.len < Span.wordSize))
  | .trees => inferInstanceAs (Decidable True)

namespace Chart

variable {c : Chart} {memory : Memory} {query : Forest.Query} {queries : List Forest.Query}

theorem plainAnswer_eq_ok
    (hquery : query.Fits) :
    c.plainAnswer query = .ok (c.treesFor query) := by
  cases query with
  | collect s A =>
      rw [plainAnswer, cell_eq_ok hquery]
      rfl
  | trees => rfl

/-- Answering queries one after another ends, and only with the answers of plain recursion. -/
theorem answersAll_spec
    (hc : c.Complete)
    (queries : List Forest.Query)
    (hm : memory.Sound c) :
    (∃ memory', c.AnswersAll memory queries (queries.map c.treesFor) memory') ∧
      ∀ answers memory', c.AnswersAll memory queries answers memory' →
        answers = queries.map c.treesFor ∧ memory'.Sound c := by
  induction queries generalizing memory with
  | nil =>
      refine ⟨⟨memory, .nil⟩, ?_⟩
      intro answers memory' h
      cases h
      exact ⟨rfl, hm⟩
  | cons query queries ih =>
      obtain ⟨⟨memory₁, hfirst⟩, honly⟩ := endsPlainly hc _ (c.target query).2 memory hm
      constructor
      · obtain ⟨⟨memory', hrest⟩, _⟩ := ih (honly _ _ hfirst).2
        exact ⟨memory', .cons hfirst hrest⟩
      · intro answers memory' h
        cases h with
        | cons hfirst hrest =>
            obtain ⟨rfl, hm₁⟩ := honly _ _ hfirst
            obtain ⟨rfl, hm'⟩ := (ih hm₁).2 _ _ hrest
            exact ⟨rfl, hm'⟩

end Chart

/-- Each answer of a forest is the one list of trees with which plain recursion ends, whatever was
asked before.  The recursion that hands a memory through all queries ends too, and with the same
answers. -/
theorem answers_are_plain_recursion
    {c filled : Chart} {tokens : List String} {n : Nat}
    (hfill : c.fill tokens = (.ok n, filled)) :
    ∃ f, Forest.ofChart filled = .ok f ∧
      ∀ queries : List Forest.Query, (∀ query ∈ queries, query.Fits) →
        ∃ answers, (f.answerAll queries).1 = answers.map .ok ∧
          List.Forall₂
            (fun query answer => ∀ trees, filled.ListsFor query trees ↔ trees = answer)
            queries answers ∧
          (∃ memory, filled.AnswersAll ∅ queries answers memory) ∧
          ∀ answers' memory, filled.AnswersAll ∅ queries answers' memory → answers' = answers := by
  have hfilled := Chart.Filled.of_fill hfill
  obtain ⟨f, hf, rfl, hsound⟩ := Forest.exists_ofChart hfilled
  refine ⟨f, hf, ?_⟩
  intro queries hqueries
  obtain ⟨hends, honly⟩ :=
    Chart.answersAll_spec hfilled.complete queries (Chart.sound_empty f.chart)
  refine ⟨queries.map f.chart.treesFor, ?_, ?_, hends, fun _ memory h => (honly _ memory h).1⟩
  · rw [(Forest.answerAll_spec hsound queries).1, List.map_map]
    exact List.map_congr_left fun query hquery => Chart.plainAnswer_eq_ok (hqueries query hquery)
  · rw [List.forall₂_map_right_iff, List.forall₂_same]
    exact fun query _ trees => Chart.lists_iff hfilled.complete

/-- After the trees of three words, the last two have the one tree that plain recursion lists, and
those from the third on, four words long, have none. -/
theorem answers_are_plain_binaryTrees :
    ((Chart.empty binaryTreeGrammar).fill ["a", "a", "a"]).1 = .ok 2 ∧
      (∀ query ∈ [.trees, .collect ⟨1, 2⟩ ⟨0⟩, .collect ⟨2, 4⟩ ⟨0⟩],
        Forest.Query.Fits query) ∧
      ∃ f trees, Forest.ofChart ((Chart.empty binaryTreeGrammar).fill ["a", "a", "a"]).2 = .ok f ∧
        (f.answerAll [.trees, .collect ⟨1, 2⟩ ⟨0⟩, .collect ⟨2, 4⟩ ⟨0⟩]).1 =
          [.ok trees, .ok [.node "S" (.leaf "S" "a") (.leaf "S" "a")], .ok []] := by
  have hn : ((Chart.empty binaryTreeGrammar).fill ["a", "a", "a"]).1 = .ok 2 := by
    decide +kernel
  have hfits : ∀ query ∈ [.trees, .collect ⟨1, 2⟩ ⟨0⟩, .collect ⟨2, 4⟩ ⟨0⟩],
      Forest.Query.Fits query := by
    decide
  have hfill : (Chart.empty binaryTreeGrammar).fill ["a", "a", "a"] =
      (.ok 2, ((Chart.empty binaryTreeGrammar).fill ["a", "a", "a"]).2) :=
    Prod.ext hn rfl
  obtain ⟨f, hf, hanswers⟩ := answers_are_plain_recursion hfill
  obtain ⟨answers, hanswer, hplain, _⟩ := hanswers _ hfits
  simp only [List.forall₂_cons_left_iff, List.forall₂_nil_left_iff] at hplain
  obtain ⟨trees, _, _, ⟨middle, _, hmiddle, ⟨beyond, _, hbeyond, rfl, rfl⟩, rfl⟩, rfl⟩ := hplain
  refine ⟨hn, hfits, f, trees, hf, ?_⟩
  have hentry : ((Chart.empty binaryTreeGrammar).fill ["a", "a", "a"]).2.entryAt? ⟨1, 2⟩ ⟨0⟩ =
      some ⟨1, [⟨⟨1, 1⟩, ⟨0⟩, ⟨2, 1⟩, ⟨0⟩⟩]⟩ := by
    decide +kernel
  have hfirst : ((Chart.empty binaryTreeGrammar).fill ["a", "a", "a"]).2.cell? ⟨1, 1⟩ =
      some (.leaf "a" [⟨0⟩]) := by
    decide +kernel
  have hsecond : ((Chart.empty binaryTreeGrammar).fill ["a", "a", "a"]).2.cell? ⟨2, 1⟩ =
      some (.leaf "a" [⟨0⟩]) := by
    decide +kernel
  have hlisted := (hmiddle _).mp
    (.entry hentry
      (.cons
        (.atOnce (.leaf hfirst (List.mem_singleton_self _)))
        (.atOnce (.leaf hsecond (List.mem_singleton_self _)))
        .nil))
  have hnothing := (hbeyond []).mp (.atOnce (.missing (by decide +kernel)))
  rw [hanswer, ← hlisted, ← hnothing]
  rfl

end ChartParsing
