import ChartParsing.Proofs.BatchRuns
import ChartParsing.Proofs.FirstRefusal
import ChartParsing.Proofs.RegisteredGrammar

/-!
# Grammars with more rules

Symbols are places in an order of declaration, so that two grammars can be compared only by the
names of their symbols.  A grammar whose rules are written among those of another may declare its
names in a different order, and other names besides.  Trees hold names, and so a derivation of the
first grammar is a derivation of the second.

**Relation.** `Grammar.IncludedByName` holds of two grammars if each rule of the first is written
like a rule of the second, and their start symbols have one name.  A derivation of the first is one
of the second, from the symbol that has the same name there (`Derives.of_includedByName`, by
induction on the derivation).

**Results.**
* `Chart.exists_parses`: what a chart reports of a sentence are the derivations of its grammar.
* `Grammar.more_rules_keep_parses`: with more rules, a sentence keeps its trees; with the same
  rules in another order, it has the same trees in another order.
-/

namespace ChartParsing

/-- What a chart reports of a sentence: how many derivations it counts, and which trees its forest
lists. -/
def Chart.Parses
    (c : Chart)
    (tokens : List String)
    (n : Nat)
    (trees : List Tree) : Prop :=
  ∃ filled f, c.fill tokens = (.ok n, filled) ∧ Forest.ofChart filled = .ok f ∧ f.trees.1 = trees

theorem Chart.Parses.fill_fst
    {c : Chart} {tokens : List String} {n : Nat} {trees : List Tree}
    (h : c.Parses tokens n trees) :
    (c.fill tokens).1 = .ok n := by
  obtain ⟨filled, f, hfill, -, -⟩ := h
  rw [hfill]

/-- A chart reports the derivations of a sentence with a word. -/
theorem Chart.exists_parses
    {c : Chart} {tokens : List String}
    (hg : c.grammar.WellFormed)
    (hne : tokens ≠ []) :
    ∃ n trees, c.Parses tokens n trees ∧ trees.Nodup ∧ trees.length = n ∧
      ∀ t, t ∈ trees ↔ t ∈ c.grammar.derivations c.grammar.start tokens := by
  obtain ⟨n, filled, hfill⟩ := c.exists_fill hne
  obtain ⟨f, hf, hspec⟩ := (Chart.Filled.of_fill hfill).trees_spec hg
  exact ⟨n, f.trees.1, ⟨filled, f, hfill, hf, rfl⟩, hspec⟩

namespace Grammar

/-- Every rule of a grammar is by names a rule of another, and the start symbols have one name. -/
structure IncludedByName (g g' : Grammar) : Prop where
  wellFormed : g.WellFormed
  wellFormed' : g'.WellFormed
  written_subset : g.written ⊆ g'.written
  name_start_eq : g'.name g'.start = g.name g.start

namespace IncludedByName

variable {g g' : Grammar} {A A' B C : Symbol}

/-- Every rule has one in the other grammar that is written in the same way. -/
theorem exists_rule
    (h : g.IncludedByName g')
    {rule : Rule}
    (hrule : rule ∈ g.rules) :
    ∃ rule' ∈ g'.rules, rule'.production g'.symbols = rule.production g.symbols :=
  List.mem_map.mp (h.written_subset (List.mem_map_of_mem hrule))

theorem lexical_mem
    (h : g.IncludedByName g')
    {word : String}
    (hrule : .lexical A word ∈ g.rules)
    (hA' : A'.index < g'.symbols.length)
    (hname : g'.name A' = g.name A) :
    .lexical A' word ∈ g'.rules := by
  obtain ⟨rule', hrule', hwritten⟩ := h.exists_rule hrule
  obtain ⟨hhead, hbody⟩ := (Production.mk.injEq ..).mp hwritten
  have hbelow := h.wellFormed'.below rule' hrule'
  cases rule' with
  | binary r => cases hbody
  | lexical A₁ word₁ =>
      cases hbody
      obtain rfl : A₁ = A' := h.wellFormed'.name_injective hbelow hA' (hhead.trans hname.symm)
      exact hrule'

theorem exists_binary_mem
    (h : g.IncludedByName g')
    (hrule : .binary ⟨A, B, C⟩ ∈ g.rules)
    (hA' : A'.index < g'.symbols.length)
    (hname : g'.name A' = g.name A) :
    ∃ B' C', .binary ⟨A', B', C'⟩ ∈ g'.rules ∧
      (B'.index < g'.symbols.length ∧ g'.name B' = g.name B) ∧
      (C'.index < g'.symbols.length ∧ g'.name C' = g.name C) := by
  obtain ⟨rule', hrule', hwritten⟩ := h.exists_rule hrule
  obtain ⟨hhead, hbody⟩ := (Production.mk.injEq ..).mp hwritten
  have hbelow := h.wellFormed'.below rule' hrule'
  cases rule' with
  | lexical A₁ word => cases hbody
  | binary r =>
      obtain ⟨A₁, B', C'⟩ := r
      obtain ⟨hA₁, hB', hC'⟩ := hbelow
      obtain rfl : A₁ = A' := h.wellFormed'.name_injective hA₁ hA' (hhead.trans hname.symm)
      simp only [Rule.body, Body.names.injEq, List.cons.injEq, and_true] at hbody
      exact ⟨B', C', hrule', ⟨hB', hbody.1⟩, ⟨hC', hbody.2⟩⟩

end IncludedByName
end Grammar

/-- What a symbol derives, the symbol of its name derives with more rules. -/
theorem Derives.of_includedByName
    {g g' : Grammar} {A A' : Symbol} {t : Tree}
    (ht : Derives g A t)
    (h : g.IncludedByName g')
    (hA' : A'.index < g'.symbols.length)
    (hname : g'.name A' = g.name A) :
    Derives g' A' t := by
  induction ht generalizing A' with
  | lexical hrule =>
      rw [← hname]
      exact .lexical (h.lexical_mem hrule hA' hname)
  | binary hrule _ _ ihleft ihright =>
      obtain ⟨B', C', hrule', ⟨hB', hleft⟩, ⟨hC', hright⟩⟩ :=
        h.exists_binary_mem hrule hA' hname
      rw [← hname]
      exact .binary hrule' (ihleft hB' hleft) (ihright hC' hright)

namespace Grammar

variable {g g' : Grammar} {c c' : Chart} {tokens : List String}

theorem IncludedByName.derivations_subset
    (h : g.IncludedByName g')
    (words : List String) :
    g.derivations g.start words ⊆ g'.derivations g'.start words := by
  rintro t ⟨ht, hwords⟩
  exact ⟨ht.of_includedByName h h.wellFormed'.start_lt h.name_start_eq, hwords⟩

/-- A chart over the grammar with more rules reports at least what the other chart reports, and the
same up to the order of the trees if the rules are the same. -/
theorem IncludedByName.exists_parses
    (h : c.grammar.IncludedByName c'.grammar)
    (hne : tokens ≠ []) :
    ∃ n n' trees trees', c.Parses tokens n trees ∧ c'.Parses tokens n' trees' ∧
      n ≤ n' ∧ trees ⊆ trees' ∧
      (c'.grammar.IncludedByName c.grammar → n = n' ∧ trees.Perm trees') := by
  obtain ⟨n, trees, hparses, hnodup, hlength, hmem⟩ := c.exists_parses h.wellFormed hne
  obtain ⟨n', trees', hparses', hnodup', hlength', hmem'⟩ := c'.exists_parses h.wellFormed' hne
  have hsubset : trees ⊆ trees' := by
    intro t ht
    exact (hmem' t).mpr (h.derivations_subset tokens ((hmem t).mp ht))
  have hle : n ≤ n' := by
    rw [← hlength, ← hlength']
    exact (hnodup.subperm hsubset).length_le
  refine ⟨n, n', trees, trees', hparses, hparses', hle, hsubset, fun h' => ?_⟩
  have hperm : trees.Perm trees' := by
    refine (List.perm_ext_iff_of_nodup hnodup hnodup').mpr fun t => ⟨fun ht => hsubset ht, ?_⟩
    intro ht
    exact (hmem t).mpr (h'.derivations_subset tokens ((hmem' t).mp ht))
  exact ⟨by rw [← hlength, ← hlength', hperm.length_eq], hperm⟩

/-- Two grammars were built with start symbols of one name, and the rules of the first are by names
among those of the second.  Then a chart over the second counts at least as many derivations of
every sentence with a word, and its forest lists every tree again.  If the rules are the same by
names, the counts are equal and the trees are the same up to their order. -/
theorem more_rules_keep_parses
    {declarations declarations' : List Declaration} {start : String}
    (hg : (Draft.empty.addAll declarations).toGrammar start = .ok c.grammar)
    (hg' : (Draft.empty.addAll declarations').toGrammar start = .ok c'.grammar)
    (hrules : c.grammar.written ⊆ c'.grammar.written)
    (hne : tokens ≠ []) :
    ∃ n n' trees trees', c.Parses tokens n trees ∧ c'.Parses tokens n' trees' ∧
      n ≤ n' ∧ trees ⊆ trees' ∧
      (c'.grammar.written ⊆ c.grammar.written → n = n' ∧ trees.Perm trees') := by
  rw [Draft.toGrammar_addAll] at hg hg'
  have hname := (name_of_symbol? (lists_of_ofDeclarations hg).start_eq).2
  have hname' := (name_of_symbol? (lists_of_ofDeclarations hg').start_eq).2
  have hincluded : c.grammar.IncludedByName c'.grammar :=
    ⟨.of_ofDeclarations hg, .of_ofDeclarations hg', hrules, hname'.trans hname.symm⟩
  obtain ⟨n, n', trees, trees', hparses, hparses', hle, hsubset, hsame⟩ :=
    hincluded.exists_parses hne
  refine ⟨n, n', trees, trees', hparses, hparses', hle, hsubset, fun hrules' => hsame ?_⟩
  exact ⟨hincluded.wellFormed', hincluded.wellFormed, hrules', hincluded.name_start_eq.symm⟩

/-- The binary trees over one word, some of whose leaves may be adjuncts. -/
def adjunctGrammar : Grammar :=
  ofRules ["unused", "T", "S"] ⟨2⟩
    [.lexical ⟨2⟩ "a", .binary ⟨⟨2⟩, ⟨2⟩, ⟨2⟩⟩, .binary ⟨⟨2⟩, ⟨2⟩, ⟨1⟩⟩, .lexical ⟨1⟩ "a"]

/-- The declarations of `adjunctGrammar`. -/
def adjunctDeclarations : List Declaration :=
  [⟨.nonterminal "unused", .refused⟩, ⟨.nonterminal "T", .refused⟩, ⟨.nonterminal "S", .refused⟩,
    ⟨.lexical "S" "a", .refused⟩, ⟨.production "S" ["S", "S"], .refused⟩,
    ⟨.production "S" ["S", "T"], .refused⟩, ⟨.lexical "T" "a", .refused⟩]

/-- The rules of `adjunctGrammar` from the last to the first. -/
def turnedGrammar : Grammar :=
  ofRules ["S", "T"] ⟨0⟩
    [.lexical ⟨1⟩ "a", .binary ⟨⟨0⟩, ⟨0⟩, ⟨1⟩⟩, .binary ⟨⟨0⟩, ⟨0⟩, ⟨0⟩⟩, .lexical ⟨0⟩ "a"]

/-- The declarations of `turnedGrammar`. -/
def turnedDeclarations : List Declaration :=
  [⟨.nonterminal "S", .refused⟩, ⟨.nonterminal "T", .refused⟩, ⟨.lexical "T" "a", .refused⟩,
    ⟨.production "S" ["S", "T"], .refused⟩, ⟨.production "S" ["S", "S"], .refused⟩,
    ⟨.lexical "S" "a", .refused⟩]

/-- Two words have one binary tree, and one more with an adjunct; to turn the rules round only
changes the order of both. -/
theorem more_rules_keep_parses_adjuncts :
    (binaryTreeGrammar.written ⊆ adjunctGrammar.written ∧
      ∃ trees trees', (Chart.empty binaryTreeGrammar).Parses ["a", "a"] 1 trees ∧
        (Chart.empty adjunctGrammar).Parses ["a", "a"] 2 trees' ∧ trees ⊆ trees') ∧
    (adjunctGrammar.written ⊆ turnedGrammar.written ∧
      turnedGrammar.written ⊆ adjunctGrammar.written ∧
      ∃ trees trees', (Chart.empty adjunctGrammar).Parses ["a", "a"] 2 trees ∧
        (Chart.empty turnedGrammar).Parses ["a", "a"] 2 trees' ∧ trees.Perm trees') := by
  have hbinary : (Draft.empty.addAll binaryTreeDeclarations).toGrammar "S" =
      .ok (Chart.empty binaryTreeGrammar).grammar := by
    decide
  have hadjunct : (Draft.empty.addAll adjunctDeclarations).toGrammar "S" =
      .ok (Chart.empty adjunctGrammar).grammar := by
    decide
  have hturned : (Draft.empty.addAll turnedDeclarations).toGrammar "S" =
      .ok (Chart.empty turnedGrammar).grammar := by
    decide
  have hone : ((Chart.empty binaryTreeGrammar).fill ["a", "a"]).1 = .ok 1 := by
    decide +kernel
  have htwo : ((Chart.empty adjunctGrammar).fill ["a", "a"]).1 = .ok 2 := by
    decide +kernel
  have hmore : binaryTreeGrammar.written ⊆ adjunctGrammar.written := by
    decide
  have hsame : adjunctGrammar.written ⊆ turnedGrammar.written := by
    decide
  have hsame' : turnedGrammar.written ⊆ adjunctGrammar.written := by
    decide
  have hne : ["a", "a"] ≠ ([] : List String) := List.cons_ne_nil _ _
  refine ⟨⟨hmore, ?_⟩, hsame, hsame', ?_⟩
  · obtain ⟨n, n', trees, trees', hparses, hparses', -, hsubset, -⟩ :=
      more_rules_keep_parses hbinary hadjunct hmore hne
    cases hparses.fill_fst.symm.trans hone
    cases hparses'.fill_fst.symm.trans htwo
    exact ⟨trees, trees', hparses, hparses', hsubset⟩
  · obtain ⟨n, n', trees, trees', hparses, hparses', -, -, hequal⟩ :=
      more_rules_keep_parses hadjunct hturned hsame hne
    cases hparses.fill_fst.symm.trans htwo
    obtain ⟨rfl, hperm⟩ := hequal hsame'
    exact ⟨trees, trees', hparses, hparses', hperm⟩

end Grammar
end ChartParsing
