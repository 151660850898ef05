import ChartParsing.Proofs.PrintedGrammar
import ChartParsing.Proofs.RegisteredGrammar
import ChartParsing.Proofs.RenamedGrammar
import ChartParsing.Proofs.SourceFormat
import ChartParsing.Proofs.WrittenTokens
import Mathlib

/-!
# Loading a grammar that was built

A grammar that was built from declarations may hold names and words that no grammar text holds,
and symbols that no rule uses.  If its rules can be written and its start symbol occurs in them,
then its text is read as the same rules by names.  The order of the symbols may be another one, and
symbols without rules are gone.

**Results.** `Grammar.loads_as_built`: the text is loaded, and charts over the loaded grammar agree
with those over the grammar that was built.
-/

namespace ChartParsing

/-- A rule is written under the names of its symbols. -/
theorem Rule.symbols_production
    (names : List String)
    (rule : Rule) :
    (rule.production names).symbols = rule.symbolList.map fun A => names.getD A.index "" := by
  cases rule <;> rfl

theorem Rule.normal_production
    (names : List String)
    (rule : Rule) :
    (rule.production names).Normal := by
  cases rule with
  | binary r => exact ⟨.pair _ _, rfl⟩
  | lexical head word => exact ⟨.word word, rfl⟩

namespace Grammar

variable {g : Grammar}

/-- The rules of a grammar are written each once. -/
theorem WellFormed.nodup_written
    (hg : g.WellFormed) :
    g.written.Nodup := by
  refine hg.nodup_rules.map_on ?_
  intro rule hrule rule' hrule' heq
  exact Rule.production_injective hg.nodup_symbols (hg.below rule hrule) (hg.below rule' hrule') heq

theorem mem_symbols_written
    {rule : Rule} {A : Symbol}
    (hrule : rule ∈ g.rules)
    (hA : A ∈ rule.symbolList) :
    g.name A ∈ g.written.flatMap Production.symbols := by
  refine List.mem_flatMap.mpr ⟨_, List.mem_map_of_mem hrule, ?_⟩
  rw [Rule.symbols_production]
  exact List.mem_map_of_mem hA

/-- The written rules of a grammar describe one that differs in its symbols only. -/
theorem WellFormed.exists_sameByName
    (hg : g.WellFormed)
    (hstart : ∃ rule ∈ g.rules, g.start ∈ rule.symbolList) :
    ∃ g', ofDeclarations (g.written.flatMap Production.declarations) (g.name g.start) = .ok g' ∧
      g.SameByName g' := by
  obtain ⟨rule, hrule, hmem⟩ := hstart
  have hnormal : ∀ p ∈ g.written, p.Normal :=
    List.forall_mem_map.mpr fun rule _ => rule.normal_production g.symbols
  obtain ⟨g', hg'⟩ :=
    Production.exists_ofDeclarations hnormal (mem_symbols_written hrule hmem)
  obtain ⟨_, _, hlists⟩ := Production.ofDeclarations_eq_ok_iff.mp hg'
  refine ⟨g', hg', hg, hlists.wellFormed, ?_, (name_of_symbol? hlists.start_eq).2⟩
  rw [hlists.written_eq, eraseDups_of_nodup hg.nodup_written]

theorem readable_written
    (hwords : ∀ A word, .lexical A word ∈ g.rules → ReadableWord word) :
    ∀ p ∈ g.written, p.Readable := by
  intro p hp word hword
  obtain ⟨rule, hrule, rfl⟩ := List.mem_map.mp hp
  cases rule with
  | binary r => cases hword
  | lexical A other =>
      cases hword
      exact hwords A _ hrule

/-- A grammar that was built is written out and loaded with the same rules by names, if its words
and the names in its rules can be read again and its start symbol occurs in a rule.  Charts over
both grammars agree on every sentence with a word. -/
theorem loads_as_built
    {declarations : List Declaration} {start : String}
    (hbuilt : (Draft.empty.addAll declarations).toGrammar start = .ok g)
    (hnames : ∀ rule ∈ g.rules, ∀ A ∈ rule.symbolList, Writable (g.name A))
    (hstart : ∃ rule ∈ g.rules, g.start ∈ rule.symbolList)
    (hwords : ∀ A word, .lexical A word ∈ g.rules →
      '\\' ∈ word.toList → '\'' ∈ word.toList ∧ '"' ∈ word.toList) :
    ∃ g', ofText g.text.toList = .ok g' ∧
      g'.name g'.start = g.name g.start ∧
      g'.written = g.written ∧
      ∀ c c' : Chart, c.grammar = g → c'.grammar = g' →
        ∀ tokens : List String, tokens ≠ [] → c.Agree c' tokens := by
  rw [Draft.toGrammar_addAll] at hbuilt
  have hg := WellFormed.of_ofDeclarations hbuilt
  have hnamed : ∀ p ∈ g.written, p.Named :=
    List.forall_mem_map.mpr fun rule hrule =>
      Rule.named_of_isName fun A hA => (hnames rule hrule A hA).isName
  have hstartname : Token.IsName (g.name g.start) := by
    obtain ⟨rule, hrule, hmem⟩ := hstart
    exact (hnames rule hrule g.start hmem).isName
  obtain ⟨g', hg', hsame⟩ := hg.exists_sameByName hstart
  refine ⟨g', ?_, hsame.name_start_eq, hsame.written_eq, ?_⟩
  · rw [ofText_text hstartname hnamed (readable_written hwords)]
    exact hg'
  · intro c c' hc hc' tokens hne
    exact hsame.agree hc hc' hne

/-- A symbol that no text can name and no rule uses, and one that is named like an arrow the wrong
way round. -/
def arrowDeclarations : List Declaration :=
  [⟨.nonterminal "un used", .refused⟩, ⟨.nonterminal ">-", .refused⟩,
    ⟨.nonterminal "S", .refused⟩, ⟨.production "S" [">-", "S"], .refused⟩,
    ⟨.lexical ">-" "it's", .refused⟩, ⟨.lexical "S" "", .refused⟩]

/-- The grammar of `arrowDeclarations`. -/
def arrowGrammar : Grammar :=
  ofRules ["un used", ">-", "S"] ⟨2⟩
    [.binary ⟨⟨2⟩, ⟨1⟩, ⟨2⟩⟩, .lexical ⟨1⟩ "it's", .lexical ⟨2⟩ ""]

/-- Loaded, the grammar has its symbols in the order of its rules. -/
theorem loads_as_built_arrowGrammar :
    (Draft.empty.addAll arrowDeclarations).toGrammar "S" = .ok arrowGrammar ∧
      ∃ g', ofText arrowGrammar.text.toList = .ok g' ∧ g'.symbols = ["S", ">-"] ∧
        g'.written = arrowGrammar.written ∧
        (Chart.empty arrowGrammar).Agree (Chart.empty g') ["it's", ""] := by
  have hbuilt : (Draft.empty.addAll arrowDeclarations).toGrammar "S" = .ok arrowGrammar := by
    decide
  have hnames : ∀ rule ∈ arrowGrammar.rules, ∀ A ∈ rule.symbolList,
      Writable (arrowGrammar.name A) := by
    decide +kernel
  have hstart : ∃ rule ∈ arrowGrammar.rules, arrowGrammar.start ∈ rule.symbolList := by
    decide
  have hwords : ∀ A word, .lexical A word ∈ arrowGrammar.rules →
      '\\' ∈ word.toList → '\'' ∈ word.toList ∧ '"' ∈ word.toList := by
    intro A word hrule
    simp only [arrowGrammar, ofRules, List.mem_cons, List.not_mem_nil, or_false, reduceCtorEq,
      false_or, Rule.lexical.injEq] at hrule
    rcases hrule with ⟨_, rfl⟩ | ⟨_, rfl⟩ <;> decide
  obtain ⟨g', hload, _, hwritten, hagree⟩ := loads_as_built hbuilt hnames hstart hwords
  have hread : ofText arrowGrammar.text.toList = .ok (ofRules ["S", ">-"] ⟨0⟩
      [.binary ⟨⟨0⟩, ⟨1⟩, ⟨0⟩⟩, .lexical ⟨1⟩ "it's", .lexical ⟨0⟩ ""]) := by
    cbv
  obtain rfl := Except.ok.inj (hload.symm.trans hread)
  exact ⟨hbuilt, _, hload, rfl, hwritten, hagree _ _ rfl rfl _ (List.cons_ne_nil _ _)⟩

end Grammar
end ChartParsing
