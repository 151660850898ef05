import ChartParsing.Proofs.IncludedGrammar

/-!
# Grammars that differ in their symbols only

Symbols are places in an order of declaration.  Two grammars may declare their names in different
orders, and one of them may declare names that no rule uses, and yet have the same rules by the
names of their symbols.  Trees hold names, so both grammars derive the same trees.

**Relation.** `Grammar.SameByName` holds of two grammars whose rules are written in the same way
and whose start symbols have one name.  Then the rules of each are included in those of the other
(`Grammar.SameByName.included`), and so are its derivations.

**Results.**
* `Grammar.SameByName.derivations_eq`: both grammars derive the same trees of a sentence.
* `Grammar.SameByName.agree`: their charts count them alike and list the same trees.
-/

namespace ChartParsing

/-- Two grammars have the same rules by names, in the same order, and start symbols of one
name. -/
structure Grammar.SameByName (g g' : Grammar) : Prop where
  wellFormed : g.WellFormed
  wellFormed' : g'.WellFormed
  written_eq : g'.written = g.written
  name_start_eq : g'.name g'.start = g.name g.start

/-- Two charts count equally many derivations of a sentence, and their forests list the same
trees, in some order. -/
def Chart.Agree (c c' : Chart) (tokens : List String) : Prop :=
  ∃ n filled filled' f f',
    c.fill tokens = (.ok n, filled) ∧
    c'.fill tokens = (.ok n, filled') ∧
    Forest.ofChart filled = .ok f ∧
    Forest.ofChart filled' = .ok f' ∧
    f.trees.1.Perm f'.trees.1

namespace Grammar.SameByName

variable {g g' : Grammar}

theorem symm
    (h : g.SameByName g') :
    g'.SameByName g where
  wellFormed := h.wellFormed'
  wellFormed' := h.wellFormed
  written_eq := h.written_eq.symm
  name_start_eq := h.name_start_eq.symm

theorem included
    (h : g.SameByName g') :
    g.IncludedByName g' where
  wellFormed := h.wellFormed
  wellFormed' := h.wellFormed'
  written_subset := h.written_eq ▸ List.Subset.refl _
  name_start_eq := h.name_start_eq

/-- Both grammars derive the same trees of a sentence. -/
theorem derivations_eq
    (h : g.SameByName g')
    (words : List String) :
    g.derivations g.start words = g'.derivations g'.start words :=
  Set.Subset.antisymm (h.included.derivations_subset words)
    (h.symm.included.derivations_subset words)

/-- Charts over both grammars agree on every sentence with a word. -/
theorem agree
    (h : g.SameByName g')
    {c c' : Chart} {tokens : List String}
    (hc : c.grammar = g)
    (hc' : c'.grammar = g')
    (hne : tokens ≠ []) :
    c.Agree c' tokens := by
  obtain rfl := hc
  obtain rfl := hc'
  obtain ⟨n, n', _, _, ⟨filled, f, hfill, hf, rfl⟩, ⟨filled', f', hfill', hf', rfl⟩, _, _, hsame⟩ :=
    h.included.exists_parses hne
  obtain ⟨rfl, hperm⟩ := hsame h.symm.included
  exact ⟨n, filled, filled', f, f', hfill, hfill', hf, hf', hperm⟩

end Grammar.SameByName
end ChartParsing
