import ChartParsing.Grammar.Basic
import ChartParsing.Tree

/-!
# Derivations

A parse tree is a derivation of a grammar when each of its leaves is a lexical rule and each
of its nodes a binary rule over the symbols of its two subtrees.  This is what the counts of
a chart count and what a forest lists, said without a chart.

**Results.** A derivation from a symbol has the name of that symbol at its root
(`Derives.symbol_eq`) and at least one word at its leaves (`Derives.words_ne_nil`).
-/

namespace ChartParsing

/-- A tree is built from a symbol by the rules of a grammar. -/
inductive Derives
    (g : Grammar) :
    Symbol → Tree → Prop
  | lexical
      {A : Symbol} {word : String}
      (hrule : .lexical A word ∈ g.rules) :
      Derives g A (.leaf (g.name A) word)
  | binary
      {A B C : Symbol} {left right : Tree}
      (hrule : .binary ⟨A, B, C⟩ ∈ g.rules)
      (hleft : Derives g B left)
      (hright : Derives g C right) :
      Derives g A (.node (g.name A) left right)

namespace Derives

variable {g : Grammar} {A : Symbol} {t : Tree}

theorem symbol_eq
    (h : Derives g A t) :
    t.symbol = g.name A := by
  cases h <;> rfl

theorem words_ne_nil
    (h : Derives g A t) :
    t.words ≠ [] := by
  induction h with
  | lexical _ =>
      simp [Tree.words]
  | binary _ _ _ ihleft _ =>
      intro hnil
      exact ihleft (List.append_eq_nil_iff.mp hnil).1

end Derives
end ChartParsing
