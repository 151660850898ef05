import ChartParsing.Grammar.Draft
import ChartParsing.Proofs.BuiltGrammar

/-!
# Drafts and builders

A draft goes on where a builder stops, and yet they describe the same grammar or report the same
error.  As long as nothing was refused, both hold the same symbols and rules; from the first
refusal on, a draft keeps it, and the symbols and rules that it gathers do not matter any more.

**Invariant.** `Draft.Agrees` relates a draft to what a builder has come to.  It is kept by each
declaration (`Draft.agrees_add`), and so by all of them (`Draft.agrees_addAll`).

**Results.** `Draft.toGrammar_addAll`: a draft of declarations has the grammar that they
describe.
-/

namespace ChartParsing

/-- A name is looked up with success, or it is missing. -/
theorem Builder.resolve_cases
    (b : Builder)
    (name : String) :
    (∃ A : Symbol, name ∈ b.symbols ∧ b.symbols.idxOf? name = some A.index ∧
        b.resolve name = .ok A) ∨
      (name ∉ b.symbols ∧ b.symbols.idxOf? name = none ∧
        b.resolve name = .error (.missingSymbol name)) := by
  unfold resolve
  cases h : b.symbols.idxOf? name with
  | none => exact Or.inr ⟨List.idxOf?_eq_none_iff.mp h, rfl, rfl⟩
  | some index =>
      refine Or.inl ⟨⟨index⟩, ?_, rfl, rfl⟩
      obtain ⟨hlt, hget, _⟩ := List.idxOf?_eq_some_iff.mp h
      rw [← hget]
      exact List.getElem_mem hlt

/-- A rule whose body is not two names is refused as it is. -/
theorem Builder.add_of_length_ne
    (b : Builder)
    {head : String} {body : List String}
    (hbody : body.length ≠ 2)
    (repeats : Repeats) :
    b.add ⟨.production head body, repeats⟩ = .error (.notNormalForm head body) := by
  unfold add
  split <;> simp_all

namespace Draft

variable {d : Draft} {b : Builder} {e : GrammarError}

/-- What a draft must hold where a builder has come to a result: the same symbols and rules
without a refusal, or the refusal that stopped the builder. -/
def Agrees (d : Draft) : Except GrammarError Builder → Prop
  | .ok b => d = ⟨b, none⟩
  | .error e => d.refusal? = some e

theorem refusal?_refuse
    (h : d.refusal? = some e)
    (other : GrammarError) :
    (d.refuse other).refusal? = some e := by
  simp [refuse, h]

theorem refusal?_lookup
    (h : d.refusal? = some e)
    (name : String) :
    (d.lookup name).2.refusal? = some e := by
  unfold lookup
  split
  · exact h
  · exact refusal?_refuse h _

theorem refusal?_addRule
    (h : d.refusal? = some e)
    (repeats : Repeats)
    (rule : Rule) :
    (d.addRule repeats rule).refusal? = some e := by
  unfold addRule
  split
  · cases repeats with
    | refused => exact refusal?_refuse h _
    | ignored => exact h
  · exact h

theorem add_of_length_ne
    (d : Draft)
    {head : String} {body : List String}
    (hbody : body.length ≠ 2)
    (repeats : Repeats) :
    d.add ⟨.production head body, repeats⟩ = d.refuse (.notNormalForm head body) := by
  unfold add
  split <;> simp_all

/-- A declaration never takes a refusal back. -/
theorem refusal?_add
    (h : d.refusal? = some e)
    (x : Declaration) :
    (d.add x).refusal? = some e := by
  obtain ⟨item, repeats⟩ := x
  cases item with
  | nonterminal name =>
      simp only [add, addSymbol]
      split
      · cases repeats with
        | refused => exact refusal?_refuse h _
        | ignored => exact h
      · exact h
  | production head body =>
      by_cases hbody : body.length = 2
      · obtain ⟨left, right, rfl⟩ := List.length_eq_two.mp hbody
        have hlookups := refusal?_lookup (refusal?_lookup (refusal?_lookup h left) right) head
        simp only [add]
        split
        · exact refusal?_addRule hlookups _ _
        · exact hlookups
      · rw [add_of_length_ne d hbody]
        exact refusal?_refuse h _
  | lexical head word =>
      have hlookup := refusal?_lookup h head
      simp only [add]
      split
      · exact refusal?_addRule hlookup _ _
      · exact hlookup

/-- A draft looks a name up as a builder does. -/
theorem lookup_cases
    (b : Builder)
    (name : String) :
    (∃ A, b.resolve name = .ok A ∧ lookup ⟨b, none⟩ name = (some A, ⟨b, none⟩)) ∨
      (b.resolve name = .error (.missingSymbol name) ∧
        lookup ⟨b, none⟩ name = (none, ⟨b, some (.missingSymbol name)⟩)) := by
  rcases b.resolve_cases name with ⟨A, _, hindex, hresolve⟩ | ⟨_, hindex, hresolve⟩
  · refine Or.inl ⟨A, hresolve, ?_⟩
    rw [lookup, hindex]
  · refine Or.inr ⟨hresolve, ?_⟩
    rw [lookup, hindex]
    rfl

theorem agrees_addRule
    (b : Builder)
    (repeats : Repeats)
    (rule : Rule) :
    (addRule ⟨b, none⟩ repeats rule).Agrees (b.addRule repeats rule) := by
  unfold addRule Builder.addRule
  split
  · cases repeats <;> rfl
  · rfl

/-- One declaration keeps a draft and a builder in agreement. -/
theorem agrees_add
    (b : Builder)
    (x : Declaration) :
    (add ⟨b, none⟩ x).Agrees (b.add x) := by
  obtain ⟨item, repeats⟩ := x
  cases item with
  | nonterminal name =>
      simp only [add, addSymbol, Builder.add, Builder.addSymbol]
      split
      · cases repeats <;> rfl
      · rfl
  | production head body =>
      by_cases hbody : body.length = 2
      · obtain ⟨left, right, rfl⟩ := List.length_eq_two.mp hbody
        simp only [add, Builder.add]
        rcases lookup_cases b left with ⟨B, hleft, hlookup⟩ | ⟨hleft, hlookup⟩
        · rcases lookup_cases b right with ⟨C, hright, hlookup'⟩ | ⟨hright, hlookup'⟩
          · rcases lookup_cases b head with ⟨A, hhead, hlookup''⟩ | ⟨hhead, hlookup''⟩
            · rw [hlookup, hleft, hlookup', hright, hlookup'', hhead]
              exact agrees_addRule b repeats _
            · rw [hlookup, hleft, hlookup', hright, hlookup'', hhead]
              rfl
          · -- the head is looked up after the right symbol was refused
            rw [hlookup, hleft, hlookup', hright]
            exact refusal?_lookup rfl head
        · rw [hlookup, hleft]
          have hlookups := refusal?_lookup
            (refusal?_lookup (d := ⟨b, some (.missingSymbol left)⟩) rfl right) head
          exact hlookups
      · rw [add_of_length_ne _ hbody, b.add_of_length_ne hbody]
        rfl
  | lexical head word =>
      simp only [add, Builder.add]
      rcases lookup_cases b head with ⟨A, hhead, hlookup⟩ | ⟨hhead, hlookup⟩
      · rw [hlookup, hhead]
        exact agrees_addRule b repeats _
      · rw [hlookup, hhead]
        rfl

theorem refusal?_addAll
    (h : d.refusal? = some e)
    (declarations : List Declaration) :
    (d.addAll declarations).refusal? = some e := by
  induction declarations generalizing d with
  | nil => exact h
  | cons x rest ih => exact ih (refusal?_add h x)

/-- Declarations keep a draft and a builder in agreement. -/
theorem agrees_addAll
    (b : Builder)
    (declarations : List Declaration) :
    (addAll ⟨b, none⟩ declarations).Agrees (b.addAll declarations) := by
  induction declarations generalizing b with
  | nil => rfl
  | cons x rest ih =>
      have hfirst := agrees_add b x
      rw [Builder.addAll]
      change (addAll (add ⟨b, none⟩ x) rest).Agrees _
      cases hadd : b.add x with
      | error e =>
          rw [hadd] at hfirst
          exact refusal?_addAll hfirst rest
      | ok next =>
          rw [hadd] at hfirst
          rw [show add ⟨b, none⟩ x = ⟨next, none⟩ from hfirst]
          exact ih next

theorem toGrammar_eq_error
    (h : d.refusal? = some e)
    (start : String) :
    d.toGrammar start = .error e := by
  have hlookup := refusal?_lookup h start
  simp only [toGrammar]
  rw [hlookup]

theorem toGrammar_eq
    (b : Builder)
    (start : String) :
    toGrammar ⟨b, none⟩ start = b.toGrammar start := by
  unfold toGrammar Builder.toGrammar
  rcases lookup_cases b start with ⟨A, hresolve, hlookup⟩ | ⟨hresolve, hlookup⟩
  · rw [hlookup, hresolve]
    rfl
  · rw [hlookup, hresolve]
    rfl

/-- A draft of declarations has the grammar that they describe, or the first error in them. -/
theorem toGrammar_addAll
    (declarations : List Declaration)
    (start : String) :
    (empty.addAll declarations).toGrammar start = Grammar.ofDeclarations declarations start := by
  have hagrees := agrees_addAll Builder.empty declarations
  unfold Grammar.ofDeclarations
  cases hadd : Builder.empty.addAll declarations with
  | error e =>
      rw [hadd] at hagrees
      exact toGrammar_eq_error hagrees start
  | ok b =>
      rw [hadd] at hagrees
      rw [show empty.addAll declarations = ⟨b, none⟩ from hagrees]
      exact toGrammar_eq b start

end Draft
end ChartParsing
