import ChartParsing.Grammar.Builder
import ChartParsing.Proofs.Refusals
import Mathlib.Data.List.Induction
import Mathlib.Data.List.Nodup

/-!
# What a built grammar keeps

A grammar that declarations describe repeats neither a symbol nor a rule, and its rules speak
about its own symbols only.  So a symbol can be told by its name, and the two tables that a
chart asks are exact views of the list of rules.

**Steps.** A declaration that is followed declares a symbol or a rule, and changes nothing if it
is a repeat (`Builder.add_cases`, `Builder.addSymbol_cases`, `Builder.addRule_cases`).

**Invariant.** `Builder.Consistent` holds of a builder to which nothing has been declared, is
kept by each declaration that is not refused (`Builder.consistent_of_add`), and so by all of
them.

**Results.**
* `Grammar.WellFormed.of_ofDeclarations`: every grammar that declarations describe is well
  formed.
* `lexicalHeads_eq`, `binaryRulesByLeft_eq`: both tables list the rules they are asked for, in
  the order of the rules.
* `name_injective`: two symbols of one name are equal.
-/

namespace ChartParsing

theorem Symbol.ext
    {A B : Symbol}
    (h : A.index = B.index) :
    A = B := by
  cases A
  cases B
  exact congrArg Symbol.mk h

/-- Under different names, two symbols of one name are equal. -/
theorem Symbol.eq_of_getD_eq
    {names : List String} {A B : Symbol}
    (hnodup : names.Nodup)
    (hA : A.index < names.length)
    (hB : B.index < names.length)
    (h : names.getD A.index "" = names.getD B.index "") :
    A = B := by
  have hget : names[A.index] = names[B.index] := by
    simpa [List.getD_eq_getElem?_getD, hA, hB] using h
  exact Symbol.ext (hnodup.getElem_inj_iff.mp hget)

/-- A rule speaks about the first `size` symbols only. -/
def Rule.Below (size : Nat) : Rule → Prop
  | .binary r => r.head.index < size ∧ r.left.index < size ∧ r.right.index < size
  | .lexical head _ => head.index < size

/-- The symbols of a rule, head first. -/
def Rule.symbolList : Rule → List Symbol
  | binary r => [r.head, r.left, r.right]
  | lexical head _ => [head]

/-- The symbol that a rule makes into a word, if it does. -/
def Rule.headOver? (word : String) : Rule → Option Symbol
  | .binary _ => none
  | .lexical head other => if other = word then some head else none

/-- The binary rule whose body a symbol begins, if it does. -/
def Rule.binaryFrom? (left : Symbol) : Rule → Option BinaryRule
  | .binary r => if r.left = left then some r else none
  | .lexical _ _ => none

theorem Rule.below_mono
    {m n : Nat} {rule : Rule}
    (hmn : m ≤ n)
    (h : rule.Below m) :
    rule.Below n := by
  cases rule with
  | binary r =>
      obtain ⟨hhead, hleft, hright⟩ := h
      exact ⟨by omega, by omega, by omega⟩
  | lexical head word =>
      exact Nat.lt_of_lt_of_le h hmn

theorem Rule.index_lt_of_mem
    {size : Nat} {rule : Rule} {A : Symbol}
    (h : rule.Below size)
    (hA : A ∈ rule.symbolList) :
    A.index < size := by
  cases rule with
  | binary r =>
      obtain ⟨hhead, hleft, hright⟩ := h
      simp only [symbolList, List.mem_cons, List.not_mem_nil, or_false] at hA
      rcases hA with rfl | rfl | rfl
      · exact hhead
      · exact hleft
      · exact hright
  | lexical head word =>
      rwa [List.mem_singleton.mp hA]

theorem Rule.headOver?_eq_some_iff
    {word : String} {rule : Rule} {A : Symbol} :
    rule.headOver? word = some A ↔ rule = .lexical A word := by
  cases rule with
  | binary r =>
      simp [Rule.headOver?]
  | lexical head other =>
      simp only [Rule.headOver?, Rule.lexical.injEq]
      split <;> simp_all

theorem Rule.binaryFrom?_eq_some_iff
    {left : Symbol} {rule : Rule} {r : BinaryRule} :
    rule.binaryFrom? left = some r ↔ rule = .binary r ∧ r.left = left := by
  cases rule with
  | binary other =>
      simp only [Rule.binaryFrom?, Rule.binary.injEq]
      split
      · rename_i hleft
        constructor
        · rintro h
          cases h
          exact ⟨rfl, hleft⟩
        · rintro ⟨rfl, _⟩
          rfl
      · rename_i hleft
        constructor
        · intro h
          cases h
        · rintro ⟨rfl, h⟩
          exact absurd h hleft
  | lexical head word =>
      simp [Rule.binaryFrom?]

namespace Builder

/-- What every builder keeps: no symbol and no rule is repeated, and the rules speak about
declared symbols. -/
structure Consistent (b : Builder) : Prop where
  nodup_symbols : b.symbols.Nodup
  nodup_rules : b.rules.Nodup
  below : ∀ rule ∈ b.rules, rule.Below b.symbols.length

theorem consistent_empty : empty.Consistent where
  nodup_symbols := List.nodup_nil
  nodup_rules := List.nodup_nil
  below := by
    intro rule h
    cases h

theorem resolve_eq_ok_iff
    {b : Builder} {name : String} {A : Symbol} :
    b.resolve name = .ok A ↔ b.symbols.idxOf? name = some A.index := by
  cases A
  unfold resolve
  cases b.symbols.idxOf? name <;> simp

theorem index_lt_of_resolve
    {b : Builder} {name : String} {A : Symbol}
    (h : b.resolve name = .ok A) :
    A.index < b.symbols.length := by
  obtain ⟨hlt, _⟩ := List.idxOf?_eq_some_iff.mp (resolve_eq_ok_iff.mp h)
  exact hlt

/-- An item is a rule over the symbols declared so far. -/
def Describes (b : Builder) : Item → Rule → Prop
  | .production head body, .binary r =>
      ∃ left right, body = [left, right] ∧
        b.resolve head = .ok r.head ∧ b.resolve left = .ok r.left ∧ b.resolve right = .ok r.right
  | .lexical head word, .lexical A other => b.resolve head = .ok A ∧ word = other
  | _, _ => False

theorem Describes.below
    {b : Builder} {item : Item} {rule : Rule}
    (h : b.Describes item rule) :
    rule.Below b.symbols.length := by
  cases item <;> cases rule <;> try exact h.elim
  · obtain ⟨_, _, _, hhead, hleft, hright⟩ := h
    exact ⟨index_lt_of_resolve hhead, index_lt_of_resolve hleft, index_lt_of_resolve hright⟩
  · exact index_lt_of_resolve h.1

theorem addSymbol_cases
    {b b' : Builder} {repeats : Repeats} {name : String}
    (h : b.addSymbol repeats name = .ok b') :
    (name ∈ b.symbols ∧ b' = b) ∨
      (name ∉ b.symbols ∧ b' = { b with symbols := b.symbols ++ [name] }) := by
  unfold addSymbol at h
  split at h
  · rename_i hold
    cases repeats with
    | refused => cases h
    | ignored =>
        cases h
        exact Or.inl ⟨hold, rfl⟩
  · rename_i hnew
    cases h
    exact Or.inr ⟨hnew, rfl⟩

theorem addRule_cases
    {b b' : Builder} {repeats : Repeats} {rule : Rule}
    (h : b.addRule repeats rule = .ok b') :
    (rule ∈ b.rules ∧ b' = b) ∨
      (rule ∉ b.rules ∧ b' = { b with rules := b.rules ++ [rule] }) := by
  unfold addRule at h
  split at h
  · rename_i hold
    cases repeats with
    | refused => cases h
    | ignored =>
        cases h
        exact Or.inl ⟨hold, rfl⟩
  · rename_i hnew
    cases h
    exact Or.inr ⟨hnew, rfl⟩

/-- A declaration that is followed declares a symbol, or the rule that its item is. -/
theorem add_cases
    {b b' : Builder} {d : Declaration}
    (h : b.add d = .ok b') :
    (∃ name, d.item = .nonterminal name ∧ b.addSymbol d.repeats name = .ok b') ∨
      (∃ rule, b.Describes d.item rule ∧ b.addRule d.repeats rule = .ok b') := by
  obtain ⟨item, repeats⟩ := d
  cases item with
  | nonterminal name =>
      exact Or.inl ⟨name, rfl, h⟩
  | production head body =>
      match body with
      | [left, right] =>
          obtain ⟨B, hB, h⟩ := exists_of_bind_eq_ok h
          obtain ⟨C, hC, h⟩ := exists_of_bind_eq_ok h
          obtain ⟨A, hA, h⟩ := exists_of_bind_eq_ok h
          exact Or.inr ⟨.binary ⟨A, B, C⟩, ⟨left, right, rfl, hA, hB, hC⟩, h⟩
      | [] => cases h
      | [_] => cases h
      | _ :: _ :: _ :: _ => cases h
  | lexical head word =>
      obtain ⟨A, hA, h⟩ := exists_of_bind_eq_ok h
      exact Or.inr ⟨.lexical A word, ⟨hA, rfl⟩, h⟩

/-- One declaration keeps a builder consistent. -/
theorem consistent_of_add
    {b b' : Builder} {d : Declaration}
    (hb : b.Consistent)
    (h : b.add d = .ok b') :
    b'.Consistent := by
  rcases add_cases h with ⟨name, _, hadd⟩ | ⟨rule, hrule, hadd⟩
  · rcases addSymbol_cases hadd with ⟨_, rfl⟩ | ⟨hnew, rfl⟩
    · exact hb
    · refine ⟨?_, hb.nodup_rules, ?_⟩
      · exact hb.nodup_symbols.append (List.nodup_singleton name)
          (List.disjoint_singleton.mpr hnew)
      · intro rule hrule
        exact Rule.below_mono (by simp) (hb.below rule hrule)
  · rcases addRule_cases hadd with ⟨_, rfl⟩ | ⟨hnew, rfl⟩
    · exact hb
    · refine ⟨hb.nodup_symbols, ?_, ?_⟩
      · exact hb.nodup_rules.append (List.nodup_singleton rule)
          (List.disjoint_singleton.mpr hnew)
      · intro other hother
        rcases List.mem_append.mp hother with hold | hsame
        · exact hb.below other hold
        · rw [List.mem_singleton.mp hsame]
          exact hrule.below

/-- Declarations that are all followed keep a builder consistent. -/
theorem consistent_of_addAll
    {b b' : Builder} {declarations : List Declaration}
    (hb : b.Consistent)
    (h : b.addAll declarations = .ok b') :
    b'.Consistent := by
  induction declarations generalizing b with
  | nil =>
      cases h
      exact hb
  | cons d rest ih =>
      obtain ⟨next, hnext, h⟩ := exists_of_bind_eq_ok h
      exact ih (consistent_of_add hb hnext) h

end Builder

theorem Lexicon.getD_lookup_cons
    (word listed : String)
    (heads : List Symbol)
    (rest : Lexicon) :
    (List.lookup word ((listed, heads) :: rest)).getD [] =
      if listed = word then heads else (rest.lookup word).getD [] := by
  rw [List.lookup_cons]
  by_cases h : listed = word
  · simp [h]
  · have hne : (word == listed) = false := by
      simpa using Ne.symm h
    simp [h, hne]

/-- Looking up a word after a symbol was added to those of some word. -/
theorem Lexicon.getD_lookup_add
    (lexicon : Lexicon)
    (word other : String)
    (head : Symbol) :
    ((Lexicon.add other head lexicon).lookup word).getD [] =
      (lexicon.lookup word).getD [] ++ if other = word then [head] else [] := by
  induction lexicon with
  | nil =>
      simp only [Lexicon.add, Lexicon.getD_lookup_cons]
      rfl
  | cons entry rest ih =>
      obtain ⟨listed, heads⟩ := entry
      rw [Lexicon.getD_lookup_cons, Lexicon.add]
      by_cases hlisted : listed = other
      · subst hlisted
        by_cases h : listed = word <;> simp [Lexicon.getD_lookup_cons, h]
      · rw [if_neg hlisted, Lexicon.getD_lookup_cons, ih]
        by_cases h : listed = word
        · simp [h, show other ≠ word from fun hother => hlisted (h.trans hother.symm)]
        · simp [h]

@[simp] theorem Lexicon.ofRules_append_lexical
    (rules : List Rule)
    (head : Symbol)
    (word : String) :
    Lexicon.ofRules (rules ++ [.lexical head word]) =
      Lexicon.add word head (Lexicon.ofRules rules) := by
  simp [Lexicon.ofRules]

@[simp] theorem Lexicon.ofRules_append_binary
    (rules : List Rule)
    (r : BinaryRule) :
    Lexicon.ofRules (rules ++ [.binary r]) = Lexicon.ofRules rules := by
  simp [Lexicon.ofRules]

/-- A lexicon lists the symbols of each word in the order of the rules. -/
theorem Lexicon.getD_lookup_ofRules
    (rules : List Rule)
    (word : String) :
    ((Lexicon.ofRules rules).lookup word).getD [] = rules.filterMap (Rule.headOver? word) := by
  induction rules using List.reverseRecOn with
  | nil => rfl
  | append_singleton rules rule ih =>
      rw [List.filterMap_append, ← ih]
      cases rule with
      | binary r =>
          simp [Rule.headOver?]
      | lexical head other =>
          by_cases h : other = word <;>
            simp [Lexicon.getD_lookup_add, Rule.headOver?, h]

@[simp] theorem tabulateByLeft_append_binary
    (size : Nat)
    (rules : List Rule)
    (r : BinaryRule) :
    tabulateByLeft size (rules ++ [.binary r]) =
      (tabulateByLeft size rules).modify r.left.index (· ++ [r]) := by
  simp [tabulateByLeft]

@[simp] theorem tabulateByLeft_append_lexical
    (size : Nat)
    (rules : List Rule)
    (head : Symbol)
    (word : String) :
    tabulateByLeft size (rules ++ [.lexical head word]) = tabulateByLeft size rules := by
  simp [tabulateByLeft]

@[simp] theorem size_tabulateByLeft
    (size : Nat)
    (rules : List Rule) :
    (tabulateByLeft size rules).size = size := by
  induction rules using List.reverseRecOn with
  | nil => simp [tabulateByLeft]
  | append_singleton rules rule ih =>
      cases rule <;> simpa using ih

/-- The table of binary rules lists those of each symbol in the order of the rules. -/
theorem getD_tabulateByLeft
    {size : Nat} {left : Symbol}
    (rules : List Rule)
    (hleft : left.index < size) :
    (tabulateByLeft size rules).getD left.index [] =
      rules.filterMap (Rule.binaryFrom? left) := by
  induction rules using List.reverseRecOn with
  | nil =>
      simp [tabulateByLeft, hleft]
  | append_singleton rules rule ih =>
      rw [List.filterMap_append, ← ih]
      cases rule with
      | lexical head word =>
          simp [Rule.binaryFrom?]
      | binary r =>
          by_cases h : r.left = left
          · subst h
            simp [Rule.binaryFrom?, Array.getElem_modify, hleft]
          · have hindex : r.left.index ≠ left.index := by
              intro heq
              exact h (Symbol.ext heq)
            simp [Rule.binaryFrom?, Array.getElem?_modify, h, hindex]

namespace Grammar

/-- What is kept by every grammar that declarations describe. -/
structure WellFormed (g : Grammar) : Prop where
  nodup_symbols : g.symbols.Nodup
  nodup_rules : g.rules.Nodup
  start_lt : g.start.index < g.symbols.length
  below : ∀ rule ∈ g.rules, rule.Below g.symbols.length
  /-- The tables are those of the rules. -/
  eq_ofRules : g = ofRules g.symbols g.start g.rules

namespace WellFormed

/-- Every grammar that declarations describe is well formed. -/
theorem of_ofDeclarations
    {declarations : List Declaration} {start : String} {g : Grammar}
    (h : ofDeclarations declarations start = .ok g) :
    g.WellFormed := by
  obtain ⟨b, hb, h⟩ := exists_of_bind_eq_ok h
  obtain ⟨A, hA, h⟩ := exists_of_bind_eq_ok h
  have hconsistent := Builder.consistent_of_addAll Builder.consistent_empty hb
  split at h
  · cases h
  · cases h
    exact
      { nodup_symbols := hconsistent.nodup_symbols
        nodup_rules := hconsistent.nodup_rules
        start_lt := Builder.index_lt_of_resolve hA
        below := hconsistent.below
        eq_ofRules := rfl }

variable {g : Grammar}

/-- The symbols that become a word are listed in the order of the rules. -/
theorem lexicalHeads_eq
    (hg : g.WellFormed)
    (word : String) :
    g.lexicalHeads word = g.rules.filterMap (Rule.headOver? word) := by
  rw [hg.eq_ofRules]
  exact Lexicon.getD_lookup_ofRules g.rules word

/-- The binary rules that a symbol begins are listed in the order of the rules. -/
theorem binaryRulesByLeft_eq
    (hg : g.WellFormed)
    (left : Symbol) :
    g.binaryRulesByLeft left = g.rules.filterMap (Rule.binaryFrom? left) := by
  by_cases hleft : left.index < g.symbols.length
  · rw [hg.eq_ofRules]
    exact getD_tabulateByLeft g.rules hleft
  · have hnone : g.rules.filterMap (Rule.binaryFrom? left) = [] := by
      rw [List.filterMap_eq_nil_iff]
      intro rule hrule
      by_contra hsome
      obtain ⟨r, hr⟩ := Option.ne_none_iff_exists'.mp hsome
      obtain ⟨rfl, rfl⟩ := Rule.binaryFrom?_eq_some_iff.mp hr
      exact hleft (hg.below _ hrule).2.1
    rw [hnone, hg.eq_ofRules]
    have hsize := size_tabulateByLeft g.symbols.length g.rules
    simp only [binaryRulesByLeft, ofRules, Array.getD_eq_getD_getElem?]
    rw [Array.getElem?_eq_none (by omega)]
    rfl

theorem mem_lexicalHeads_iff
    (hg : g.WellFormed)
    {word : String} {A : Symbol} :
    A ∈ g.lexicalHeads word ↔ .lexical A word ∈ g.rules := by
  simp [hg.lexicalHeads_eq, Rule.headOver?_eq_some_iff]

theorem mem_binaryRulesByLeft_iff
    (hg : g.WellFormed)
    {left : Symbol} {r : BinaryRule} :
    r ∈ g.binaryRulesByLeft left ↔ .binary r ∈ g.rules ∧ r.left = left := by
  simp [hg.binaryRulesByLeft_eq, Rule.binaryFrom?_eq_some_iff]

theorem nodup_lexicalHeads
    (hg : g.WellFormed)
    (word : String) :
    (g.lexicalHeads word).Nodup := by
  rw [hg.lexicalHeads_eq]
  refine hg.nodup_rules.filterMap ?_
  intro rule rule' A h h'
  rw [Rule.headOver?_eq_some_iff.mp h, Rule.headOver?_eq_some_iff.mp h']

theorem nodup_binaryRulesByLeft
    (hg : g.WellFormed)
    (left : Symbol) :
    (g.binaryRulesByLeft left).Nodup := by
  rw [hg.binaryRulesByLeft_eq]
  refine hg.nodup_rules.filterMap ?_
  intro rule rule' r h h'
  rw [(Rule.binaryFrom?_eq_some_iff.mp h).1, (Rule.binaryFrom?_eq_some_iff.mp h').1]

/-- Two symbols of one name are equal. -/
theorem name_injective
    (hg : g.WellFormed)
    {A B : Symbol}
    (hA : A.index < g.symbols.length)
    (hB : B.index < g.symbols.length)
    (h : g.name A = g.name B) :
    A = B := by
  exact Symbol.eq_of_getD_eq hg.nodup_symbols hA hB h

end WellFormed
end Grammar
end ChartParsing
