import ChartParsing.Proofs.SourceReading

/-!
# Declaring the written rules again

The rules of a grammar that was read, written out one production after another, declare the
same symbols in the same order, and the same rules.  This is so because a production declares
its own symbols right before its rule: a new rule brings the symbols that are new with it, and
a repeated rule brings none.

**Invariant.** `Builder.Replayed` holds of a builder to which nothing has been declared, and is
kept by every production that is followed as a whole (`Builder.replayed_of_production`).

**Results.**
* `Grammar.ofDeclarations_written`: the written rules of a grammar that was read describe that
  grammar.
-/

namespace ChartParsing

/-- A production as it stands in a grammar text. -/
structure Production where
  head : String
  body : Body
  deriving DecidableEq, Repr

namespace Production

/-- The names of a production, head first. -/
def symbols (p : Production) : List String :=
  p.head :: p.body.nameList

/-- The rule that a production declares. -/
def rule (p : Production) : Item :=
  match p.body with
  | .word text => .lexical p.head text
  | .names list => .production p.head list

/-- The declarations of a production: its symbols, and then its rule. -/
def declarations (p : Production) : List Declaration :=
  (Statement.bodyItems p.head p.body).map (⟨·, .ignored⟩)

theorem declarations_eq
    (p : Production) :
    p.declarations =
      p.symbols.map (fun name => ⟨.nonterminal name, .ignored⟩) ++ [⟨p.rule, .ignored⟩] := by
  obtain ⟨head, body⟩ := p
  cases body with
  | word text => rfl
  | names list => simp [declarations, symbols, rule, Statement.bodyItems, Body.nameList]

end Production

/-- The right side of a rule as it is written, under the given names of symbols. -/
def Rule.body (names : List String) : Rule → Body
  | binary r => .names [names.getD r.left.index "", names.getD r.right.index ""]
  | lexical _ word => .word word

/-- A rule as it is written, under the given names of symbols. -/
def Rule.production (names : List String) (rule : Rule) : Production :=
  ⟨rule.headName names, rule.body names⟩

/-- The productions of a statement, in order. -/
def Statement.productionList : Statement → List Production
  | productions head bodies => bodies.map (⟨head, ·⟩)
  | _ => []

theorem Statement.declarations_eq
    (statement : Statement) :
    statement.declarations = statement.productionList.flatMap Production.declarations := by
  cases statement with
  | productions head bodies =>
      rw [declarations, productionList, List.map_flatMap, List.flatMap_map]
      rfl
  | blank | start => rfl

theorem Statement.flatMap_declarations
    (statements : List Statement) :
    statements.flatMap declarations =
      (statements.flatMap productionList).flatMap Production.declarations := by
  rw [List.flatMap_assoc]
  exact List.flatMap_congr fun statement _ => statement.declarations_eq

/-- More names do not change how a rule about the first names is written. -/
theorem Rule.production_append
    {names : List String} {rule : Rule}
    (h : rule.Below names.length)
    (more : List String) :
    rule.production (names ++ more) = rule.production names := by
  have hget {i : Nat} (hi : i < names.length) : (names ++ more).getD i "" = names.getD i "" := by
    rw [List.getD_eq_getElem?_getD, List.getElem?_append_left hi, List.getD_eq_getElem?_getD]
  cases rule with
  | binary r =>
      obtain ⟨hhead, hleft, hright⟩ := h
      simp only [production, headName, body, hget hhead, hget hleft, hget hright]
  | lexical head word =>
      simp only [production, headName, body, hget h]

namespace Builder

variable {b b' : Builder}

theorem addAll_append
    (b : Builder)
    (xs ys : List Declaration) :
    b.addAll (xs ++ ys) = (b.addAll xs >>= fun b' => b'.addAll ys) := by
  induction xs generalizing b with
  | nil => rfl
  | cons d xs ih =>
      rw [List.cons_append, addAll, addAll]
      cases b.add d with
      | error e => rfl
      | ok next => exact ih next

theorem getD_of_resolve
    {name : String} {A : Symbol}
    (h : b.resolve name = .ok A) :
    b.symbols.getD A.index "" = name := by
  obtain ⟨hlt, hget, _⟩ := List.idxOf?_eq_some_iff.mp (resolve_eq_ok_iff.mp h)
  rw [List.getD_eq_getElem?_getD, List.getElem?_eq_getElem hlt, Option.getD_some]
  exact hget

/-- A name that is found among the first symbols is one of them. -/
theorem mem_of_resolve_of_lt
    {more : List String} {name : String} {A : Symbol}
    (hsymbols : b'.symbols = b.symbols ++ more)
    (h : b'.resolve name = .ok A)
    (hlt : A.index < b.symbols.length) :
    name ∈ b.symbols := by
  have hget := getD_of_resolve h
  rw [hsymbols, List.getD_eq_getElem?_getD, List.getElem?_append_left hlt,
    List.getElem?_eq_getElem hlt, Option.getD_some] at hget
  rw [← hget]
  exact List.getElem_mem hlt

theorem Describes.production_eq
    {p : Production} {rule : Rule}
    (h : b.Describes p.rule rule) :
    rule.production b.symbols = p := by
  obtain ⟨head, body⟩ := p
  cases body with
  | word text =>
      cases rule with
      | binary r => exact h.elim
      | lexical A word =>
          obtain ⟨hA, rfl⟩ := h
          simp only [Rule.production, Rule.headName, Rule.body, getD_of_resolve hA]
  | names list =>
      cases rule with
      | lexical A word => exact h.elim
      | binary r =>
          obtain ⟨left, right, rfl, hhead, hleft, hright⟩ := h
          simp only [Rule.production, Rule.headName, Rule.body, getD_of_resolve hhead,
            getD_of_resolve hleft, getD_of_resolve hright]

/-- The names of a production whose rule is about the first symbols are among them. -/
theorem Describes.mem_of_below
    {more : List String} {p : Production} {rule : Rule} {name : String}
    (hsymbols : b'.symbols = b.symbols ++ more)
    (h : b'.Describes p.rule rule)
    (hbelow : rule.Below b.symbols.length)
    (hname : name ∈ p.symbols) :
    name ∈ b.symbols := by
  obtain ⟨head, body⟩ := p
  cases body with
  | word text =>
      cases rule with
      | binary r => exact h.elim
      | lexical A word =>
          rw [List.mem_singleton.mp hname]
          exact mem_of_resolve_of_lt hsymbols h.1 hbelow
  | names list =>
      cases rule with
      | lexical A word => exact h.elim
      | binary r =>
          obtain ⟨left, right, rfl, hhead, hleft, hright⟩ := h
          obtain ⟨hhead', hleft', hright'⟩ := hbelow
          simp only [Production.symbols, Body.nameList, List.mem_cons, List.not_mem_nil,
            or_false] at hname
          rcases hname with rfl | rfl | rfl
          · exact mem_of_resolve_of_lt hsymbols hhead hhead'
          · exact mem_of_resolve_of_lt hsymbols hleft hleft'
          · exact mem_of_resolve_of_lt hsymbols hright hright'

theorem addAll_symbols
    {names : List String}
    (h : b.addAll (names.map fun name => ⟨.nonterminal name, .ignored⟩) = .ok b') :
    b'.rules = b.rules ∧ (∃ more, b'.symbols = b.symbols ++ more) ∧
      ((∀ name ∈ names, name ∈ b.symbols) → b' = b) := by
  induction names generalizing b with
  | nil =>
      cases h
      exact ⟨rfl, ⟨[], (List.append_nil _).symm⟩, fun _ => rfl⟩
  | cons name names ih =>
      obtain ⟨next, hnext, h⟩ := exists_of_bind_eq_ok h
      obtain ⟨hrules, ⟨more, hmore⟩, hkeep⟩ := ih h
      change b.addSymbol .ignored name = .ok next at hnext
      rcases addSymbol_cases hnext with ⟨_, rfl⟩ | ⟨hnew, rfl⟩
      · refine ⟨hrules, ⟨more, hmore⟩, ?_⟩
        intro hold
        exact hkeep fun other hother => hold other (List.mem_cons_of_mem _ hother)
      · refine ⟨hrules, ⟨[name] ++ more, ?_⟩, ?_⟩
        · rw [hmore, List.append_assoc]
        · intro hold
          exact absurd (hold name List.mem_cons_self) hnew

/-- The rules declared so far as they are written. -/
def written (b : Builder) : List Production :=
  b.rules.map (Rule.production b.symbols)

/-- A production that is followed adds itself to the written rules, unless its rule is among
them already; then it changes nothing. -/
theorem written_of_production
    {p : Production}
    (hb : b.Consistent)
    (h : b.addAll p.declarations = .ok b') :
    b' = b ∨ b'.written = b.written ++ [p] := by
  rw [Production.declarations_eq, addAll_append] at h
  obtain ⟨named, hnamed, h⟩ := exists_of_bind_eq_ok h
  obtain ⟨hrules, ⟨more, hmore⟩, hkeep⟩ := addAll_symbols hnamed
  obtain ⟨final, hadd, h⟩ := exists_of_bind_eq_ok h
  cases h
  rcases add_cases hadd with ⟨name, hitem, _⟩ | ⟨rule, hrule, hadd⟩
  · obtain ⟨head, body⟩ := p
    cases body <;> cases hitem
  · rcases addRule_cases hadd with ⟨hold, rfl⟩ | ⟨_, rfl⟩
    · have hbelow := hb.below rule (hrules ▸ hold)
      exact Or.inl (hkeep fun name hname => hrule.mem_of_below hmore hbelow hname)
    · refine Or.inr ?_
      simp only [written, List.map_append, List.map_singleton, hrules, hrule.production_eq]
      congr 1
      refine List.map_congr_left ?_
      intro old hold
      rw [hmore, Rule.production_append (hb.below old hold)]

/-- What was declared so far is what its written rules declare. -/
def Replayed (b : Builder) : Prop :=
  empty.addAll (b.written.flatMap Production.declarations) = .ok b

theorem replayed_empty : empty.Replayed := rfl

/-- A production that is followed as a whole keeps a builder replayed. -/
theorem replayed_of_production
    {p : Production}
    (hb : b.Consistent)
    (hreplayed : b.Replayed)
    (h : b.addAll p.declarations = .ok b') :
    b'.Replayed := by
  rcases written_of_production hb h with rfl | hwritten
  · exact hreplayed
  · rw [Replayed, hwritten, List.flatMap_append, addAll_append, hreplayed, List.flatMap_singleton]
    exact h

theorem replayed_of_productions
    {list : List Production}
    (hb : b.Consistent)
    (hreplayed : b.Replayed)
    (h : b.addAll (list.flatMap Production.declarations) = .ok b') :
    b'.Replayed := by
  induction list generalizing b with
  | nil =>
      cases h
      exact hreplayed
  | cons p list ih =>
      rw [List.flatMap_cons, addAll_append] at h
      obtain ⟨next, hnext, h⟩ := exists_of_bind_eq_ok h
      exact ih (consistent_of_addAll hb hnext) (replayed_of_production hb hreplayed hnext) h

end Builder

namespace Grammar

/-- The rules of a grammar as they are written. -/
def written (g : Grammar) : List Production :=
  g.rules.map (Rule.production g.symbols)

/-- The written rules of a grammar that was read describe that grammar. -/
theorem ofDeclarations_written
    {text : List Char} {g : Grammar}
    (h : ofText text = .ok g) :
    ofDeclarations (g.written.flatMap Production.declarations) (g.name g.start) = .ok g := by
  obtain ⟨statements, start, b, _, _, hb, hg⟩ := exists_of_ofText h
  have hstart : g.name g.start = start := by
    obtain ⟨A, hA, _, rfl⟩ := Builder.toGrammar_eq_ok_iff.mp hg
    exact Builder.getD_of_resolve hA
  have hwritten : g.written = b.written := by
    obtain ⟨A, _, _, rfl⟩ := Builder.toGrammar_eq_ok_iff.mp hg
    rfl
  rw [Statement.flatMap_declarations] at hb
  have hreplayed : b.Replayed :=
    Builder.replayed_of_productions Builder.consistent_empty Builder.replayed_empty hb
  rw [ofDeclarations, hwritten, hreplayed, hstart]
  exact hg

end Grammar
end ChartParsing
