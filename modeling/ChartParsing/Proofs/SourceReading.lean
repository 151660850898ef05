import ChartParsing.Grammar.Source
import ChartParsing.Proofs.BuiltGrammar
import ChartParsing.Proofs.TokenReading

/-!
# What a grammar takes from its text

The names of a grammar that is read from a text are name tokens of that text, and the words of
its lexical rules are word tokens of it, in their order.  Both are followed from the tokens
through lines, statements and declarations to the grammar.

**Results.**
* `mem_names_of_readLines`, `words_of_readLines`: names and words of statements are tokens.
* `Grammar.isName_of_ofText`: the symbols of a grammar that was read have readable names.
* `Grammar.words_of_ofText`: its words are words of the text, in their order.
-/

namespace ChartParsing

theorem flatten_splitOn_sublist
    {α : Type} [DecidableEq α]
    (a : α)
    (xs : List α) :
    (xs.splitOn a).flatten.Sublist xs := by
  induction xs with
  | nil => simp
  | cons x xs ih =>
      rw [List.splitOn_cons_eq_if_modifyHead]
      split
      · rw [List.flatten_cons, List.nil_append]
        exact ih.cons x
      · obtain ⟨part, parts, hparts⟩ := List.exists_cons_of_ne_nil (List.splitOn_ne_nil a xs)
        rw [hparts] at ih ⊢
        exact ih.cons_cons x

/-- Where every result holds parts of its element, the results hold parts of the elements. -/
theorem flatMap_sublist_of_mapM
    {ε α β γ : Type} {f : α → Except ε β} {before : α → List γ} {after : β → List γ}
    {xs : List α} {ys : List β}
    (hf : ∀ x y, f x = .ok y → (after y).Sublist (before x))
    (h : xs.mapM f = .ok ys) :
    (ys.flatMap after).Sublist (xs.flatMap before) := by
  induction xs generalizing ys with
  | nil =>
      cases h
      exact List.Sublist.refl _
  | cons x xs ih =>
      rw [List.mapM_cons] at h
      obtain ⟨y, hy, h⟩ := exists_of_bind_eq_ok h
      obtain ⟨rest, hrest, h⟩ := exists_of_bind_eq_ok h
      cases h
      rw [List.flatMap_cons, List.flatMap_cons]
      exact (hf x y hy).append (ih hrest)

/-- The name of a name token. -/
def Token.symbol? : Token → Option String
  | symbol name => some name
  | _ => none

theorem Token.symbol_mem_of_mem_filterMap
    {tokens : List Token} {name : String}
    (h : name ∈ tokens.filterMap symbol?) :
    .symbol name ∈ tokens := by
  obtain ⟨token, htoken, hname⟩ := List.mem_filterMap.mp h
  cases token with
  | symbol other =>
      cases hname
      exact htoken
  | word | directive | arrow | bar | newline | unknown => cases hname

/-- The names in the right side of a production. -/
def Body.nameList : Body → List String
  | word _ => []
  | names list => list

/-- The words in the right side of a production. -/
def Body.wordList : Body → List String
  | word text => [text]
  | names _ => []

namespace Statement

/-- The names in a statement. -/
def names : Statement → List String
  | blank => []
  | start name => [name]
  | productions head bodies => head :: bodies.flatMap Body.nameList

/-- The words in a statement. -/
def words : Statement → List String
  | productions _ bodies => bodies.flatMap Body.wordList
  | _ => []

variable {line : Nat} {head : String} {latest? : Option String}
variable {tokens : List Token} {statement : Statement}

theorem names_of_readNames
    {alternative : List Token} {list : List String}
    (h : readNames line head alternative tokens = .ok list) :
    list.Sublist (tokens.filterMap Token.symbol?) := by
  induction tokens generalizing list with
  | nil =>
      cases h
      exact List.nil_sublist _
  | cons token tokens ih =>
      cases token with
      | symbol other =>
          obtain ⟨rest, hrest, h⟩ := exists_of_bind_eq_ok h
          cases h
          exact (ih hrest).cons_cons other
      | word | directive | arrow | bar | newline | unknown => cases h

theorem names_of_readBody
    {body : Body}
    (h : readBody line head tokens = .ok body) :
    body.nameList.Sublist (tokens.filterMap Token.symbol?) := by
  unfold readBody at h
  split at h
  · cases h
  · cases h
    exact List.nil_sublist _
  · obtain ⟨list, hlist, h⟩ := exists_of_bind_eq_ok h
    cases h
    exact names_of_readNames hlist

theorem words_of_readBody
    {body : Body}
    (h : readBody line head tokens = .ok body) :
    body.wordList.Sublist (tokens.filterMap Token.word?) := by
  unfold readBody at h
  split at h
  · cases h
  · cases h
    exact List.Sublist.refl _
  · obtain ⟨list, _, h⟩ := exists_of_bind_eq_ok h
    cases h
    exact List.nil_sublist _

/-- What is kept from each alternative of a line is kept from the line. -/
theorem kept_of_readAlternatives
    {keep : Token → Option String} {kept : Body → List String}
    (hbody : ∀ part body,
      readBody line head part = .ok body → (kept body).Sublist (part.filterMap keep))
    (h : readAlternatives line head tokens = .ok statement) :
    ∃ bodies, statement = .productions head bodies ∧
      (bodies.flatMap kept).Sublist (tokens.filterMap keep) := by
  obtain ⟨bodies, hbodies, h⟩ := exists_of_bind_eq_ok h
  cases h
  refine ⟨bodies, rfl, (flatMap_sublist_of_mapM hbody hbodies).trans ?_⟩
  rw [List.flatMap_def, ← List.filterMap_flatten]
  exact (flatten_splitOn_sublist .bar tokens).filterMap keep

theorem mem_names_of_readAlternatives
    {name : String}
    (h : readAlternatives line head tokens = .ok statement)
    (hname : name ∈ statement.names) :
    .symbol name ∈ tokens ∨ name = head := by
  obtain ⟨bodies, rfl, hkept⟩ := kept_of_readAlternatives (fun _ _ => names_of_readBody) h
  rcases List.mem_cons.mp hname with rfl | hname
  · exact Or.inr rfl
  · exact Or.inl (Token.symbol_mem_of_mem_filterMap (hkept.subset hname))

theorem words_of_readAlternatives
    (h : readAlternatives line head tokens = .ok statement) :
    statement.words.Sublist (tokens.filterMap Token.word?) := by
  obtain ⟨bodies, rfl, hkept⟩ := kept_of_readAlternatives (fun _ _ => words_of_readBody) h
  exact hkept

theorem readDirective_eq_start
    {directive : String}
    (h : readDirective line directive tokens = .ok statement) :
    ∃ name, directive = "start" ∧ tokens = [.symbol name] ∧ statement = .start name := by
  unfold readDirective at h
  split at h
  · rename_i hdirective
    split at h
    · cases h
      exact ⟨_, hdirective, rfl, rfl⟩
    · cases h
  · cases h

/-- Every name of a statement stands in its line, unless it is the latest head. -/
theorem mem_names_of_readLine
    {name : String}
    (h : readLine line latest? tokens = .ok statement)
    (hname : name ∈ statement.names) :
    .symbol name ∈ tokens ∨ latest? = some name := by
  unfold readLine at h
  split at h
  · cases h
    cases hname
  · obtain ⟨other, _, rfl, rfl⟩ := readDirective_eq_start h
    rw [names, List.mem_singleton] at hname
    exact Or.inl (by simp [hname])
  · rcases mem_names_of_readAlternatives h hname with hmem | rfl
    · exact Or.inl (List.mem_cons_of_mem _ (List.mem_cons_of_mem _ hmem))
    · exact Or.inl List.mem_cons_self
  · split at h
    · rcases mem_names_of_readAlternatives h hname with hmem | rfl
      · exact Or.inl (List.mem_cons_of_mem _ hmem)
      · exact Or.inr rfl
    · cases h
  · cases h

/-- The words of a statement are words of its line. -/
theorem words_of_readLine
    (h : readLine line latest? tokens = .ok statement) :
    statement.words.Sublist (tokens.filterMap Token.word?) := by
  unfold readLine at h
  split at h
  · cases h
    exact List.nil_sublist _
  · obtain ⟨_, _, rfl, rfl⟩ := readDirective_eq_start h
    exact List.nil_sublist _
  · have hwords := words_of_readAlternatives h
    exact hwords
  · split at h
    · have hwords := words_of_readAlternatives h
      exact hwords
    · cases h
  · cases h

variable {lines : List (List Token)} {statements : List Statement}

theorem mem_names_of_readLines
    {name : String}
    (h : readLines line latest? lines = .ok statements)
    (hname : name ∈ statements.flatMap names) :
    .symbol name ∈ lines.flatten ∨ latest? = some name := by
  induction lines generalizing line latest? statements with
  | nil =>
      cases h
      cases hname
  | cons tokens lines ih =>
      obtain ⟨statement, hread, h⟩ := exists_of_bind_eq_ok h
      obtain ⟨later, hlater, h⟩ := exists_of_bind_eq_ok h
      cases h
      rw [List.flatten_cons, List.mem_append]
      rw [List.flatMap_cons, List.mem_append] at hname
      -- a later line can only take over a head of this line, or one this line could take over
      rcases hname with hname | hname
      · rcases mem_names_of_readLine hread hname with hmem | hlatest
        · exact Or.inl (Or.inl hmem)
        · exact Or.inr hlatest
      · rcases ih hlater hname with hmem | hlatest
        · exact Or.inl (Or.inr hmem)
        · rcases Option.or_eq_some_iff.mp hlatest with hhead | ⟨_, hlatest⟩
          · have hown : name ∈ statement.names := by
              cases statement with
              | productions head bodies =>
                  cases hhead
                  exact List.mem_cons_self
              | blank | start => cases hhead
            rcases mem_names_of_readLine hread hown with hmem | hlatest
            · exact Or.inl (Or.inl hmem)
            · exact Or.inr hlatest
          · exact Or.inr hlatest

theorem words_of_readLines
    (h : readLines line latest? lines = .ok statements) :
    (statements.flatMap words).Sublist (lines.flatten.filterMap Token.word?) := by
  induction lines generalizing line latest? statements with
  | nil =>
      cases h
      exact List.nil_sublist _
  | cons tokens lines ih =>
      obtain ⟨statement, hread, h⟩ := exists_of_bind_eq_ok h
      obtain ⟨later, hlater, h⟩ := exists_of_bind_eq_ok h
      cases h
      rw [List.flatMap_cons, List.flatten_cons, List.filterMap_append]
      exact (words_of_readLine hread).append (ih hlater)

theorem mem_names_of_mem_declarations
    {d : Declaration} {name : String}
    (hd : d ∈ statement.declarations)
    (hitem : d.item = .nonterminal name) :
    name ∈ statement.names := by
  cases statement with
  | productions head bodies =>
      obtain ⟨item, hmem, rfl⟩ := List.mem_map.mp hd
      obtain ⟨body, hbody, hmem⟩ := List.mem_flatMap.mp hmem
      cases hitem
      suffices name = head ∨ name ∈ body.nameList by
        rcases this with rfl | hname
        · exact List.mem_cons_self
        · exact List.mem_cons_of_mem _ (List.mem_flatMap.mpr ⟨body, hbody, hname⟩)
      cases body <;> simpa [bodyItems, Body.nameList] using hmem
  | blank | start => cases hd

end Statement

/-- The word of a lexical rule. -/
def Rule.word? : Rule → Option String
  | binary _ => none
  | lexical _ word => some word

/-- The word of a declared lexical rule. -/
def Item.word? : Item → Option String
  | lexical _ word => some word
  | _ => none

theorem Statement.filterMap_word?_declarations
    (statement : Statement) :
    statement.declarations.filterMap (fun d => d.item.word?) = statement.words := by
  cases statement with
  | productions head bodies =>
      have hbody (body : Body) : (bodyItems head body).filterMap Item.word? = body.wordList := by
        cases body with
        | word text => rfl
        | names list =>
            refine List.filterMap_eq_nil_iff.mpr ?_
            intro item hitem
            cases item with
            | lexical => simp [bodyItems] at hitem
            | nonterminal | production => rfl
      rw [declarations, words, List.filterMap_map, List.filterMap_flatMap]
      exact List.flatMap_congr fun body _ => hbody body
  | blank | start => rfl

namespace Builder

variable {b b' : Builder}

theorem mem_symbols_of_addAll
    {declarations : List Declaration} {name : String}
    (h : b.addAll declarations = .ok b')
    (hname : name ∈ b'.symbols) :
    name ∈ b.symbols ∨ ∃ d ∈ declarations, d.item = .nonterminal name := by
  induction declarations generalizing b with
  | nil =>
      cases h
      exact Or.inl hname
  | cons d rest ih =>
      obtain ⟨next, hnext, h⟩ := exists_of_bind_eq_ok h
      rcases ih h with hold | ⟨d', hd', hitem⟩
      · rcases add_cases hnext with ⟨other, hitem, hadd⟩ | ⟨rule, _, hadd⟩
        · rcases addSymbol_cases hadd with ⟨_, rfl⟩ | ⟨_, rfl⟩
          · exact Or.inl hold
          · rcases List.mem_append.mp hold with hold | hnew
            · exact Or.inl hold
            · rw [← List.mem_singleton.mp hnew] at hitem
              exact Or.inr ⟨d, List.mem_cons_self, hitem⟩
        · rcases addRule_cases hadd with ⟨_, rfl⟩ | ⟨_, rfl⟩ <;> exact Or.inl hold
      · exact Or.inr ⟨d', List.mem_cons_of_mem _ hd', hitem⟩

theorem Describes.word?_eq
    {item : Item} {rule : Rule}
    (h : b.Describes item rule) :
    rule.word? = item.word? := by
  cases item <;> cases rule <;> try exact h.elim
  · rfl
  · exact congrArg some h.2.symm

/-- The words of the rules are those declared, less repeated rules. -/
theorem words_of_addAll
    {declarations : List Declaration}
    (h : b.addAll declarations = .ok b') :
    (b'.rules.filterMap Rule.word?).Sublist
      (b.rules.filterMap Rule.word? ++ declarations.filterMap fun d => d.item.word?) := by
  induction declarations generalizing b with
  | nil =>
      cases h
      rw [List.filterMap_nil, List.append_nil]
  | cons d rest ih =>
      obtain ⟨next, hnext, h⟩ := exists_of_bind_eq_ok h
      refine (ih h).trans ?_
      rw [← List.singleton_append, List.filterMap_append, ← List.append_assoc]
      refine List.Sublist.append ?_ (List.Sublist.refl _)
      rcases add_cases hnext with ⟨other, _, hadd⟩ | ⟨rule, hrule, hadd⟩
      · rcases addSymbol_cases hadd with ⟨_, rfl⟩ | ⟨_, rfl⟩ <;>
          exact List.sublist_append_left _ _
      · rcases addRule_cases hadd with ⟨_, rfl⟩ | ⟨_, rfl⟩
        · exact List.sublist_append_left _ _
        · rw [List.filterMap_append]
          simp [List.filterMap_cons, hrule.word?_eq]

theorem toGrammar_eq_ok_iff
    {start : String} {g : Grammar} :
    b.toGrammar start = .ok g ↔
      ∃ A, b.resolve start = .ok A ∧ b.rules ≠ [] ∧ Grammar.ofRules b.symbols A b.rules = g := by
  unfold toGrammar
  cases b.resolve start with
  | error e => simp [Bind.bind, Except.bind]
  | ok A =>
      cases hrules : b.rules <;> simp [Bind.bind, Except.bind]

end Builder

namespace Grammar

variable {text : List Char} {g : Grammar}

/-- A text describes what its statements declare, if they say what the start symbol is. -/
theorem ofText_eq
    {statements : List Statement}
    (h : statementsOfText text = .ok statements) :
    ofText text = (Statement.startOf? statements).elim (.error .noRules)
      (ofDeclarations (statements.flatMap Statement.declarations)) := by
  rw [ofText, h]
  cases hstart : Statement.startOf? statements with
  | none => simp only [Bind.bind, Except.bind, hstart, Option.elim]
  | some start => simp only [Bind.bind, Except.bind, hstart, Option.elim]

theorem exists_of_ofText
    (h : ofText text = .ok g) :
    ∃ statements start b, statementsOfText text = .ok statements ∧
      Statement.startOf? statements = some start ∧
      Builder.empty.addAll (statements.flatMap Statement.declarations) = .ok b ∧
      b.toGrammar start = .ok g := by
  obtain ⟨statements, hstatements, h⟩ := exists_of_bind_eq_ok h
  split at h
  · cases h
  · rename_i start hstart
    obtain ⟨b, hb, h⟩ := exists_of_bind_eq_ok h
    exact ⟨statements, start, b, hstatements, hstart, hb, h⟩

theorem WellFormed.of_ofText
    (h : ofText text = .ok g) :
    g.WellFormed := by
  obtain ⟨_, _, h⟩ := exists_of_bind_eq_ok h
  split at h
  · cases h
  · exact of_ofDeclarations h

/-- Every symbol of a grammar that was read has a name that is read as one token. -/
theorem isName_of_ofText
    {name : String}
    (h : ofText text = .ok g)
    (hname : name ∈ g.symbols) :
    Token.IsName name := by
  obtain ⟨statements, start, b, hstatements, _, hb, hg⟩ := exists_of_ofText h
  obtain ⟨A, _, _, rfl⟩ := Builder.toGrammar_eq_ok_iff.mp hg
  rcases Builder.mem_symbols_of_addAll hb hname with hempty | ⟨d, hd, hitem⟩
  · cases hempty
  · obtain ⟨statement, hstatement, hd⟩ := List.mem_flatMap.mp hd
    have hmem : name ∈ statements.flatMap Statement.names :=
      List.mem_flatMap.mpr
        ⟨statement, hstatement, Statement.mem_names_of_mem_declarations hd hitem⟩
    rcases Statement.mem_names_of_readLines hstatements hmem with htoken | hnone
    · exact Token.isName_of_mem_ofText ((flatten_splitOn_sublist _ _).subset htoken)
    · cases hnone

/-- The words of a grammar that was read are words of the text, in their order. -/
theorem words_of_ofText
    (h : ofText text = .ok g) :
    (g.rules.filterMap Rule.word?).Sublist (Token.words text) := by
  obtain ⟨statements, start, b, hstatements, _, hb, hg⟩ := exists_of_ofText h
  obtain ⟨A, _, _, rfl⟩ := Builder.toGrammar_eq_ok_iff.mp hg
  have hdeclared := Builder.words_of_addAll hb
  rw [List.filterMap_flatMap] at hdeclared
  simp only [Statement.filterMap_word?_declarations] at hdeclared
  exact hdeclared.trans ((Statement.words_of_readLines hstatements).trans
    ((flatten_splitOn_sublist _ _).filterMap Token.word?))

end Grammar
end ChartParsing
