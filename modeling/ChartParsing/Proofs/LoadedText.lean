import ChartParsing.Grammar.Loader
import ChartParsing.Proofs.SourceFormat

/-!
# Loaders and statements

A loader declares symbols and rules while it reads.  The same comes out if a text is read to its
end first, and what its statements declare is followed then: no declaration has a say in whether a
line is faulty, and a faulty line ends the loading whatever was declared.

**Step.** To read a line is to read it as a statement and to follow the statement
(`Loader.readLine_eq`).  A loader declares a head once for a line, and a statement once for each
alternative; the repeats change nothing, as a head that lines go on with is declared
(`Loader.Headed`).

**Results.** `Loader.load_eq_ofText`: a loader loads the grammar that the text describes, or fails
with the same error.
-/

namespace ChartParsing

/-- A loop that reads each element and follows it at once is reading them all, and then following
them all. -/
theorem foldlM_eq_map_mapM
    {ε σ α β : Type} {step : σ → α → Except ε σ} {read : α → Except ε β} {follow : σ → β → σ}
    {Inv : σ → Prop}
    (hstep : ∀ s x, Inv s → step s x = (read x).map (follow s))
    (hkeep : ∀ s y, Inv s → Inv (follow s y))
    {s : σ}
    (hs : Inv s)
    (xs : List α) :
    xs.foldlM step s = (xs.mapM read).map fun ys => ys.foldl follow s := by
  induction xs generalizing s with
  | nil => rfl
  | cons x xs ih =>
      rw [List.foldlM_cons, List.mapM_cons, hstep s x hs]
      cases read x with
      | error e => rfl
      | ok y =>
          change xs.foldlM step (follow s y) = _
          rw [ih (hkeep s y hs)]
          cases xs.mapM read <;> rfl

namespace Draft

variable {d : Draft} {name : String}

theorem symbols_lookup
    (d : Draft)
    (name : String) :
    (d.lookup name).2.symbols = d.symbols := by
  unfold lookup
  split <;> rfl

theorem symbols_addRule
    (d : Draft)
    (repeats : Repeats)
    (rule : Rule) :
    (d.addRule repeats rule).symbols = d.symbols := by
  unfold addRule
  split
  · cases repeats <;> rfl
  · rfl

theorem subset_symbols_addSymbol
    (d : Draft)
    (repeats : Repeats)
    (name : String) :
    d.symbols ⊆ (d.addSymbol repeats name).symbols := by
  unfold addSymbol
  split
  · cases repeats <;> exact List.Subset.refl _
  · exact List.subset_append_left _ _

/-- Only the declaration of a symbol declares one. -/
theorem symbols_add
    (d : Draft)
    {x : Declaration}
    (hitem : ∀ name, x.item ≠ .nonterminal name) :
    (d.add x).symbols = d.symbols := by
  obtain ⟨item, repeats⟩ := x
  cases item with
  | nonterminal name => exact absurd rfl (hitem name)
  | production head body =>
      by_cases hbody : body.length = 2
      · obtain ⟨left, right, rfl⟩ := List.length_eq_two.mp hbody
        simp only [add]
        split <;> simp only [symbols_addRule, symbols_lookup]
      · rw [add_of_length_ne d hbody]
        rfl
  | lexical head word =>
      simp only [add]
      split <;> simp only [symbols_addRule, symbols_lookup]

/-- What is declared stays declared. -/
theorem mem_symbols_add
    (h : name ∈ d.symbols)
    (x : Declaration) :
    name ∈ (d.add x).symbols := by
  obtain ⟨item, repeats⟩ := x
  cases item with
  | nonterminal other => exact d.subset_symbols_addSymbol repeats other h
  | production | lexical => rwa [symbols_add d (by simp)]

theorem mem_symbols_addAll
    (h : name ∈ d.symbols)
    (declarations : List Declaration) :
    name ∈ (d.addAll declarations).symbols := by
  induction declarations generalizing d with
  | nil => exact h
  | cons x rest ih => exact ih (mem_symbols_add h x)

theorem mem_symbols_add_nonterminal
    (d : Draft)
    (name : String) :
    name ∈ (d.add ⟨.nonterminal name, .ignored⟩).symbols := by
  simp only [add, addSymbol]
  split
  · assumption
  · exact List.mem_append_right _ List.mem_cons_self

/-- A repeat that is ignored changes nothing. -/
theorem add_nonterminal_of_mem
    (h : name ∈ d.symbols) :
    d.add ⟨.nonterminal name, .ignored⟩ = d := by
  simp only [add, addSymbol, if_pos h]

theorem addAll_append
    (d : Draft)
    (xs ys : List Declaration) :
    d.addAll (xs ++ ys) = (d.addAll xs).addAll ys :=
  List.foldl_append

/-- The productions of a head declare it first. -/
theorem addAll_declarations_of_declared
    (d : Draft)
    (head : String)
    (body : Body)
    (bodies : List Body) :
    (d.add ⟨.nonterminal head, .ignored⟩).addAll
        (Statement.productions head (body :: bodies)).declarations =
      d.addAll (Statement.productions head (body :: bodies)).declarations := by
  obtain ⟨rest, hrest⟩ : ∃ rest, (Statement.productions head (body :: bodies)).declarations =
      ⟨.nonterminal head, .ignored⟩ :: rest := by
    cases body <;> exact ⟨_, rfl⟩
  rw [hrest, addAll, addAll, List.foldl_cons, List.foldl_cons,
    add_nonterminal_of_mem (d.mem_symbols_add_nonterminal head)]

end Draft

namespace Loader

variable {d : Draft} {l : Loader} {line : Nat} {head : String} {statement : Statement}
variable {tokens : List Token}

/-! ## Alternatives -/

theorem foldlM_addName
    (line : Nat)
    (head : String)
    (alternative tokens : List Token)
    (read : Draft × List String) :
    tokens.foldlM (addName line head alternative) read =
      (Statement.readNames line head alternative tokens).map fun names =>
        (read.1.addAll (names.map fun name => ⟨.nonterminal name, .ignored⟩), read.2 ++ names) := by
  induction tokens generalizing read with
  | nil =>
      obtain ⟨d, names⟩ := read
      simp [Statement.readNames, Except.map, Draft.addAll, pure, Except.pure]
  | cons token tokens ih =>
      rw [List.foldlM_cons]
      cases token with
      | symbol name =>
          change tokens.foldlM (addName line head alternative) _ = _
          rw [ih, Statement.readNames]
          cases Statement.readNames line head alternative tokens with
          | error e => rfl
          | ok names => simp [Except.map, Draft.addAll, bind, Except.bind, pure, Except.pure]
      | word | directive | arrow | bar | newline | unknown => rfl

/-- An alternative of a declared head is read, and then its production is followed. -/
theorem addAlternative_eq
    (hhead : head ∈ d.symbols)
    (tokens : List Token) :
    addAlternative line head d tokens =
      (Statement.readBody line head tokens).map fun body =>
        d.addAll (Production.mk head body).declarations := by
  have hdeclare (rest : List Declaration) :
      d.addAll (⟨.nonterminal head, .ignored⟩ :: rest) = d.addAll rest := by
    rw [Draft.addAll, List.foldl_cons, Draft.add_nonterminal_of_mem hhead]
    rfl
  unfold addAlternative
  split
  · rfl
  · rename_i text
    change .ok (d.addAll [⟨.lexical head text, .ignored⟩]) = Except.ok _
    rw [← hdeclare]
    rfl
  · rename_i hempty hword
    rw [Statement.readBody.eq_3 line head tokens hempty hword, foldlM_addName]
    cases Statement.readNames line head tokens tokens with
    | error e => rfl
    | ok names =>
        refine congrArg Except.ok ?_
        change _ = d.addAll (Production.mk head (.names names)).declarations
        rw [Production.declarations_eq, Production.symbols, List.map_cons, List.cons_append,
          hdeclare, Draft.addAll_append]
        rfl

/-- The alternatives of a declared head are read, and then their productions are followed. -/
theorem addAlternatives_eq
    (hhead : head ∈ d.symbols)
    (tokens : List Token) :
    addAlternatives line head d tokens =
      (Statement.readAlternatives line head tokens).map fun statement =>
        d.addAll statement.declarations := by
  have hstep (d : Draft) (part : List Token) (hd : head ∈ d.symbols) :
      addAlternative line head d part = (Statement.readBody line head part).map fun body =>
        d.addAll (Production.mk head body).declarations :=
    addAlternative_eq hd part
  have hfused := foldlM_eq_map_mapM hstep (fun _ _ hd => Draft.mem_symbols_addAll hd _) hhead
    (tokens.splitOn .bar)
  rw [addAlternatives, hfused, Statement.readAlternatives]
  cases (tokens.splitOn .bar).mapM (Statement.readBody line head) with
  | error e => rfl
  | ok bodies =>
      refine congrArg Except.ok ?_
      change _ = d.addAll (Statement.productions head bodies).declarations
      rw [Statement.declarations_eq, Statement.productionList, List.flatMap_map, Draft.addAll,
        List.foldl_flatMap]
      rfl

/-- Alternatives that are read are at least one. -/
theorem exists_cons_of_readAlternatives
    (h : Statement.readAlternatives line head tokens = .ok statement) :
    ∃ body bodies, statement = .productions head (body :: bodies) := by
  obtain ⟨bodies, hbodies, h⟩ := exists_of_bind_eq_ok h
  cases h
  have hparts := eq_map_of_mapM (fun _ _ => Statement.tokens_of_readBody) hbodies
  cases bodies with
  | nil => exact absurd hparts (List.splitOn_ne_nil _ _)
  | cons body bodies => exact ⟨body, bodies, rfl⟩

/-! ## Lines -/

/-- What a statement changes. -/
def follow (l : Loader) (statement : Statement) : Loader :=
  ⟨l.draft.addAll statement.declarations, statement.start?.or l.start?,
    l.firstHead?.or statement.head?, statement.head?.or l.latestHead?⟩

theorem follow_blank
    (l : Loader) :
    l.follow .blank = l := by
  simp [follow, Statement.declarations, Statement.start?, Statement.head?, Draft.addAll]

theorem follow_start
    (l : Loader)
    (name : String) :
    l.follow (.start name) = { l with start? := some name } := by
  simp [follow, Statement.declarations, Statement.start?, Statement.head?, Draft.addAll]

/-- The head that a loader goes on with is declared, and there was a first head before it. -/
structure Headed (l : Loader) : Prop where
  declared : ∀ head, l.latestHead? = some head → head ∈ l.draft.symbols
  begun : ∀ head, l.latestHead? = some head → ∃ first, l.firstHead? = some first

theorem headed_empty : empty.Headed where
  declared := nofun
  begun := nofun

theorem readDirective_eq
    (l : Loader)
    (line : Nat)
    (directive : String)
    (arguments : List Token) :
    l.readDirective line directive arguments =
      (Statement.readDirective line directive arguments).map l.follow := by
  by_cases hname : ∃ name, arguments = [.symbol name]
  · obtain ⟨name, rfl⟩ := hname
    rw [readDirective, Statement.readDirective]
    split
    · exact congrArg Except.ok (l.follow_start name).symm
    · rfl
  · have hother (name : String) (h : arguments = [.symbol name]) : False := hname ⟨name, h⟩
    rw [readDirective.eq_2 l line directive arguments hother,
      Statement.readDirective.eq_2 line directive arguments hother]
    split <;> rfl

/-- To read a line is to read it as a statement and to follow the statement. -/
theorem readLine_eq
    (hl : l.Headed)
    (line : Nat)
    (tokens : List Token) :
    l.readLine line tokens = (Statement.readLine line l.latestHead? tokens).map l.follow := by
  fun_cases readLine l line tokens with
  | case1 => exact congrArg Except.ok l.follow_blank.symm
  | case2 directive arguments => exact l.readDirective_eq line directive arguments
  | case3 head rest =>
      rw [Statement.readLine, addAlternatives_eq (l.draft.mem_symbols_add_nonterminal head)]
      cases hread : Statement.readAlternatives line head rest with
      | error e => rfl
      | ok statement =>
          obtain ⟨body, bodies, rfl⟩ := exists_cons_of_readAlternatives hread
          have hdraft := l.draft.addAll_declarations_of_declared head body bodies
          exact congrArg (fun draft => Except.ok (Loader.mk draft _ _ _)) hdraft
  | case4 rest head hlatest =>
      rw [hlatest, Statement.readLine, addAlternatives_eq (hl.declared head hlatest)]
      cases hread : Statement.readAlternatives line head rest with
      | error e => rfl
      | ok statement =>
          obtain ⟨body, bodies, rfl⟩ := exists_cons_of_readAlternatives hread
          obtain ⟨first, hfirst⟩ := hl.begun head hlatest
          change Except.ok (Loader.mk _ _ _ _) = Except.ok (Loader.mk _ _ _ _)
          rw [hfirst, hlatest]
          rfl
  | case5 rest hlatest =>
      rw [hlatest]
      rfl
  | case6 token rest hdirective hrule hbar =>
      rw [Statement.readLine.eq_6 line l.latestHead? token rest hdirective hrule hbar]
      rfl

theorem exists_cons_of_readLine
    {latest? : Option String} {bodies : List Body}
    (h : Statement.readLine line latest? tokens = .ok (.productions head bodies)) :
    ∃ body rest, bodies = body :: rest := by
  have hcons {other : String} {part : List Token}
      (h : Statement.readAlternatives line other part = .ok (.productions head bodies)) :
      ∃ body rest, bodies = body :: rest := by
    obtain ⟨body, rest, hproductions⟩ := exists_cons_of_readAlternatives h
    cases hproductions
    exact ⟨body, rest, rfl⟩
  unfold Statement.readLine at h
  split at h
  · cases h
  · obtain ⟨_, _, _, hstart⟩ := Statement.readDirective_eq_start h
    cases hstart
  · exact hcons h
  · split at h
    · exact hcons h
    · cases h
  · cases h

/-- A line that is read keeps a loader headed. -/
theorem Headed.follow
    (hl : l.Headed)
    (hread : Statement.readLine line l.latestHead? tokens = .ok statement) :
    (l.follow statement).Headed := by
  cases statement with
  | blank => rwa [follow_blank]
  | start name =>
      rw [follow_start]
      exact ⟨hl.declared, hl.begun⟩
  | productions head bodies =>
      obtain ⟨body, rest, rfl⟩ := exists_cons_of_readLine hread
      have hdeclared := Draft.mem_symbols_addAll (l.draft.mem_symbols_add_nonterminal head)
        (Statement.productions head (body :: rest)).declarations
      rw [Draft.addAll_declarations_of_declared] at hdeclared
      refine ⟨?_, ?_⟩
      · rintro _ ⟨⟩
        exact hdeclared
      · rintro _ ⟨⟩
        cases hfirst : l.firstHead? with
        | none => exact ⟨head, by simp [Loader.follow, hfirst, Statement.head?]⟩
        | some first => exact ⟨first, by simp [Loader.follow, hfirst]⟩

/-! ## Texts -/

/-- To read lines is to read them all as statements and to follow these. -/
theorem readLines_eq
    (hl : l.Headed)
    (line : Nat)
    (lines : List (List Token)) :
    l.readLines line lines =
      (Statement.readLines line l.latestHead? lines).map fun statements =>
        statements.foldl follow l := by
  induction lines generalizing l line with
  | nil => rfl
  | cons tokens lines ih =>
      rw [readLines, Statement.readLines, readLine_eq hl]
      cases hread : Statement.readLine line l.latestHead? tokens with
      | error e => rfl
      | ok statement =>
          change (l.follow statement).readLines (line + 1) lines = _
          rw [ih (hl.follow hread)]
          change _ = Except.map _ (Statement.readLines (line + 1) (statement.head?.or _) lines >>= _)
          change (Statement.readLines (line + 1) (statement.head?.or _) lines).map _ = _
          cases Statement.readLines (line + 1) (statement.head?.or l.latestHead?) lines <;> rfl

/-- What statements change: their declarations are followed, the start symbol is the last that they
name, and the first head is theirs if there was none. -/
theorem foldl_follow
    (l : Loader)
    (statements : List Statement) :
    (statements.foldl follow l).draft =
        l.draft.addAll (statements.flatMap Statement.declarations) ∧
      (statements.foldl follow l).start? =
        (statements.filterMap Statement.start?).getLast?.or l.start? ∧
      (statements.foldl follow l).firstHead? =
        l.firstHead?.or (statements.filterMap Statement.head?).head? := by
  induction statements generalizing l with
  | nil => simp [Draft.addAll]
  | cons statement statements ih =>
      obtain ⟨hdraft, hstart, hfirst⟩ := ih (l.follow statement)
      rw [List.foldl_cons, hdraft, hstart, hfirst, List.flatMap_cons, Draft.addAll_append]
      refine ⟨rfl, ?_, ?_⟩
      · rw [List.filterMap_cons]
        cases hname : statement.start? with
        | none => simp [follow, hname]
        | some name => cases h : (statements.filterMap Statement.start?).getLast? <;>
            simp [follow, hname, List.getLast?_cons, h]
      · rw [List.filterMap_cons]
        cases hhead : statement.head? <;> simp [follow, hhead]

/-- A loader loads the grammar that the text describes, or fails with the same error. -/
theorem load_eq_ofText
    (text : List Char) :
    load text = Grammar.ofText text := by
  have hlines : empty.readLines 1 ((Token.ofText text).splitOn .newline) =
      (Grammar.statementsOfText text).map fun statements => statements.foldl follow empty :=
    readLines_eq headed_empty 1 _
  rw [load, hlines]
  cases hread : Grammar.statementsOfText text with
  | error e =>
      rw [Grammar.ofText, hread]
      rfl
  | ok statements =>
      obtain ⟨hdraft, hstart, hfirst⟩ := empty.foldl_follow statements
      have hstartOf : (statements.foldl follow empty).start?.or
          (statements.foldl follow empty).firstHead? = Statement.startOf? statements := by
        rw [hstart, hfirst]
        exact congrArg (Option.or · _) Option.or_none
      rw [Grammar.ofText_eq hread]
      change (statements.foldl follow empty).toGrammar = _
      rw [toGrammar, hstartOf, hdraft]
      cases Statement.startOf? statements with
      | none => rfl
      | some start => exact Draft.toGrammar_addAll _ start

end Loader
end ChartParsing
