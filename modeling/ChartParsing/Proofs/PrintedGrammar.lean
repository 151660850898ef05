import ChartParsing.Proofs.PrintedTokens

/-!
# Reading a printed grammar

A grammar that was read from a text and whose words are readable is printed and read back as it
was.

**Reading back.** The lines of the printed grammar are read as its start line, its written rules
and a blank line (`Grammar.statementsOfText_text`).  So the text means the declarations of the
written rules (`Grammar.ofText_text`), and these describe the grammar.

**Results.**
* `Grammar.ofText_text`: what a printed grammar with readable words is read as.
* `Grammar.ofText_text_of_readable`: a grammar that was read before is read back.
-/

namespace ChartParsing

open Text

namespace Production

/-- The line of a production, as a statement. -/
def statement (p : Production) : Statement :=
  .productions p.head [p.body]

theorem readLine_tokens
    {p : Production}
    (hp : p.Named)
    (line : Nat)
    (latest? : Option String) :
    Statement.readLine line latest? p.tokens = .ok p.statement := by
  obtain ⟨head, body⟩ := p
  cases body with
  | word text => rfl
  | names list =>
      obtain ⟨_, left, right, rfl, _, _⟩ := hp
      rfl

theorem newline_not_mem_tokens
    (p : Production) :
    .newline ∉ p.tokens := by
  obtain ⟨head, body⟩ := p
  cases body <;> simp [tokens, Body.tokens]

theorem declarations_statement
    (p : Production) :
    p.statement.declarations = p.declarations := by
  simp [statement, Statement.declarations, declarations]

theorem readLines_tokens
    {list : List Production}
    (hlist : ∀ p ∈ list, p.Named)
    (line : Nat)
    (latest? : Option String) :
    Statement.readLines line latest? (list.map tokens ++ [[]]) =
      .ok (list.map statement ++ [.blank]) := by
  induction list generalizing line latest? with
  | nil => rfl
  | cons p list ih =>
      obtain ⟨hp, hlist⟩ := List.forall_mem_cons.mp hlist
      rw [List.map_cons, List.cons_append, Statement.readLines, readLine_tokens hp]
      simp only [Bind.bind, Except.bind, ih hlist]
      rfl

end Production

namespace Grammar

variable {list : List Production}

theorem linesOf_cons
    (p : Production)
    (list : List Production) :
    linesOf (p :: list) = p.chars ++ '\n' :: linesOf list := by
  simp [linesOf]

theorem ofText_linesOf
    (hnamed : ∀ p ∈ list, p.Named)
    (hreadable : ∀ p ∈ list, p.Readable) :
    Token.ofText (linesOf list) = list.flatMap fun p => p.tokens ++ [.newline] := by
  induction list with
  | nil => exact Token.ofText_of_next?_eq_none rfl
  | cons p list ih =>
      obtain ⟨hp, hnamed⟩ := List.forall_mem_cons.mp hnamed
      obtain ⟨hword, hreadable⟩ := List.forall_mem_cons.mp hreadable
      rw [linesOf_cons, Production.ofText_chars hp hword, ih hnamed hreadable,
        List.flatMap_cons, List.append_assoc, List.singleton_append]

theorem splitOn_newline
    (list : List Production) :
    (list.flatMap fun p => p.tokens ++ [.newline]).splitOn .newline =
      list.map Production.tokens ++ [[]] := by
  induction list with
  | nil => rfl
  | cons p list ih =>
      rw [List.flatMap_cons, List.append_assoc, List.singleton_append,
        List.splitOn_append_cons_self_of_not_mem p.newline_not_mem_tokens, ih]
      rfl

variable {g : Grammar}

/-- The statements of a printed grammar are its start line and its rules. -/
theorem statementsOfText_text
    (hstart : Token.IsName (g.name g.start))
    (hnamed : ∀ p ∈ g.written, p.Named)
    (hreadable : ∀ p ∈ g.written, p.Readable) :
    statementsOfText g.text.toList =
      .ok (.start (g.name g.start) :: (g.written.map Production.statement ++ [.blank])) := by
  have htokens : Token.ofText g.text.toList =
      [.directive "start", .symbol (g.name g.start)] ++
        .newline :: g.written.flatMap fun p => p.tokens ++ [.newline] := by
    rw [toList_text, Token.ofText_start, Token.ofText_name hstart rfl,
      Token.ofText_newline, ofText_linesOf hnamed hreadable]
    rfl
  rw [statementsOfText, htokens, List.splitOn_append_cons_self_of_not_mem (by simp),
    splitOn_newline, Statement.readLines]
  simp only [Production.readLines_tokens hnamed, Bind.bind, Except.bind]
  rfl

theorem startOf?_statements
    (name : String)
    (list : List Production) :
    Statement.startOf? (.start name :: (list.map Production.statement ++ [.blank])) =
      some name := by
  have hnone : (list.map Production.statement).filterMap Statement.start? = [] := by
    refine List.filterMap_eq_nil_iff.mpr ?_
    intro statement hstatement
    obtain ⟨p, _, rfl⟩ := List.mem_map.mp hstatement
    rfl
  have hstarts : (Statement.start name :: (list.map Production.statement ++ [.blank])).filterMap
      Statement.start? = [name] := by
    simp [List.filterMap_append, hnone, Statement.start?]
  rw [Statement.startOf?, hstarts]
  rfl

theorem declarations_statements
    (name : String)
    (list : List Production) :
    (.start name :: (list.map Production.statement ++ [.blank])).flatMap Statement.declarations =
      list.flatMap Production.declarations := by
  have hrules : (list.map Production.statement).flatMap Statement.declarations =
      list.flatMap Production.declarations := by
    rw [List.flatMap_map]
    exact List.flatMap_congr fun p _ => p.declarations_statement
  rw [List.flatMap_cons, List.flatMap_append, hrules]
  simp [Statement.declarations]

/-- A printed grammar with readable words is read as the declarations of its written rules. -/
theorem ofText_text
    (hstart : Token.IsName (g.name g.start))
    (hnamed : ∀ p ∈ g.written, p.Named)
    (hreadable : ∀ p ∈ g.written, p.Readable) :
    ofText g.text.toList =
      ofDeclarations (g.written.flatMap Production.declarations) (g.name g.start) := by
  have hstatements := statementsOfText_text hstart hnamed hreadable
  rw [ofText, hstatements]
  simp only [Bind.bind, Except.bind, startOf?_statements, declarations_statements]

theorem named_of_ofText
    {src : List Char}
    (h : ofText src = .ok g) :
    Token.IsName (g.name g.start) ∧ ∀ p ∈ g.written, p.Named := by
  have hg := WellFormed.of_ofText h
  have hnames : ∀ name ∈ g.symbols, Token.IsName name := fun _ => isName_of_ofText h
  constructor
  · rw [name, List.getD_eq_getElem?_getD, List.getElem?_eq_getElem hg.start_lt]
    exact hnames _ (List.getElem_mem hg.start_lt)
  · intro p hp
    obtain ⟨rule, hrule, rfl⟩ := List.mem_map.mp hp
    exact Rule.named_production hnames (hg.below rule hrule)

/-- A grammar with readable words is read back as it was. -/
theorem ofText_text_of_readable
    {src : List Char}
    (h : ofText src = .ok g)
    (hreadable : ∀ p ∈ g.written, p.Readable) :
    ofText g.text.toList = .ok g := by
  obtain ⟨hstart, hnamed⟩ := named_of_ofText h
  rw [ofText_text hstart hnamed hreadable]
  exact ofDeclarations_written h

end Grammar
end ChartParsing
