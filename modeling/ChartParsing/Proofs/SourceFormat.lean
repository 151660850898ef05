import ChartParsing.Proofs.FirstRefusal
import ChartParsing.Proofs.PrintedTokens
import ChartParsing.Proofs.SourceTokens
import Mathlib.Data.Set.List

/-!
# The format of grammar texts

What a grammar text has to look like is said here without a reader.  Its lines are those of
`SourceLine`, where every right side is one word or two names; a line of alternatives follows a
line with a head (`Writes`); and the start symbol occurs in what is written (`Formatted`).

A text in this format is read to its end, since the tokens of its lines are cut at the bars where
they were put together (`Statement.exists_of_writes`).  Read from a text that describes a grammar,
the lines have to be lines of the format (`Statement.exists_writes_of_readLines`): a right side of
any other length passes the reader, but then the rule that it declares is refused.

**Results.**
* `Production.ofDeclarations_eq_ok_iff`: when written productions describe a grammar.
* `Grammar.ofText_eq_ok_iff_formatted`: the texts that describe grammars are those in the format,
  and the grammar is the list of what is written in them.
-/

namespace ChartParsing

/-- A right side in Chomsky normal form. -/
inductive NormalBody
  | word (text : String)
  | pair (left right : String)
  deriving DecidableEq, Repr

/-- A right side in Chomsky normal form as one that may have any number of names. -/
def NormalBody.body : NormalBody → Body
  | word text => .word text
  | pair left right => .names [left, right]

/-- A line of a grammar text.  Alternatives are at least one. -/
inductive SourceLine
  | blank
  | start (name : String)
  | rule (head : String) (first : NormalBody) (others : List NormalBody)
  | continuation (first : NormalBody) (others : List NormalBody)
  deriving DecidableEq, Repr

/-- The tokens of alternatives, with bars between them. -/
def alternativeTokens (alternatives : List NormalBody) : List Token :=
  [.bar].intercalate (alternatives.map fun a => a.body.tokens)

/-- The productions of a head with its alternatives. -/
def productionsOf (head : String) (alternatives : List NormalBody) : List Production :=
  alternatives.map fun a => ⟨head, a.body⟩

namespace SourceLine

/-- The tokens of a line. -/
def tokens : SourceLine → List Token
  | blank => []
  | start name => [.directive "start", .symbol name]
  | rule head first others => .symbol head :: .arrow :: alternativeTokens (first :: others)
  | continuation first others => .bar :: alternativeTokens (first :: others)

/-- The start symbol that a line names. -/
def start? : SourceLine → Option String
  | start name => some name
  | _ => none

/-- The head that a line begins with. -/
def head? : SourceLine → Option String
  | rule head _ _ => some head
  | _ => none

/-- The start symbol of lines: the one named last, or else the first head. -/
def startOf? (lines : List SourceLine) : Option String :=
  (lines.filterMap start?).getLast?.or (lines.filterMap head?).head?

end SourceLine

/-- The start symbol of lines is the one that their tokens say. -/
theorem SourceLine.startOf?_tokens
    (lines : List SourceLine) :
    SourceTokens.startOf? (lines.map tokens) = startOf? lines := by
  have hstart (l : SourceLine) : SourceTokens.start? l.tokens = l.start? := by
    cases l <;> rfl
  have hhead (l : SourceLine) : SourceTokens.head? l.tokens = l.head? := by
    cases l <;> rfl
  simp only [SourceTokens.startOf?, startOf?, List.filterMap_map, Function.comp_def, hstart, hhead]

/-- Lines write productions down, the latest head before them being given. -/
inductive Writes : Option String → List SourceLine → List Production → Prop
  | nil
      {latest? : Option String} :
      Writes latest? [] []
  | blank
      {latest? : Option String} {lines : List SourceLine} {productions : List Production}
      (rest : Writes latest? lines productions) :
      Writes latest? (.blank :: lines) productions
  | start
      {latest? : Option String} {name : String}
      {lines : List SourceLine} {productions : List Production}
      (rest : Writes latest? lines productions) :
      Writes latest? (.start name :: lines) productions
  | rule
      {latest? : Option String} {head : String} {first : NormalBody} {others : List NormalBody}
      {lines : List SourceLine} {productions : List Production}
      (rest : Writes (some head) lines productions) :
      Writes latest? (.rule head first others :: lines)
        (productionsOf head (first :: others) ++ productions)
  | continuation
      {head : String} {first : NormalBody} {others : List NormalBody}
      {lines : List SourceLine} {productions : List Production}
      (rest : Writes (some head) lines productions) :
      Writes (some head) (.continuation first others :: lines)
        (productionsOf head (first :: others) ++ productions)

/-- A text is in the format of grammar texts: its lines write productions down, and the name of
the start symbol occurs in one of them. -/
structure Formatted
    (text : List Char)
    (lines : List SourceLine)
    (productions : List Production)
    (start : String) : Prop where
  lines_eq : (Token.ofText text).splitOn .newline = lines.map SourceLine.tokens
  writes : Writes none lines productions
  ruled : ∃ head first others, .rule head first others ∈ lines
  start_eq : SourceLine.startOf? lines = some start
  start_mem : start ∈ productions.flatMap Production.symbols

/-- Where every result tells its element, the results tell the elements. -/
theorem eq_map_of_mapM
    {ε α β : Type} {f : α → Except ε β} {g : β → α} {xs : List α} {ys : List β}
    (hf : ∀ x y, f x = .ok y → x = g y)
    (h : xs.mapM f = .ok ys) :
    xs = ys.map g := by
  induction xs generalizing ys with
  | nil =>
      cases h
      rfl
  | cons x xs ih =>
      rw [List.mapM_cons] at h
      obtain ⟨y, hy, h⟩ := exists_of_bind_eq_ok h
      obtain ⟨rest, hrest, h⟩ := exists_of_bind_eq_ok h
      cases h
      rw [List.map_cons, ← hf x y hy, ← ih hrest]

/-- A production has a right side in Chomsky normal form. -/
def Production.Normal (p : Production) : Prop :=
  ∃ a : NormalBody, a.body = p.body

theorem Production.normal_word
    (head word : String) :
    (Production.mk head (.word word)).Normal :=
  ⟨.word word, rfl⟩

theorem Production.normal_names_iff
    {head : String} {list : List String} :
    (Production.mk head (.names list)).Normal ↔ list.length = 2 := by
  constructor
  · rintro ⟨a, ha⟩
    cases a with
    | word text => cases ha
    | pair left right =>
        cases ha
        rfl
  · intro h
    obtain ⟨left, right, rfl⟩ := List.length_eq_two.mp h
    exact ⟨.pair left right, rfl⟩

namespace Statement

variable {line : Nat} {head : String} {latest? : Option String}
variable {tokens : List Token} {statement : Statement}

theorem tokens_of_readNames
    {alternative : List Token} {list : List String}
    (h : readNames line head alternative tokens = .ok list) :
    tokens = list.map .symbol := by
  induction tokens generalizing list with
  | nil =>
      cases h
      rfl
  | cons token tokens ih =>
      cases token with
      | symbol name =>
          obtain ⟨rest, hrest, h⟩ := exists_of_bind_eq_ok h
          cases h
          rw [List.map_cons, ← ih hrest]
      | word | directive | arrow | bar | newline | unknown => cases h

theorem tokens_of_readBody
    {body : Body}
    (h : readBody line head tokens = .ok body) :
    tokens = body.tokens := by
  unfold readBody at h
  split at h
  · cases h
  · cases h
    rfl
  · obtain ⟨list, hlist, h⟩ := exists_of_bind_eq_ok h
    cases h
    exact tokens_of_readNames hlist

theorem productionList_productions
    (head : String)
    (alternatives : List NormalBody) :
    (productions head (alternatives.map NormalBody.body)).productionList =
      productionsOf head alternatives := by
  rw [productionList, productionsOf, List.map_map]
  rfl

/-- Alternatives in Chomsky normal form are read as they are written. -/
theorem readAlternatives_alternativeTokens
    (line : Nat)
    (head : String)
    (first : NormalBody)
    (others : List NormalBody) :
    readAlternatives line head (alternativeTokens (first :: others)) =
      .ok (.productions head ((first :: others).map NormalBody.body)) := by
  have hsplit : (alternativeTokens (first :: others)).splitOn .bar =
      (first :: others).map fun a => a.body.tokens := by
    refine List.splitOn_intercalate _ ?_ (List.cons_ne_nil _ _)
    refine List.forall_mem_map.mpr ?_
    intro a _
    cases a <;> simp [NormalBody.body, Body.tokens]
  have hread : (fun a : NormalBody => readBody line head a.body.tokens) =
      fun a => pure a.body := by
    funext a
    cases a <;> rfl
  rw [readAlternatives, hsplit, List.mapM_map]
  change (List.mapM (fun a : NormalBody => readBody line head a.body.tokens) _ >>= _) = _
  rw [hread, List.mapM_pure]
  rfl

/-- Alternatives that are read as right sides in Chomsky normal form are written so. -/
theorem exists_of_readAlternatives
    (h : readAlternatives line head tokens = .ok statement)
    (hnormal : ∀ p ∈ statement.productionList, p.Normal) :
    ∃ first others, tokens = alternativeTokens (first :: others) ∧
      statement.productionList = productionsOf head (first :: others) := by
  obtain ⟨bodies, hbodies, h⟩ := exists_of_bind_eq_ok h
  cases h
  have hparts := eq_map_of_mapM (fun _ _ => tokens_of_readBody) hbodies
  have hrange : bodies ∈ Set.range (List.map NormalBody.body) := by
    rw [Set.range_list_map]
    intro body hbody
    exact hnormal ⟨head, body⟩ (List.mem_map_of_mem hbody)
  obtain ⟨alternatives, rfl⟩ := hrange
  rw [List.map_map] at hparts
  have htokens : tokens = alternativeTokens alternatives := by
    have hjoined : [.bar].intercalate (tokens.splitOn .bar) = tokens := List.intercalate_splitOn _
    rw [← hjoined, hparts]
    rfl
  cases alternatives with
  | nil => exact absurd hparts (List.splitOn_ne_nil _ _)
  | cons first others =>
      exact ⟨first, others, htokens, productionList_productions head (first :: others)⟩

theorem readLines_cons_eq_ok
    {lines : List (List Token)} {statements : List Statement}
    (h : readLine line latest? tokens = .ok statement)
    (hrest : readLines (line + 1) (statement.head?.or latest?) lines = .ok statements) :
    readLines line latest? (tokens :: lines) = .ok (statement :: statements) := by
  rw [readLines, h]
  simp only [Bind.bind, Except.bind, hrest]
  rfl

/-- Lines that write productions down are read, and say these productions. -/
theorem exists_of_writes
    {lines : List SourceLine} {productions : List Production}
    (h : Writes latest? lines productions)
    (line : Nat) :
    ∃ statements, readLines line latest? (lines.map SourceLine.tokens) = .ok statements ∧
      statements.flatMap productionList = productions := by
  induction h generalizing line with
  | nil => exact ⟨[], rfl, rfl⟩
  | blank rest ih =>
      obtain ⟨statements, hread, hproductions⟩ := ih (line + 1)
      exact ⟨.blank :: statements, readLines_cons_eq_ok rfl hread, hproductions⟩
  | @start _ name _ _ rest ih =>
      obtain ⟨statements, hread, hproductions⟩ := ih (line + 1)
      exact ⟨.start name :: statements, readLines_cons_eq_ok rfl hread, hproductions⟩
  | @rule _ head first others _ _ rest ih =>
      obtain ⟨statements, hread, rfl⟩ := ih (line + 1)
      have hline := readAlternatives_alternativeTokens line head first others
      refine ⟨_, readLines_cons_eq_ok hline hread, ?_⟩
      rw [List.flatMap_cons, productionList_productions]
  | @continuation head first others _ _ rest ih =>
      obtain ⟨statements, hread, rfl⟩ := ih (line + 1)
      have hline := readAlternatives_alternativeTokens line head first others
      refine ⟨_, readLines_cons_eq_ok hline hread, ?_⟩
      rw [List.flatMap_cons, productionList_productions]

/-- Lines that are read as productions in Chomsky normal form write these productions down. -/
theorem exists_writes_of_readLines
    {tokenLines : List (List Token)} {statements : List Statement}
    (h : readLines line latest? tokenLines = .ok statements)
    (hnormal : ∀ p ∈ statements.flatMap productionList, p.Normal) :
    ∃ lines, tokenLines = lines.map SourceLine.tokens ∧
      Writes latest? lines (statements.flatMap productionList) := by
  induction tokenLines generalizing line latest? statements with
  | nil =>
      cases h
      exact ⟨[], rfl, .nil⟩
  | cons tokens tokenLines ih =>
      obtain ⟨statement, hread, h⟩ := exists_of_bind_eq_ok h
      obtain ⟨later, hlater, h⟩ := exists_of_bind_eq_ok h
      cases h
      rw [List.flatMap_cons] at hnormal ⊢
      obtain ⟨hthis, hnormal⟩ := List.forall_mem_append.mp hnormal
      obtain ⟨lines, rfl, hwrites⟩ := ih hlater hnormal
      unfold readLine at hread
      split at hread
      · cases hread
        exact ⟨.blank :: lines, rfl, .blank hwrites⟩
      · obtain ⟨name, rfl, rfl, rfl⟩ := readDirective_eq_start hread
        exact ⟨.start name :: lines, rfl, .start hwrites⟩
      · rename_i head rest
        obtain ⟨first, others, rfl, hproductions⟩ := exists_of_readAlternatives hread hthis
        rw [head?_of_readAlternatives hread] at hwrites
        rw [hproductions]
        exact ⟨.rule head first others :: lines, rfl, .rule hwrites⟩
      · split at hread
        · obtain ⟨first, others, rfl, hproductions⟩ := exists_of_readAlternatives hread hthis
          rw [head?_of_readAlternatives hread] at hwrites
          rw [hproductions]
          exact ⟨.continuation first others :: lines, rfl, .continuation hwrites⟩
        · cases hread
      · cases hread

end Statement

namespace Production

/-- The names that written productions declare. -/
theorem declaredNames_declarations
    (productions : List Production) :
    declaredNames (productions.flatMap declarations) = productions.flatMap symbols := by
  rw [declaredNames, List.filterMap_flatMap]
  refine List.flatMap_congr ?_
  intro p _
  have hrule : p.rule.name? = none := by
    obtain ⟨head, body⟩ := p
    cases body <;> rfl
  have hsymbols : (p.symbols.map fun name => (⟨.nonterminal name, .ignored⟩ : Declaration)).filterMap
      (fun d => d.item.name?) = p.symbols := by
    simp [List.filterMap_map, Item.name?]
  rw [declarations_eq, List.filterMap_append, hsymbols, List.filterMap_cons, hrule]
  exact List.append_nil _

/-- The productions that written productions declare. -/
theorem declaredProductions_declarations
    (productions : List Production) :
    declaredProductions (productions.flatMap declarations) = productions := by
  rw [declaredProductions, List.filterMap_flatMap]
  refine Eq.trans (List.flatMap_congr ?_) (List.flatMap_singleton' productions)
  intro p _
  have hrule : p.rule.production? = some p := by
    obtain ⟨head, body⟩ := p
    cases body <;> rfl
  have hsymbols : (p.symbols.map fun name => (⟨.nonterminal name, .ignored⟩ : Declaration)).filterMap
      (fun d => d.item.production?) = [] := by
    simp [List.filterMap_map, Item.production?]
  rw [declarations_eq, List.filterMap_append, hsymbols, List.filterMap_cons, hrule]
  rfl

variable {declared : List Declaration} {p : Production}

/-- Symbols may be declared again if repeats are ignored. -/
theorem accepted_append_symbols
    (h : Accepted declared)
    (names : List String) :
    Accepted (declared ++ names.map fun name => ⟨.nonterminal name, .ignored⟩) := by
  induction names generalizing declared with
  | nil => rwa [List.map_nil, List.append_nil]
  | cons name names ih =>
      rw [List.map_cons, List.append_cons]
      refine ih (accepted_append_singleton h ?_)
      intro e hrefused
      cases hrefused

/-- A rule in Chomsky normal form over declared symbols is accepted if repeats are ignored. -/
theorem accepted_append_rule
    (h : Accepted declared)
    (hp : p.Normal)
    (hnames : ∀ name ∈ p.symbols, name ∈ declaredNames declared) :
    Accepted (declared ++ [⟨p.rule, .ignored⟩]) := by
  refine accepted_append_singleton h ?_
  intro e hrefused
  obtain ⟨head, body⟩ := p
  obtain ⟨a, rfl⟩ := hp
  cases a with
  | word text =>
      cases hrefused with
      | missingHead hhead => exact hhead (hnames head List.mem_cons_self)
  | pair left right =>
      cases hrefused with
      | notTwoNames hbody => exact hbody rfl
      | missingInRule hname =>
          have hmissing := List.find?_some hname
          have hmem := List.mem_of_find?_eq_some hname
          refine absurd (hnames _ ?_) (of_decide_eq_true hmissing)
          simp only [List.mem_cons, List.not_mem_nil, or_false] at hmem
          rcases hmem with rfl | rfl | rfl <;> simp [symbols, NormalBody.body, Body.nameList]

/-- A production in Chomsky normal form is accepted after whatever was accepted. -/
theorem accepted_append_declarations
    (h : Accepted declared)
    (hp : p.Normal) :
    Accepted (declared ++ p.declarations) := by
  rw [declarations_eq, ← List.append_assoc]
  refine accepted_append_rule (accepted_append_symbols h p.symbols) hp ?_
  intro name hname
  simp [declaredNames, Item.name?, hname]

theorem accepted_append_flatMap_declarations
    {productions : List Production}
    (h : Accepted declared)
    (hnormal : ∀ p ∈ productions, p.Normal) :
    Accepted (declared ++ productions.flatMap declarations) := by
  induction productions generalizing declared with
  | nil => rwa [List.flatMap_nil, List.append_nil]
  | cons p productions ih =>
      obtain ⟨hp, hnormal⟩ := List.forall_mem_cons.mp hnormal
      rw [List.flatMap_cons, ← List.append_assoc]
      exact ih (accepted_append_declarations h hp) hnormal

/-- Written productions are accepted exactly if they are in Chomsky normal form. -/
theorem accepted_flatMap_declarations_iff
    {productions : List Production} :
    Accepted (productions.flatMap declarations) ↔ ∀ p ∈ productions, p.Normal := by
  constructor
  · intro h p hp
    obtain ⟨head, body⟩ := p
    cases body with
    | word text => exact normal_word head text
    | names list =>
        refine normal_names_iff.mpr (by_contra fun hlen => ?_)
        have hmem : ⟨.production head list, .ignored⟩ ∈ productions.flatMap declarations := by
          refine List.mem_flatMap.mpr ⟨_, hp, ?_⟩
          simp [declarations_eq, rule]
        obtain ⟨earlier, later, hsplit⟩ := List.append_of_mem hmem
        exact h earlier _ later _ hsplit (.notTwoNames hlen)
  · exact accepted_append_flatMap_declarations accepted_nil

/-- Written productions describe a grammar exactly if they are in Chomsky normal form and the
start symbol occurs in one of them. -/
theorem ofDeclarations_eq_ok_iff
    {productions : List Production} {start : String} {g : Grammar} :
    Grammar.ofDeclarations (productions.flatMap declarations) start = .ok g ↔
      (∀ p ∈ productions, p.Normal) ∧ start ∈ productions.flatMap symbols ∧
        g.Lists (productions.flatMap symbols) productions start := by
  rw [Grammar.ofDeclarations_eq_ok_iff, accepted_flatMap_declarations_iff,
    declaredNames_declarations, declaredProductions_declarations]
  constructor
  · rintro ⟨hnormal, hstart, _, hlists⟩
    exact ⟨hnormal, hstart, hlists⟩
  · rintro ⟨hnormal, hstart, hlists⟩
    refine ⟨hnormal, hstart, ?_, hlists⟩
    rintro rfl
    cases hstart

theorem exists_ofDeclarations
    {productions : List Production} {start : String}
    (hnormal : ∀ p ∈ productions, p.Normal)
    (hstart : start ∈ productions.flatMap symbols) :
    ∃ g, Grammar.ofDeclarations (productions.flatMap declarations) start = .ok g := by
  have haccepted := accepted_flatMap_declarations_iff.mpr hnormal
  rcases Grammar.ofDeclarations_cases (productions.flatMap declarations) start with
    ⟨e, hrefusal, _⟩ | ⟨_, ⟨hmissing, _⟩ | ⟨_, hnone, _⟩ | ⟨_, _, hg⟩⟩
  · exact absurd hrefusal haccepted.not_firstRefusal
  · rw [declaredNames_declarations] at hmissing
    exact absurd hstart hmissing
  · rw [declaredProductions_declarations] at hnone
    rw [hnone] at hstart
    cases hstart
  · exact hg

end Production

variable {latest? : Option String} {text : List Char}
variable {lines : List SourceLine} {productions : List Production} {start : String}

theorem normal_of_mem_productionsOf
    {head : String} {alternatives : List NormalBody} {p : Production}
    (hp : p ∈ productionsOf head alternatives) :
    p.Normal := by
  obtain ⟨a, _, rfl⟩ := List.mem_map.mp hp
  exact ⟨a, rfl⟩

theorem Writes.normal
    (h : Writes latest? lines productions) :
    ∀ p ∈ productions, p.Normal := by
  induction h with
  | nil => exact fun p hp => absurd hp List.not_mem_nil
  | blank rest ih | start rest ih => exact ih
  | rule rest ih | continuation rest ih =>
      exact List.forall_mem_append.mpr ⟨fun p => normal_of_mem_productionsOf, ih⟩

/-- The first production that is written down is in a line with a head. -/
theorem Writes.exists_rule
    {p : Production}
    (h : Writes latest? lines productions)
    (hnone : latest? = none)
    (hp : p ∈ productions) :
    ∃ head first others, .rule head first others ∈ lines := by
  induction h with
  | nil => cases hp
  | blank rest ih | start rest ih =>
      obtain ⟨head, first, others, hmem⟩ := ih hnone hp
      exact ⟨head, first, others, List.mem_cons_of_mem _ hmem⟩
  | rule rest ih => exact ⟨_, _, _, List.mem_cons_self⟩
  | continuation rest ih => cases hnone

/-- A text in the format says what it writes down. -/
theorem Formatted.ofText_eq
    (h : Formatted text lines productions start) :
    Grammar.ofText text =
      Grammar.ofDeclarations (productions.flatMap Production.declarations) start := by
  obtain ⟨statements, hread, rfl⟩ := Statement.exists_of_writes h.writes 1
  have hstatements : Grammar.statementsOfText text = .ok statements := by
    rw [Grammar.statementsOfText, h.lines_eq]
    exact hread
  have hstart : Statement.startOf? statements = some start :=
    (Statement.startOf?_of_readLines hread).trans
      ((SourceLine.startOf?_tokens lines).trans h.start_eq)
  rw [Grammar.ofText_eq hstatements, hstart, ← Statement.flatMap_declarations]
  rfl

namespace Grammar

variable {g : Grammar}

/-- A text that describes a grammar is in the format, and the grammar lists what it writes. -/
theorem exists_formatted_of_ofText
    (h : ofText text = .ok g) :
    ∃ lines productions start, Formatted text lines productions start ∧
      g.Lists (productions.flatMap Production.symbols) productions start := by
  obtain ⟨statements, start, b, hread, hstart, hb, hg⟩ := exists_of_ofText h
  have hdeclared : ofDeclarations
      ((statements.flatMap Statement.productionList).flatMap Production.declarations) start =
        .ok g := by
    rw [← Statement.flatMap_declarations, ofDeclarations, hb]
    exact hg
  obtain ⟨hnormal, hmem, hlists⟩ := Production.ofDeclarations_eq_ok_iff.mp hdeclared
  obtain ⟨lines, hlines, hwrites⟩ := Statement.exists_writes_of_readLines hread hnormal
  obtain ⟨p, hp, _⟩ := List.mem_flatMap.mp hmem
  rw [statementsOfText, hlines] at hread
  refine ⟨lines, _, start, ⟨hlines, hwrites, hwrites.exists_rule rfl hp, ?_, hmem⟩, hlists⟩
  rw [← SourceLine.startOf?_tokens, ← Statement.startOf?_of_readLines hread, hstart]

/-- A text describes the grammar that lists what it writes, if it is in the format. -/
theorem ofText_eq_ok_iff :
    ofText text = .ok g ↔
      ∃ lines productions start, Formatted text lines productions start ∧
        g.Lists (productions.flatMap Production.symbols) productions start := by
  refine ⟨exists_formatted_of_ofText, ?_⟩
  rintro ⟨lines, productions, start, hformatted, hlists⟩
  rw [hformatted.ofText_eq]
  exact Production.ofDeclarations_eq_ok_iff.mpr
    ⟨hformatted.writes.normal, hformatted.start_mem, hlists⟩

/-- The texts that describe grammars are those in the format of grammar texts.  The grammar has
the productions that are written, less repeats, and their symbols by first occurrence. -/
theorem ofText_eq_ok_iff_formatted
    (text : List Char) :
    ((∃ g, ofText text = .ok g) ↔
        ∃ lines productions start, Formatted text lines productions start) ∧
      ∀ g, ofText text = .ok g ↔
        ∃ lines productions start, Formatted text lines productions start ∧
          g.Lists (productions.flatMap Production.symbols) productions start := by
  refine ⟨⟨?_, ?_⟩, fun g => ofText_eq_ok_iff⟩
  · rintro ⟨g, hg⟩
    obtain ⟨lines, productions, start, hformatted, _⟩ := exists_formatted_of_ofText hg
    exact ⟨lines, productions, start, hformatted⟩
  · rintro ⟨lines, productions, start, hformatted⟩
    rw [hformatted.ofText_eq]
    exact Production.exists_ofDeclarations hformatted.writes.normal hformatted.start_mem

example :
    ofText "S -> A S | 'x' # first head\n\n | 'x'\nA -> 'y'\n%start A".toList =
      .ok (ofRules ["S", "A"] ⟨1⟩
        [.binary ⟨⟨0⟩, ⟨1⟩, ⟨0⟩⟩, .lexical ⟨0⟩ "x", .lexical ⟨1⟩ "y"]) := by
  decide +kernel

end Grammar
end ChartParsing
