import ChartParsing.Proofs.LoadedText

/-!
# Faults of grammar texts

What is wrong with a grammar text is said here from the tokens of its lines, without a reader.  A
line is faulty in view of the lines before it (`FaultyAfter`): it has none of the shapes of lines,
or an alternative in it is neither one word nor a sequence of names (`Alternative.Faulty`).  A text
without a faulty line can still describe no grammar (`Undescriptive`).

**Order.** The first fault counts, line by line, alternative by alternative, and token by token.
An alternative with a wrong number of names is no fault: its rule is refused, and refusals are
reported when all lines have been read.

**Results.**
* `Statement.readLines_eq_error_iff`: the reader stops at the first faulty line.
* `Production.firstRefusal_of_not_normal`: the first production that is not in Chomsky normal form
  is the first refusal.
* `Loader.load_reports_first_fault`: so a loader reports the first fault, and after none of them
  what is missing in the whole text.
-/

namespace ChartParsing

/-! ## Lines as tokens -/

/-- What stands between two bars of a line, or at its ends, for a head. -/
structure Alternative where
  head : String
  tokens : List Token
  deriving DecidableEq, Repr

namespace Alternative

/-- The names in an alternative. -/
def names (a : Alternative) : List String :=
  a.tokens.filterMap Token.symbol?

/-- An alternative is faulty: it is empty, or its first token that is no name is a word among
other tokens or no word. -/
inductive Faulty (line : Nat) : Alternative → GrammarError → Prop
  | empty
      {head : String} :
      Faulty line ⟨head, []⟩ (.malformed line (.emptyAlternative head))
  | word
      {head text : String} {tokens : List Token}
      (hfirst : tokens.find? (·.symbol?.isNone) = some (.word text))
      (hothers : tokens ≠ [.word text]) :
      Faulty line ⟨head, tokens⟩ (.notNormalForm head (tokens.map Token.describe))
  | unexpected
      {head : String} {tokens : List Token} {token : Token}
      (hfirst : tokens.find? (·.symbol?.isNone) = some token)
      (hword : token.word? = none) :
      Faulty line ⟨head, tokens⟩ (.malformed line (.unexpected token))

/-- An alternative has one name or more than two. -/
def Unpaired (a : Alternative) : Prop :=
  a.names.length = 1 ∨ 2 < a.names.length

instance : DecidablePred Unpaired :=
  fun a => inferInstanceAs (Decidable (a.names.length = 1 ∨ 2 < a.names.length))

end Alternative

namespace SourceTokens

/-- The alternatives in a line, cut at the bars. -/
def alternativesOf (latest? : Option String) : List Token → List Alternative
  | .symbol head :: .arrow :: rest => (rest.splitOn .bar).map (⟨head, ·⟩)
  | .bar :: rest =>
      match latest? with
      | some head => (rest.splitOn .bar).map (⟨head, ·⟩)
      | none => []
  | _ => []

/-- The alternatives in lines, the latest head before them being given. -/
def alternatives (latest? : Option String) : List (List Token) → List Alternative
  | [] => []
  | line :: lines =>
      alternativesOf latest? line ++ alternatives ((head? line).or latest?) lines

end SourceTokens

open SourceTokens

/-- A line is faulty after earlier lines.  It is numbered by them, and the head that it may go on
with is theirs. -/
inductive FaultyAfter (earlier : List (List Token)) : List Token → GrammarError → Prop
  | startWithoutSymbol
      {arguments : List Token}
      (harguments : ∀ name, arguments ≠ [.symbol name]) :
      FaultyAfter earlier (.directive "start" :: arguments)
        (.malformed (earlier.length + 1) .startWithoutSymbol)
  | unknownDirective
      {directive : String} {arguments : List Token}
      (hdirective : directive ≠ "start") :
      FaultyAfter earlier (.directive directive :: arguments)
        (.malformed (earlier.length + 1) (.unknownDirective directive))
  | continuationWithoutRule
      {rest : List Token}
      (hrule : latestHead? earlier = none) :
      FaultyAfter earlier (.bar :: rest)
        (.malformed (earlier.length + 1) .continuationWithoutRule)
  | unexpected
      {token : Token} {rest : List Token}
      (hdirective : ∀ directive, token ≠ .directive directive)
      (hbar : token ≠ .bar)
      (hrule : head? (token :: rest) = none) :
      FaultyAfter earlier (token :: rest)
        (.malformed (earlier.length + 1) (.unexpected token))
  | alternative
      {line : List Token} {e : GrammarError}
      (hfirst : FirstRefused (fun _ => Alternative.Faulty (earlier.length + 1))
        (alternativesOf (latestHead? earlier) line) e) :
      FaultyAfter earlier line e

/-- A fault is one of the line, or an alternative that mixes words with other tokens. -/
theorem FaultyAfter.malformed_or_notNormalForm
    {earlier : List (List Token)} {line : List Token} {e : GrammarError}
    (h : FaultyAfter earlier line e) :
    (∃ fault, e = .malformed (earlier.length + 1) fault) ∨
      ∃ head body, e = .notNormalForm head body := by
  cases h with
  | startWithoutSymbol | unknownDirective | continuationWithoutRule | unexpected =>
      exact Or.inl ⟨_, rfl⟩
  | alternative hfirst =>
      obtain ⟨_, a, _, _, _, hfaulty⟩ := hfirst
      cases hfaulty with
      | empty | unexpected => exact Or.inl ⟨_, rfl⟩
      | word => exact Or.inr ⟨_, _, rfl⟩

theorem FirstRefused.malformed_or_notNormalForm
    {lines : List (List Token)} {e : GrammarError}
    (h : FirstRefused FaultyAfter lines e) :
    (∃ line fault, e = .malformed line fault) ∨ ∃ head body, e = .notNormalForm head body := by
  obtain ⟨earlier, line, _, _, _, hfaulty⟩ := h
  exact hfaulty.malformed_or_notNormalForm.imp_left fun ⟨fault, he⟩ => ⟨_, fault, he⟩

/-- Lines of which none is faulty describe no grammar: nothing says what the start symbol is, or
an alternative has a wrong number of names, or the start symbol is in no alternative. -/
inductive Undescriptive (lines : List (List Token)) : GrammarError → Prop
  | noRules
      (hstart : startOf? lines = none) :
      Undescriptive lines .noRules
  | notNormalForm
      {start : String} {a : Alternative}
      (hstart : startOf? lines = some start)
      (hfirst : (alternatives none lines).find? (·.Unpaired) = some a) :
      Undescriptive lines (.notNormalForm a.head a.names)
  | missingSymbol
      {start : String}
      (hstart : startOf? lines = some start)
      (hpaired : ∀ a ∈ alternatives none lines, ¬ a.Unpaired)
      (hmissing : ∀ a ∈ alternatives none lines, start ≠ a.head ∧ start ∉ a.names) :
      Undescriptive lines (.missingSymbol start)

/-- The alternative as which a production is written. -/
def Production.alternative (p : Production) : Alternative :=
  ⟨p.head, p.body.tokens⟩

theorem alternativesOf_of_other
    {latest? : Option String} {token : Token} {rest : List Token}
    (hbar : token ≠ .bar)
    (hrule : head? (token :: rest) = none) :
    alternativesOf latest? (token :: rest) = [] := by
  unfold alternativesOf
  split
  · rename_i h
    rw [h] at hrule
    cases hrule
  · rename_i h
    cases h
    exact absurd rfl hbar
  · rfl

namespace Statement

variable {line : Nat} {head : String} {latest? : Option String}
variable {tokens : List Token} {statement : Statement} {e : GrammarError}

/-! ## Alternatives that are read -/

/-- The names of an alternative are read up to the first token that is no name. -/
theorem readNames_eq
    (line : Nat)
    (head : String)
    (alternative tokens : List Token) :
    readNames line head alternative tokens =
      match tokens.find? (·.symbol?.isNone) with
      | none => .ok (tokens.filterMap Token.symbol?)
      | some (.word _) => .error (.notNormalForm head (alternative.map Token.describe))
      | some token => .error (.malformed line (.unexpected token)) := by
  induction tokens with
  | nil => rfl
  | cons token tokens ih =>
      cases token with
      | symbol name =>
          change (readNames line head alternative tokens >>= fun names => .ok (name :: names)) = _
          have hskip : (Token.symbol name :: tokens).find? (·.symbol?.isNone) =
              tokens.find? (·.symbol?.isNone) := rfl
          rw [ih, hskip]
          cases tokens.find? (·.symbol?.isNone) with
          | none => rfl
          | some other => cases other <;> rfl
      | word | directive | arrow | bar | newline | unknown => rfl

/-- What is wrong with an alternative is said when it is read. -/
theorem readBody_eq_error_iff :
    readBody line head tokens = .error e ↔ Alternative.Faulty line ⟨head, tokens⟩ e := by
  fun_cases readBody line head tokens with
  | case1 =>
      constructor
      · rintro ⟨⟩
        exact .empty
      · rintro (_ | ⟨hfirst, _⟩ | ⟨hfirst, _⟩)
        · rfl
        · cases hfirst
        · cases hfirst
  | case2 text =>
      refine iff_of_false nofun ?_
      rintro (_ | ⟨hfirst, hothers⟩ | ⟨hfirst, hword⟩)
      · cases hfirst
        exact hothers rfl
      · cases hfirst
        cases hword
  | case3 _ hempty hlone =>
      rw [bind_pure_eq_error_iff, readNames_eq]
      constructor
      · intro h
        split at h
        · cases h
        · rename_i text hfirst
          cases h
          exact .word hfirst fun hword => hlone text hword
        · rename_i token hword hfirst
          cases h
          refine .unexpected hfirst ?_
          cases token with
          | word text => exact absurd rfl (hword text)
          | symbol | directive | arrow | bar | newline | unknown => rfl
      · rintro (_ | ⟨hfirst, _⟩ | ⟨hfirst, hword⟩)
        · exact absurd rfl hempty
        · rw [hfirst]
        · rw [hfirst]
          rename_i token
          cases token with
          | word text => cases hword
          | symbol | directive | arrow | bar | newline | unknown => rfl

theorem readAlternatives_eq_error_iff :
    readAlternatives line head tokens = .error e ↔
      FirstRefused (fun _ => Alternative.Faulty line)
        ((tokens.splitOn .bar).map (Alternative.mk head)) e := by
  have hread (a : Alternative) (e : GrammarError) :
      readBody line a.head a.tokens = .error e ↔ a.Faulty line e := readBody_eq_error_iff
  rw [readAlternatives, bind_pure_eq_error_iff, ← mapM_eq_error_iff hread, List.mapM_map]
  rfl

/-- The productions of alternatives that are read are written as the alternatives. -/
theorem alternatives_of_readAlternatives
    (h : readAlternatives line head tokens = .ok statement) :
    (tokens.splitOn .bar).map (Alternative.mk head) =
        statement.productionList.map Production.alternative ∧
      ∀ p ∈ statement.productionList, p.body ≠ .names [] := by
  have hfaultless := (noneRefused_iff_exists fun _ => readAlternatives_eq_error_iff).mpr ⟨_, h⟩
  obtain ⟨bodies, hbodies, h⟩ := exists_of_bind_eq_ok h
  cases h
  have hparts : (tokens.splitOn .bar).map (Alternative.mk head) =
      (productions head bodies).productionList.map Production.alternative := by
    rw [eq_map_of_mapM (fun _ _ => tokens_of_readBody) hbodies, productionList, List.map_map,
      List.map_map]
    rfl
  refine ⟨hparts, ?_⟩
  rintro ⟨head, body⟩ hp rfl
  rw [hparts] at hfaultless
  exact hfaultless.not_of_mem (List.mem_map_of_mem hp) .empty

/-! ## Lines that are read -/

theorem readDirective_eq_error_iff
    {directive : String}
    (earlier : List (List Token)) :
    readDirective (earlier.length + 1) directive tokens = .error e ↔
      FaultyAfter earlier (.directive directive :: tokens) e := by
  constructor
  · intro h
    unfold readDirective at h
    split at h
    · rename_i hstart
      subst hstart
      split at h
      · cases h
      · rename_i hname
        cases h
        exact .startWithoutSymbol hname
    · cases h
      exact .unknownDirective ‹_›
  · rintro (hname | hdirective | _ | ⟨hdirective, _, _⟩ | hfirst)
    · rw [readDirective.eq_2 _ _ _ hname, if_pos rfl]
    · unfold readDirective
      rw [if_neg hdirective]
    · exact absurd rfl (hdirective directive)
    · exact absurd hfirst not_firstRefused_nil

/-- What is wrong with a line is said when it is read. -/
theorem readLine_eq_error_iff
    (earlier : List (List Token)) :
    readLine (earlier.length + 1) (latestHead? earlier) tokens = .error e ↔
      FaultyAfter earlier tokens e := by
  cases Shape.of_tokens tokens with
  | blank =>
      refine iff_of_false nofun ?_
      rintro (_ | _ | _ | _ | hfirst)
      exact not_firstRefused_nil hfirst
  | directive directive arguments => exact readDirective_eq_error_iff earlier
  | rule head rest =>
      rw [readLine, readAlternatives_eq_error_iff]
      constructor
      · exact fun hfirst => .alternative hfirst
      · rintro (_ | _ | _ | ⟨_, _, hrule⟩ | hfirst)
        · cases hrule
        · exact hfirst
  | continuation rest =>
      cases hlatest : latestHead? earlier with
      | none =>
          constructor
          · rintro ⟨⟩
            exact .continuationWithoutRule hlatest
          · rintro (_ | _ | _ | ⟨_, hbar, _⟩ | hfirst)
            · rfl
            · exact absurd rfl hbar
            · rw [hlatest] at hfirst
              exact absurd hfirst not_firstRefused_nil
      | some head =>
          change readAlternatives _ head rest = _ ↔ _
          rw [readAlternatives_eq_error_iff]
          constructor
          · intro hfirst
            refine .alternative ?_
            rw [hlatest]
            exact hfirst
          · rintro (_ | _ | hrule | ⟨_, hbar, _⟩ | hfirst)
            · cases hlatest.symm.trans hrule
            · exact absurd rfl hbar
            · rw [hlatest] at hfirst
              exact hfirst
  | @other token rest hdirective hbar hrule =>
      rw [readLine_of_other hdirective hbar hrule]
      constructor
      · rintro ⟨⟩
        exact .unexpected hdirective hbar hrule
      · rintro (_ | _ | _ | _ | hfirst)
        · exact absurd rfl (hdirective "start")
        · exact absurd rfl (hdirective _)
        · exact absurd rfl hbar
        · rfl
        · rw [alternativesOf_of_other hbar hrule] at hfirst
          exact absurd hfirst not_firstRefused_nil

/-- The productions of a line that is read are written as its alternatives. -/
theorem alternatives_of_readLine
    (h : readLine line latest? tokens = .ok statement) :
    alternativesOf latest? tokens = statement.productionList.map Production.alternative ∧
      ∀ p ∈ statement.productionList, p.body ≠ .names [] := by
  cases Shape.of_tokens tokens with
  | blank =>
      cases h
      exact ⟨rfl, nofun⟩
  | directive directive arguments =>
      obtain ⟨name, rfl, rfl, rfl⟩ := readDirective_eq_start h
      exact ⟨rfl, nofun⟩
  | rule head rest => exact alternatives_of_readAlternatives h
  | continuation rest =>
      cases latest? with
      | none => cases h
      | some head =>
          change readAlternatives line head rest = _ at h
          exact alternatives_of_readAlternatives h
  | other hdirective hbar hrule =>
      cases (readLine_of_other hdirective hbar hrule).symm.trans h

/-! ## Texts that are read -/

variable {lines : List (List Token)} {statements : List Statement}

/-- Lines are read up to the first faulty one. -/
theorem readLines_eq_error_iff
    (earlier lines : List (List Token)) :
    readLines (earlier.length + 1) (latestHead? earlier) lines = .error e ↔
      FirstRefused (fun more => FaultyAfter (earlier ++ more)) lines e := by
  induction lines generalizing earlier with
  | nil => exact iff_of_false nofun not_firstRefused_nil
  | cons line lines ih =>
      rw [readLines, firstRefused_cons_iff, List.append_nil, bind_eq_error_iff,
        readLine_eq_error_iff]
      refine or_congr_right ?_
      simp only [bind_pure_eq_error_iff]
      -- what follows goes on with the head that this line leaves
      have hnext := ih (earlier ++ [line])
      rw [List.length_append, List.length_singleton, latestHead?_append_singleton] at hnext
      simp only [List.append_assoc, List.singleton_append] at hnext
      rw [← hnext]
      simp only [← readLine_eq_error_iff]
      constructor
      · rintro ⟨statement, hread, hrest⟩
        rw [latest_of_readLine hread] at hrest
        exact ⟨by simp [hread], hrest⟩
      · rintro ⟨hread, hrest⟩
        cases hline : readLine (earlier.length + 1) (latestHead? earlier) line with
        | error e' => exact absurd hline (hread e')
        | ok statement =>
            refine ⟨statement, rfl, ?_⟩
            rwa [latest_of_readLine hline]

theorem alternatives_of_readLines
    (h : readLines line latest? lines = .ok statements) :
    alternatives latest? lines =
        (statements.flatMap productionList).map Production.alternative ∧
      ∀ p ∈ statements.flatMap productionList, p.body ≠ .names [] := by
  induction lines generalizing line latest? statements with
  | nil =>
      cases h
      exact ⟨rfl, nofun⟩
  | cons tokens lines ih =>
      obtain ⟨statement, hread, h⟩ := exists_of_bind_eq_ok h
      obtain ⟨later, hlater, h⟩ := exists_of_bind_eq_ok h
      cases h
      rw [latest_of_readLine hread] at hlater
      obtain ⟨hline, hnonempty⟩ := alternatives_of_readLine hread
      obtain ⟨halternatives, hne⟩ := ih hlater
      rw [alternatives, hline, halternatives, List.flatMap_cons, List.map_append]
      exact ⟨rfl, List.forall_mem_append.mpr ⟨hnonempty, hne⟩⟩

end Statement

namespace Production

variable {p : Production} {productions : List Production}

theorem head_alternative
    (p : Production) :
    p.alternative.head = p.head :=
  rfl

theorem names_alternative
    (p : Production) :
    p.alternative.names = p.body.nameList := by
  obtain ⟨head, body⟩ := p
  cases body with
  | word text => rfl
  | names list =>
      rw [Alternative.names, alternative, Body.tokens, List.filterMap_map]
      exact List.filterMap_some

/-- A production that is not empty is in Chomsky normal form if its alternative has no wrong number
of names. -/
theorem unpaired_alternative_iff
    (hp : p.body ≠ .names []) :
    p.alternative.Unpaired ↔ ¬ p.Normal := by
  obtain ⟨head, body⟩ := p
  rw [Alternative.Unpaired, names_alternative]
  cases body with
  | word text => exact iff_of_false (by simp [Body.nameList]) (not_not.mpr (normal_word head text))
  | names list =>
      have hne : list.length ≠ 0 := by
        intro h
        rw [List.eq_nil_of_length_eq_zero h] at hp
        exact hp rfl
      rw [normal_names_iff, Body.nameList]
      omega

/-- The first production that is not in Chomsky normal form is the first refusal. -/
theorem firstRefusal_of_not_normal
    {before : List Production}
    (hbefore : ∀ q ∈ before, q.Normal)
    (hp : ¬ p.Normal)
    (after : List Production) :
    FirstRefusal ((before ++ p :: after).flatMap declarations)
      (.notNormalForm p.head p.body.nameList) := by
  obtain ⟨head, body⟩ := p
  cases body with
  | word text => exact absurd (normal_word head text) hp
  | names list =>
      have haccepted := accepted_append_symbols
        (accepted_flatMap_declarations_iff.mpr hbefore) (Production.mk head (.names list)).symbols
      refine ⟨_, ⟨.production head list, .ignored⟩, after.flatMap declarations, ?_, haccepted,
        .notTwoNames (mt normal_names_iff.mpr hp)⟩
      rw [List.flatMap_append, List.flatMap_cons, declarations_eq]
      simp [rule]

/-- What is reported of written productions is the first of them with a wrong number of names, and
after none of them a start symbol that is in no production. -/
theorem ofDeclarations_eq_error_iff
    {start : String} {e : GrammarError}
    (hne : ∀ p ∈ productions, p.body ≠ .names []) :
    Grammar.ofDeclarations (productions.flatMap declarations) start = .error e ↔
      (∃ a, (productions.map alternative).find? (·.Unpaired) = some a ∧
          e = .notNormalForm a.head a.names) ∨
        (∀ a ∈ productions.map alternative, ¬ a.Unpaired) ∧
          (∀ a ∈ productions.map alternative, start ≠ a.head ∧ start ∉ a.names) ∧
          e = .missingSymbol start := by
  cases hfind : (productions.map alternative).find? (·.Unpaired) with
  | none =>
      have hpaired : ∀ a ∈ productions.map alternative, ¬ a.Unpaired := by
        simpa using hfind
      have hnormal : ∀ p ∈ productions, p.Normal := by
        intro p hp
        have hp' := hpaired p.alternative (List.mem_map_of_mem hp)
        rwa [unpaired_alternative_iff (hne p hp), not_not] at hp'
      have haccepted := accepted_flatMap_declarations_iff.mpr hnormal
      rw [Grammar.ofDeclarations_eq_error_iff, declaredNames_declarations,
        declaredProductions_declarations]
      have hmissing : (∀ a ∈ productions.map alternative, start ≠ a.head ∧ start ∉ a.names) ↔
          start ∉ productions.flatMap symbols := by
        simp only [List.forall_mem_map, head_alternative, names_alternative, List.mem_flatMap,
          symbols, List.mem_cons, not_exists, not_and, not_or, ne_eq]
      constructor
      · rintro (hrefusal | ⟨_, ⟨hstart, rfl⟩ | ⟨hstart, rfl, _⟩⟩)
        · exact absurd hrefusal haccepted.not_firstRefusal
        · exact Or.inr ⟨hpaired, hmissing.mpr hstart, rfl⟩
        · cases hstart
      · rintro (⟨a, ha, _⟩ | ⟨_, hstart, rfl⟩)
        · cases ha
        · exact Or.inr ⟨haccepted, Or.inl ⟨hmissing.mp hstart, rfl⟩⟩
  | some a =>
      obtain ⟨ha, before, after, hsplit, hbefore⟩ := List.find?_eq_some_iff_append.mp hfind
      obtain ⟨earlier, rest, rfl, rfl, hrest⟩ := List.map_eq_append_iff.mp hsplit
      obtain ⟨p, later, rfl, rfl, rfl⟩ := List.map_eq_cons_iff.mp hrest
      obtain ⟨hearlier, hp, _⟩ := List.forall_mem_append.mp hne |>.imp_right List.forall_mem_cons.mp
      have hunpaired : p.alternative.Unpaired := of_decide_eq_true ha
      have hnormal : ∀ q ∈ earlier, q.Normal := by
        intro q hq
        have hq' : ¬ q.alternative.Unpaired := by
          simpa using hbefore q.alternative (List.mem_map_of_mem hq)
        rwa [unpaired_alternative_iff (hearlier q hq), not_not] at hq'
      have hrefusal := firstRefusal_of_not_normal hnormal
        ((unpaired_alternative_iff hp).mp hunpaired) later
      rw [Grammar.ofDeclarations_eq_error_iff.mpr (Or.inl hrefusal), ← names_alternative]
      constructor
      · rintro ⟨⟩
        exact Or.inl ⟨p.alternative, rfl, rfl⟩
      · rintro (⟨a, ha, rfl⟩ | ⟨hpaired, _⟩)
        · cases ha
          rfl
        · exact absurd hunpaired (hpaired _ (List.mem_map_of_mem (by simp)))

end Production

/-! ## Texts -/

namespace Grammar

variable {text : List Char} {e : GrammarError}

/-- A text without a faulty line describes what its alternatives declare. -/
theorem exists_productions
    (h : NoneRefused FaultyAfter (lines text)) :
    ∃ productions : List Production,
      alternatives none (lines text) = productions.map Production.alternative ∧
        (∀ p ∈ productions, p.body ≠ .names []) ∧
        ofText text = (SourceTokens.startOf? (lines text)).elim (.error .noRules)
          (ofDeclarations (productions.flatMap Production.declarations)) := by
  obtain ⟨statements, hread⟩ := (noneRefused_iff_exists
    fun _ => Statement.readLines_eq_error_iff [] (lines text)).mp h
  obtain ⟨halternatives, hne⟩ := Statement.alternatives_of_readLines hread
  refine ⟨_, halternatives, hne, ?_⟩
  have hstatements : statementsOfText text = .ok statements := hread
  rw [ofText_eq hstatements, Statement.startOf?_of_readLines hread, Statement.flatMap_declarations]

theorem ofText_of_firstRefused
    (h : FirstRefused FaultyAfter (lines text) e) :
    ofText text = .error e := by
  have hstatements : statementsOfText text = .error e :=
    (Statement.readLines_eq_error_iff [] (lines text)).mpr h
  rw [ofText, hstatements]
  rfl

/-- Texts are refused for the first faulty line, and after none of them for what they lack. -/
theorem ofText_eq_error_iff :
    ofText text = .error e ↔
      FirstRefused FaultyAfter (lines text) e ∨
        NoneRefused FaultyAfter (lines text) ∧ Undescriptive (lines text) e := by
  rcases noneRefused_or_firstRefused FaultyAfter (lines text) with hnone | ⟨e', hfirst⟩
  · obtain ⟨productions, halternatives, hne, htext⟩ := exists_productions hnone
    have hlack : ofText text = .error e ↔ Undescriptive (lines text) e := by
      rw [htext]
      cases hstart : SourceTokens.startOf? (lines text) with
      | none =>
          rw [Option.elim_none]
          constructor
          · rintro ⟨⟩
            exact .noRules hstart
          · rintro (_ | ⟨hsome, _⟩ | ⟨hsome, _⟩)
            · rfl
            · cases hstart.symm.trans hsome
            · cases hstart.symm.trans hsome
      | some start =>
          rw [Option.elim_some, Production.ofDeclarations_eq_error_iff hne, ← halternatives]
          constructor
          · rintro (⟨a, hfirst, rfl⟩ | ⟨hpaired, hmissing, rfl⟩)
            · exact .notNormalForm hstart hfirst
            · exact .missingSymbol hstart hpaired hmissing
          · rintro (hsome | ⟨_, hfirst⟩ | ⟨hsome, hpaired, hmissing⟩)
            · cases hstart.symm.trans hsome
            · exact Or.inl ⟨_, hfirst, rfl⟩
            · cases hstart.symm.trans hsome
              exact Or.inr ⟨hpaired, hmissing, rfl⟩
    rw [hlack]
    constructor
    · exact fun h => Or.inr ⟨hnone, h⟩
    · rintro (hfirst | ⟨_, h⟩)
      · exact absurd hfirst hnone.not_firstRefused
      · exact h
  · constructor
    · intro h
      cases (ofText_of_firstRefused hfirst).symm.trans h
      exact Or.inl hfirst
    · rintro (h | ⟨hnone, _⟩)
      · exact ofText_of_firstRefused h
      · exact absurd hfirst hnone.not_firstRefused

theorem exists_ofText_iff :
    (∃ g, ofText text = .ok g) ↔
      NoneRefused FaultyAfter (lines text) ∧
        ∃ start, SourceTokens.startOf? (lines text) = some start ∧
          (∀ a ∈ alternatives none (lines text), ¬ a.Unpaired) ∧
          ∃ a ∈ alternatives none (lines text), start = a.head ∨ start ∈ a.names := by
  constructor
  · rintro ⟨g, hg⟩
    have hsound (e : GrammarError) : ofText text ≠ .error e := by
      rw [hg]
      exact nofun
    rcases noneRefused_or_firstRefused FaultyAfter (lines text) with hnone | ⟨e, hfirst⟩
    · have hlack (e : GrammarError) : ¬ Undescriptive (lines text) e :=
        fun h => hsound e (ofText_eq_error_iff.mpr (Or.inr ⟨hnone, h⟩))
      refine ⟨hnone, ?_⟩
      cases hstart : SourceTokens.startOf? (lines text) with
      | none => exact absurd (.noRules hstart) (hlack _)
      | some start =>
          have hpaired : ∀ a ∈ alternatives none (lines text), ¬ a.Unpaired := by
            cases hfind : (alternatives none (lines text)).find? (·.Unpaired) with
            | none => simpa using hfind
            | some a => exact absurd (.notNormalForm hstart hfind) (hlack _)
          refine ⟨start, rfl, hpaired, by_contra fun hmissing => ?_⟩
          refine hlack _ (.missingSymbol hstart hpaired ?_)
          exact fun a ha => not_or.mp fun hmem => hmissing ⟨a, ha, hmem⟩
    · exact absurd (ofText_of_firstRefused hfirst) (hsound e)
  · rintro ⟨hnone, start, hstart, hpaired, a, ha, hmem⟩
    cases htext : ofText text with
    | ok g => exact ⟨g, rfl⟩
    | error e =>
        rcases ofText_eq_error_iff.mp htext with hfirst | ⟨_, hlack⟩
        · exact absurd hfirst hnone.not_firstRefused
        · rcases hlack with hnostart | ⟨_, hfirst⟩ | ⟨hother, _, hmissing⟩
          · cases hstart.symm.trans hnostart
          · have hunpaired := List.find?_some hfirst
            exact absurd (of_decide_eq_true hunpaired)
              (hpaired _ (List.mem_of_find?_eq_some hfirst))
          · cases hstart.symm.trans hother
            exact absurd hmem (not_or.mpr (hmissing a ha))

end Grammar

namespace Loader

/-- A loader reports the first fault in the order of the text, even if an alternative with a wrong
number of names comes before it.  After no fault it reports that there are no rules, or the first
alternative with a wrong number of names, or a start symbol that is in no alternative, and else it
has a grammar.  It reports no repeats, and no other symbol as missing. -/
theorem load_reports_first_fault
    (text : List Char) :
    (∀ e, load text = .error e ↔
        FirstRefused FaultyAfter (lines text) e ∨
          NoneRefused FaultyAfter (lines text) ∧ Undescriptive (lines text) e) ∧
      ((∃ g, load text = .ok g) ↔
        NoneRefused FaultyAfter (lines text) ∧
          ∃ start, SourceTokens.startOf? (lines text) = some start ∧
            (∀ a ∈ alternatives none (lines text), ¬ a.Unpaired) ∧
            ∃ a ∈ alternatives none (lines text), start = a.head ∨ start ∈ a.names) ∧
      (∀ name, load text ≠ .error (.duplicateSymbol name)) ∧
      (∀ head body, load text ≠ .error (.duplicateRule head body)) ∧
      ∀ name, load text = .error (.missingSymbol name) ↔
        NoneRefused FaultyAfter (lines text) ∧ SourceTokens.startOf? (lines text) = some name ∧
          (∀ a ∈ alternatives none (lines text), ¬ a.Unpaired) ∧
          ∀ a ∈ alternatives none (lines text), name ≠ a.head ∧ name ∉ a.names := by
  rw [load_eq_ofText]
  refine ⟨fun e => Grammar.ofText_eq_error_iff, Grammar.exists_ofText_iff, ?_, ?_, ?_⟩
  · intro name h
    rcases Grammar.ofText_eq_error_iff.mp h with hfirst | ⟨_, hlack⟩
    · rcases hfirst.malformed_or_notNormalForm with ⟨_, _, he⟩ | ⟨_, _, he⟩ <;> cases he
    · cases hlack
  · intro head body h
    rcases Grammar.ofText_eq_error_iff.mp h with hfirst | ⟨_, hlack⟩
    · rcases hfirst.malformed_or_notNormalForm with ⟨_, _, he⟩ | ⟨_, _, he⟩ <;> cases he
    · cases hlack
  · intro name
    rw [Grammar.ofText_eq_error_iff]
    constructor
    · rintro (hfirst | ⟨hnone, _ | _ | ⟨hstart, hpaired, hmissing⟩⟩)
      · rcases hfirst.malformed_or_notNormalForm with ⟨_, _, he⟩ | ⟨_, _, he⟩ <;> cases he
      · exact ⟨hnone, hstart, hpaired, hmissing⟩
    · rintro ⟨hnone, hstart, hpaired, hmissing⟩
      exact Or.inr ⟨hnone, .missingSymbol hstart hpaired hmissing⟩

example :
    load "S -> A | 'x'\nA -> 'a' B | -> C\n%begin S".toList =
      .error (.notNormalForm "A" ["'a'", "B"]) := by
  decide +kernel

end Loader
end ChartParsing
