import ChartParsing.Proofs.SourceFaults
import ChartParsing.Proofs.TokenLexemes
import ChartParsing.Proofs.TrimmedFields

/-!
# The lines that faults are on

A loader counts the new-line tokens in front of a fault.  A new-line that stands in a quoted word
is no token of its own, and is not counted.  So a fault behind a text that can be loaded is said to
be on its line exactly if no word of that text goes over the end of a line.

**Texts.** A text that ends with a new-line and has no unknown token is read by itself: its tokens
come first, whatever text follows it (`Token.ofText_append`).

**Results.**
* `Token.count_newline_eq`: the new-lines of a text are its new-line tokens and those in its words.
* `Loader.fault_behind_iff`: the line that a fault is said to be on, and when it is the right one.
-/

namespace ChartParsing

/-! ## Texts one after the other -/

namespace Token

open Text

variable {cs gap lexeme name rest : List Char} {token : Token} {tokens later : List Token}

theorem spanName_append
    (h : spanName cs = (name, rest))
    (hrest : rest ≠ [])
    (more : List Char) :
    spanName (cs ++ more) = (name, rest ++ more) := by
  induction cs generalizing name with
  | nil =>
      cases h
      exact absurd rfl hrest
  | cons c cs ih =>
      rw [spanName] at h
      split at h
      · rename_i hstop
        cases h
        rw [List.cons_append, spanName, if_pos]
        cases cs with
        | nil =>
            have hchar : (!isNameChar c) = true := hstop
            rw [hchar, Bool.or_true]
        | cons d cs => exact hstop
      · rename_i hkeep
        cases h
        cases cs with
        | nil => exact absurd rfl hrest
        | cons d cs =>
            have hkeep' : ¬ (startsWithArrow (c :: (d :: cs ++ more)) || !isNameChar c) = true :=
              hkeep
            have hspan : spanName (d :: cs ++ more) =
                ((spanName (d :: cs)).1, (spanName (d :: cs)).2 ++ more) := ih rfl
            rw [List.cons_append, spanName, if_neg hkeep', hspan]

theorem LongestStretch.append
    (h : LongestStretch name rest)
    (hrest : rest ≠ [])
    (more : List Char) :
    LongestStretch name (rest ++ more) := by
  have hspan := spanName_append (spanName_of_longestStretch h) hrest more
  exact (spanName_eq_iff.mp hspan).2

theorem AtLineEnd.append
    (h : AtLineEnd cs)
    (hcs : cs ≠ [])
    (more : List Char) :
    AtLineEnd (cs ++ more) := by
  rcases h with rfl | ⟨rest, rfl⟩
  · exact absurd rfl hcs
  · exact .inr ⟨rest ++ more, rfl⟩

theorem Gap.append
    (h : Gap gap rest)
    (hrest : rest ≠ [])
    (more : List Char) :
    Gap gap (rest ++ more) := by
  cases h with
  | blanks hblanks => exact .blanks hblanks
  | comment hblanks hcomment hend => exact .comment hblanks hcomment (hend.append hrest more)

/-- A lexeme that text follows is the same lexeme if more text follows, unless it is unknown. -/
theorem Lexeme.append
    (h : Lexeme token lexeme rest)
    (hknown : ∀ text, token ≠ .unknown text)
    (hrest : rest ≠ [])
    (more : List Char) :
    Lexeme token lexeme (rest ++ more) := by
  cases h with
  | newline => exact .newline _
  | bar => exact .bar _
  | arrow => exact .arrow _
  | symbol hne hname => exact .symbol hne (hname.append hrest more)
  | directive hne hname => exact .directive hne (hname.append hrest more)
  | word hq hbody => exact .word hq hbody _
  | percent | unclosed => exact absurd rfl (hknown _)

theorem Gap.newline_not_mem
    (h : Gap gap rest) :
    '\n' ∉ gap := by
  have hinner {blanks : List Char} (hblanks : ∀ c ∈ blanks, isInnerBlank c = true) :
      '\n' ∉ blanks := by
    intro hmem
    exact absurd (hblanks _ hmem) (by decide)
  cases h with
  | blanks hblanks => exact hinner hblanks
  | comment hblanks hcomment =>
      rw [List.mem_append, List.mem_cons]
      rintro (hmem | hmark | hmem)
      · exact hinner hblanks hmem
      · cases hmark
      · exact hcomment hmem

theorem IsQuote.ne_newline
    {q : Char}
    (hq : IsQuote q) :
    q ≠ '\n' := by
  rcases hq with rfl | rfl <;> decide

theorem LongestStretch.newline_not_mem
    (h : LongestStretch name rest) :
    '\n' ∉ name := by
  intro hmem
  exact absurd (h.nameStretch.isNameChar _ hmem) (by decide)

/-- A lexeme that ends with a new-line is a new-line token, unless it is unknown. -/
theorem Lexeme.eq_newline
    (h : Lexeme token lexeme rest)
    (hend : lexeme.getLast? = some '\n') :
    token = .newline := by
  have hmem : '\n' ∈ lexeme := List.mem_of_getLast? hend
  cases h with
  | newline => rfl
  | bar => cases hend
  | arrow => cases hend
  | symbol hne hname => exact absurd hmem hname.newline_not_mem
  | directive hne hname =>
      rcases List.mem_cons.mp hmem with hpercent | hmem
      · cases hpercent
      · exact absurd hmem hname.newline_not_mem
  | word hq hbody =>
      rw [List.getLast?_cons, List.getLast?_append] at hend
      exact absurd (Option.some.inj hend) hq.ne_newline
  | percent => cases hend
  | unclosed hq _ hline =>
      rcases List.mem_cons.mp hmem with hquote | hmem
      · exact absurd hquote.symm hq.ne_newline
      · exact absurd hmem hline

/-- In a text that ends with a new-line, a lexeme is the same whatever follows the text. -/
theorem Lexeme.append_of_getLast?
    (h : Lexeme token lexeme rest)
    (hknown : ∀ text, token ≠ .unknown text)
    (hend : (lexeme ++ rest).getLast? = some '\n')
    (more : List Char) :
    Lexeme token lexeme (rest ++ more) := by
  cases rest with
  | nil =>
      rw [List.append_nil] at hend
      obtain rfl := h.eq_newline hend
      cases h
      exact .newline _
  | cons c rest => exact h.append hknown (List.cons_ne_nil c rest) more

/-- A text that is empty or ends with a new-line is the same row of gaps and lexemes whatever
follows it, unless a token of it is unknown. -/
theorem Factors.append
    {cs more : List Char}
    (h : Factors cs tokens)
    (hend : cs = [] ∨ cs.getLast? = some '\n')
    (hknown : ∀ text, .unknown text ∉ tokens)
    (hmore : Factors more later) :
    Factors (cs ++ more) (tokens ++ later) := by
  induction h with
  | last hgap =>
      rcases hend with rfl | hend
      · exact hmore
      · exact absurd (List.mem_of_getLast? hend) hgap.newline_not_mem
  | @cons gap lexeme rest token tokens hgap hne hlexeme hrest ih =>
      have hne' : lexeme ++ rest ≠ [] := List.append_ne_nil_of_left_ne_nil hne rest
      have hlast : (lexeme ++ rest).getLast? = some '\n' := by
        rw [List.append_assoc] at hend
        rcases hend with hnil | hend
        · exact absurd (List.append_eq_nil_iff.mp hnil).2 hne'
        · rwa [List.getLast?_append_of_ne_nil _ hne'] at hend
      have hrestEnd : rest = [] ∨ rest.getLast? = some '\n' := by
        by_cases hnil : rest = []
        · exact Or.inl hnil
        · rw [List.getLast?_append_of_ne_nil _ hnil] at hlast
          exact Or.inr hlast
      have htoken (text : String) : token ≠ .unknown text := by
        rintro rfl
        exact hknown text List.mem_cons_self
      have hothers (text : String) : .unknown text ∉ tokens :=
        fun hmem => hknown text (List.mem_cons_of_mem _ hmem)
      have hgap' := hgap.append hne' more
      rw [List.append_assoc] at hgap'
      rw [List.append_assoc, List.cons_append]
      exact .cons hgap' hne (hlexeme.append_of_getLast? htoken hlast more) (ih hrestEnd hothers)

/-- A text without unknown tokens that ends with a new-line is read by itself. -/
theorem ofText_append
    (hend : cs.getLast? = some '\n')
    (hknown : ∀ text, .unknown text ∉ ofText cs)
    (more : List Char) :
    ofText (cs ++ more) = ofText cs ++ ofText more :=
  ((factors_ofText cs).append (.inr hend) hknown (factors_ofText more)).eq_ofText.symm

/-- The last token of such a text is its last new-line. -/
theorem Factors.getLast?_eq_newline
    (h : Factors cs tokens)
    (hend : cs.getLast? = some '\n') :
    tokens.getLast? = some .newline := by
  induction h with
  | last hgap => exact absurd (List.mem_of_getLast? hend) hgap.newline_not_mem
  | @cons gap lexeme rest token tokens hgap hne hlexeme hrest ih =>
      cases rest with
      | nil =>
          rw [List.append_nil, List.getLast?_append_of_ne_nil _ hne] at hend
          obtain rfl := hlexeme.eq_newline hend
          rw [hrest.eq_ofText, ofText_of_next?_eq_none rfl]
          rfl
      | cons c rest =>
          rw [List.getLast?_append_of_ne_nil _ (List.cons_ne_nil c rest)] at hend
          rw [List.getLast?_cons, ih hend]
          rfl

/-! ## New-lines -/

/-- What a token holds of the text in which new-lines can stand. -/
def breakable : Token → List Char
  | newline => ['\n']
  | word text => text.toList
  | _ => []

theorem Lexeme.count_newline
    (h : Lexeme token lexeme rest) :
    lexeme.count '\n' = token.breakable.count '\n' := by
  cases h with
  | newline => rfl
  | bar => rfl
  | arrow => rfl
  | symbol hne hname => exact List.count_eq_zero_of_not_mem hname.newline_not_mem
  | directive hne hname =>
      rw [List.count_cons_of_ne (by decide)]
      exact List.count_eq_zero_of_not_mem hname.newline_not_mem
  | @word q body content hq hbody =>
      rw [List.count_cons_of_ne hq.ne_newline, List.count_append, hbody.count_eq (by decide),
        List.count_singleton, if_neg (by simpa using hq.ne_newline), breakable,
        String.toList_ofList, Nat.add_zero]
  | percent => rfl
  | unclosed hq _ hline =>
      rw [List.count_cons_of_ne hq.ne_newline]
      exact List.count_eq_zero_of_not_mem hline

theorem Factors.count_newline
    (h : Factors cs tokens) :
    cs.count '\n' = (tokens.flatMap breakable).count '\n' := by
  induction h with
  | last hgap => exact List.count_eq_zero_of_not_mem hgap.newline_not_mem
  | cons hgap _ hlexeme _ ih =>
      rw [List.count_append, List.count_append, hlexeme.count_newline, ih,
        List.count_eq_zero_of_not_mem hgap.newline_not_mem, Nat.zero_add, List.flatMap_cons,
        List.count_append]

/-- The new-lines of a text are its new-line tokens and those in its words. -/
theorem count_newline_eq
    (cs : List Char) :
    cs.count '\n' =
      (ofText cs).count .newline + ((words cs).flatMap String.toList).count '\n' := by
  rw [(factors_ofText cs).count_newline, words]
  induction ofText cs with
  | nil => rfl
  | cons token tokens ih =>
      rw [List.flatMap_cons, List.count_append, ih, List.count_cons, List.filterMap_cons]
      cases token with
      | newline | word => simp [breakable, word?]; omega
      | symbol | directive | arrow | bar | unknown => simp [breakable, word?]

end Token

/-! ## Lines one after the other -/

open SourceTokens

theorem SourceLine.unknown_not_mem_tokens
    (l : SourceLine)
    (text : String) :
    .unknown text ∉ l.tokens := by
  have halternatives (alternatives : List NormalBody) :
      .unknown text ∉ alternativeTokens alternatives := by
    intro h
    rcases mem_of_mem_intercalate h with h | ⟨part, hpart, h⟩
    · cases h
    · obtain ⟨a, _, rfl⟩ := List.mem_map.mp hpart
      cases a <;> simp [NormalBody.body, Body.tokens] at h
  cases l <;> simp [tokens, halternatives]

/-- A text that describes a grammar has no unknown tokens. -/
theorem Grammar.unknown_not_mem_of_ofText
    {cs : List Char} {g : Grammar}
    (h : ofText cs = .ok g)
    (text : String) :
    .unknown text ∉ Token.ofText cs := by
  obtain ⟨lines, _, _, hformatted, _⟩ := exists_formatted_of_ofText h
  intro hmem
  have hjoin : [.newline].intercalate ((Token.ofText cs).splitOn .newline) = Token.ofText cs :=
    List.intercalate_splitOn _
  rw [← hjoin, hformatted.lines_eq] at hmem
  rcases mem_of_mem_intercalate hmem with hmem | ⟨line, hline, hmem⟩
  · cases hmem
  · obtain ⟨l, _, rfl⟩ := List.mem_map.mp hline
    exact l.unknown_not_mem_tokens text hmem

/-- The lines of a text that is read by itself, and then those of what follows it. -/
theorem exists_lines_append
    {cs : List Char}
    (hend : cs.getLast? = some '\n')
    (hknown : ∀ text, .unknown text ∉ Token.ofText cs)
    (more : List Char) :
    ∃ before, before.length = (Token.ofText cs).count .newline ∧ lines cs = before ++ [[]] ∧
      lines (cs ++ more) = before ++ lines more := by
  obtain ⟨init, htokens⟩ := List.getLast?_eq_some_iff.mp
    ((Token.factors_ofText cs).getLast?_eq_newline hend)
  refine ⟨init.splitOn .newline, ?_, ?_, ?_⟩
  · rw [length_splitOn, htokens, List.count_append, List.count_singleton_self]
  · rw [lines, htokens, List.splitOn_append_cons_self]
    rfl
  · rw [lines, Token.ofText_append hend hknown, htokens, List.append_assoc, List.singleton_append,
      List.splitOn_append_cons_self]
    rfl

/-! ## Faults on other lines -/

/-- An error on another line. -/
def GrammarError.relocate (line : Nat) : GrammarError → GrammarError
  | malformed _ fault => malformed line fault
  | e => e

theorem Alternative.Faulty.relocate
    {line : Nat} {a : Alternative} {e : GrammarError}
    (h : a.Faulty line e)
    (line' : Nat) :
    a.Faulty line' (e.relocate line') := by
  cases h with
  | empty => exact .empty
  | word hfirst hothers => exact .word hfirst hothers
  | unexpected hfirst hword => exact .unexpected hfirst hword

theorem FaultyAfter.eq_nil
    {earlier : List (List Token)} {line : List Token} {fault : Fault}
    (h : FaultyAfter earlier line (.malformed 1 fault)) :
    earlier = [] := by
  rcases h.malformed_or_notNormalForm with ⟨_, he⟩ | ⟨_, _, he⟩
  · cases earlier with
    | nil => rfl
    | cons => cases he
  · cases he

/-- Only a line without a head depends on the latest head. -/
theorem alternativesOf_eq
    {line : List Token}
    (h : alternativesOf none line ≠ [])
    (latest? : Option String) :
    alternativesOf latest? line = alternativesOf none line := by
  cases Shape.of_tokens line with
  | blank | directive | rule => rfl
  | continuation => exact absurd rfl h
  | other _ hbar hrule => rw [alternativesOf_of_other hbar hrule, alternativesOf_of_other hbar hrule]

/-- A fault of a first line is a fault on every later line, unless a head is missing. -/
theorem FaultyAfter.behind
    {line : List Token} {fault : Fault}
    (h : FaultyAfter [] line (.malformed 1 fault))
    (hfault : fault ≠ .continuationWithoutRule)
    (earlier : List (List Token)) :
    FaultyAfter earlier line (.malformed (earlier.length + 1) fault) := by
  cases h with
  | startWithoutSymbol harguments => exact .startWithoutSymbol harguments
  | unknownDirective hdirective => exact .unknownDirective hdirective
  | continuationWithoutRule => exact absurd rfl hfault
  | unexpected hdirective hbar hrule => exact .unexpected hdirective hbar hrule
  | alternative hfirst =>
      have hsome : alternativesOf none line ≠ [] := by
        intro hnil
        change FirstRefused _ (alternativesOf none line) _ at hfirst
        rw [hnil] at hfirst
        exact not_firstRefused_nil hfirst
      obtain ⟨before, a, after, hsplit, hnone, hfaulty⟩ := hfirst
      refine .alternative ?_
      rw [alternativesOf_eq hsome]
      refine ⟨before, a, after, hsplit, ?_, hfaulty.relocate _⟩
      intro as b bs e hb hrefused
      exact hnone as b bs _ hb (hrefused.relocate _)

namespace Loader

variable {good bad : List Char} {g : Grammar} {fault : Fault}

/-- A fault behind a text that can be loaded is on the line behind its new-line tokens. -/
theorem load_append_of_fault
    (hend : good.getLast? = some '\n')
    (hgood : load good = .ok g)
    (hbad : load bad = .error (.malformed 1 fault))
    (hfault : fault ≠ .continuationWithoutRule) :
    load (good ++ bad) = .error (.malformed (1 + (Token.ofText good).count .newline) fault) := by
  rw [load_eq_ofText] at hgood hbad ⊢
  obtain ⟨before, hlength, hgoodLines, hlines⟩ :=
    exists_lines_append hend (Grammar.unknown_not_mem_of_ofText hgood) bad
  obtain ⟨hnone, _⟩ := Grammar.exists_ofText_iff.mp ⟨g, hgood⟩
  rw [hgoodLines] at hnone
  obtain ⟨earlier, line, later, hbadLines, _, hfaulty⟩ : FirstRefused FaultyAfter (lines bad)
      (.malformed 1 fault) := by
    rcases Grammar.ofText_eq_error_iff.mp hbad with hfirst | ⟨_, hlack⟩
    · exact hfirst
    · cases hlack
  obtain rfl := hfaulty.eq_nil
  rw [hbadLines] at hlines
  rw [← hlength, Nat.add_comm]
  exact Grammar.ofText_of_firstRefused
    ⟨before, line, later, hlines, hnone.of_append, hfaulty.behind hfault before⟩

/-- A fault behind a text that can be loaded is said to be on the line behind the new-line tokens of
that text.  This is its own line exactly if no word of the text goes over the end of a line. -/
theorem fault_behind_iff
    (hend : good.getLast? = some '\n')
    (hgood : load good = .ok g)
    (hbad : load bad = .error (.malformed 1 fault))
    (hfault : fault ≠ .continuationWithoutRule) :
    load (good ++ bad) = .error (.malformed (1 + (Token.ofText good).count .newline) fault) ∧
      (load (good ++ bad) = .error (.malformed (1 + good.count '\n') fault) ↔
        ∀ word ∈ Token.words good, '\n' ∉ word.toList) := by
  have hload := load_append_of_fault hend hgood hbad hfault
  refine ⟨hload, ?_⟩
  have hwords : (∀ word ∈ Token.words good, '\n' ∉ word.toList) ↔
      ((Token.words good).flatMap String.toList).count '\n' = 0 := by
    simp [List.count_eq_zero]
  rw [hload, hwords, Token.count_newline_eq good]
  simp only [Except.error.injEq, GrammarError.malformed.injEq, and_true]
  omega

/-- An unknown directive behind a quote in a comment, and behind a word over two lines. -/
theorem fault_behind_wordRule :
    load "%x".toList = .error (.malformed 1 (.unknownDirective "x")) ∧
      (load "S -> 'a' # it's\n\n".toList = .ok (Grammar.ofRules ["S"] ⟨0⟩ [.lexical ⟨0⟩ "a"]) ∧
        load ("S -> 'a' # it's\n\n".toList ++ "%x".toList) =
          .error (.malformed 3 (.unknownDirective "x"))) ∧
      (load "S -> 'a\nb'\n".toList = .ok (Grammar.ofRules ["S"] ⟨0⟩ [.lexical ⟨0⟩ "a\nb"]) ∧
        load ("S -> 'a\nb'\n".toList ++ "%x".toList) =
          .error (.malformed 2 (.unknownDirective "x"))) := by
  have hbad : load "%x".toList = .error (.malformed 1 (.unknownDirective "x")) := by
    decide +kernel
  have hcomment : load "S -> 'a' # it's\n\n".toList =
      .ok (Grammar.ofRules ["S"] ⟨0⟩ [.lexical ⟨0⟩ "a"]) := by
    decide +kernel
  have hword : load "S -> 'a\nb'\n".toList =
      .ok (Grammar.ofRules ["S"] ⟨0⟩ [.lexical ⟨0⟩ "a\nb"]) := by
    decide +kernel
  have hbehind := fault_behind_iff (by decide +kernel) hcomment hbad nofun
  have hbehind' := fault_behind_iff (by decide +kernel) hword hbad nofun
  have hcount : (Token.ofText "S -> 'a\nb'\n".toList).count .newline = 1 := by
    decide +kernel
  rw [hcount] at hbehind'
  exact ⟨hbad, ⟨hcomment, hbehind.2.mpr (by decide +kernel)⟩, hword, hbehind'.1⟩

/-- A word that goes over the end of a line hides this end from the lines behind it. -/
theorem not_fault_on_own_line :
    ¬ ∀ good bad g fault,
      good.getLast? = some '\n' →
      load good = .ok g →
      load bad = .error (.malformed 1 fault) →
      fault ≠ .continuationWithoutRule →
      load (good ++ bad) = .error (.malformed (1 + good.count '\n') fault) := by
  intro h
  have hgood : load "S -> 'a\nb'\n".toList =
      .ok (Grammar.ofRules ["S"] ⟨0⟩ [.lexical ⟨0⟩ "a\nb"]) := by decide +kernel
  have hbad : load "%x".toList = .error (.malformed 1 (.unknownDirective "x")) := by
    decide +kernel
  have hown := h _ _ _ _ (by decide +kernel) hgood hbad nofun
  have hcounted : load ("S -> 'a\nb'\n".toList ++ "%x".toList) =
      .error (.malformed 2 (.unknownDirective "x")) := by decide +kernel
  cases hcounted.symm.trans hown

end Loader
end ChartParsing
