import ChartParsing.Proofs.TokenizerRuns
import Mathlib.Data.List.Infix

/-!
# Gaps and lexemes

A text is a row of gaps and lexemes, one lexeme for each of its tokens: nothing of it is lost and
nothing is invented.  Gaps and lexemes are described here by themselves, without a tokenizer.  A
lexeme is described with the text behind it, as the end of a name and a quote that is never closed
depend on it.

**Results.**
* `spanName_eq_iff`: a name is read as far as it can be.
* `next?_eq_some_iff`, `next?_eq_none_iff`: one step reads one gap and one lexeme.
* `tokenizes_iff_factors`: a tokenizer stops on every text, with the tokens of its one row of gaps
  and lexemes.
-/

namespace ChartParsing
namespace Token

open Text

/-! ## Names in a text -/

/-- A stretch of a text that can be a name: it has characters of names only, and no arrow begins
in it, not even one that ends behind it. -/
structure NameStretch (stretch rest : List Char) : Prop where
  isNameChar : ∀ c ∈ stretch, isNameChar c = true
  no_arrow : ¬ ['-', '>'] <:+: stretch ++ rest.take 1

/-- A stretch that can be a name, and cannot any more when the text behind is added to it. -/
structure LongestStretch (stretch rest : List Char) : Prop where
  nameStretch : NameStretch stretch rest
  maximal : ∀ more after, rest = more ++ after → NameStretch (stretch ++ more) after → more = []

variable {cs gap lexeme name rest : List Char} {c : Char} {token : Token} {tokens : List Token}

theorem arrow_prefix_iff
    (cs : List Char) :
    ['-', '>'] <+: cs ↔ startsWithArrow cs = true := by
  match cs with
  | [] => simp [startsWithArrow]
  | [c] => simp [startsWithArrow, List.cons_prefix_cons]
  | c :: d :: cs =>
      simp only [startsWithArrow, List.cons_prefix_cons, List.nil_prefix, and_true,
        Bool.and_eq_true, beq_iff_eq]
      exact and_congr eq_comm eq_comm

/-- Whether an arrow begins with a character is seen from the one behind it. -/
theorem startsWithArrow_take
    (c : Char)
    (cs rest : List Char) :
    startsWithArrow (c :: (cs ++ rest.take 1)) = startsWithArrow (c :: (cs ++ rest)) := by
  rw [startsWithArrow_cons, startsWithArrow_cons, List.head?_append,
    List.head?_append, List.head?_take, if_neg Nat.one_ne_zero]

theorem nameStretch_nil
    (rest : List Char) :
    NameStretch [] rest where
  isNameChar c hc := by cases hc
  no_arrow h := by
    have hlen : 2 ≤ (rest.take 1).length := h.length_le
    rw [List.length_take] at hlen
    omega

/-- The step of a name: its first character does not end it. -/
theorem nameStretch_cons_iff
    (c : Char)
    (stretch rest : List Char) :
    NameStretch (c :: stretch) rest ↔
      ¬ (startsWithArrow (c :: (stretch ++ rest)) || !Token.isNameChar c) = true ∧
        NameStretch stretch rest := by
  have harrow : ['-', '>'] <:+: c :: (stretch ++ rest.take 1) ↔
      startsWithArrow (c :: (stretch ++ rest)) = true ∨ ['-', '>'] <:+: stretch ++ rest.take 1 := by
    rw [List.infix_cons_iff, arrow_prefix_iff, startsWithArrow_take]
  simp only [Bool.or_eq_true, Bool.not_eq_true', not_or, Bool.not_eq_false]
  constructor
  · rintro ⟨hchar, hnone⟩
    rw [List.cons_append, harrow, not_or] at hnone
    exact ⟨⟨hnone.1, hchar c (List.mem_cons_self ..)⟩,
      fun d hd => hchar d (List.mem_cons_of_mem c hd), hnone.2⟩
  · rintro ⟨⟨hfront, hc⟩, hchar, hnone⟩
    refine ⟨List.forall_mem_cons.mpr ⟨hc, hchar⟩, ?_⟩
    rw [List.cons_append, harrow, not_or]
    exact ⟨hfront, hnone⟩

theorem longestStretch_spanName
    (cs : List Char) :
    cs = (spanName cs).1 ++ (spanName cs).2 ∧
      LongestStretch (spanName cs).1 (spanName cs).2 := by
  induction cs with
  | nil =>
      refine ⟨rfl, nameStretch_nil _, fun more after hrest _ => ?_⟩
      exact (List.append_eq_nil_iff.mp hrest.symm).1
  | cons c cs ih =>
      obtain ⟨htext, hstretch, hmaximal⟩ := ih
      rw [spanName]
      split
      · rename_i hstop
        refine ⟨rfl, nameStretch_nil _, fun more after hrest hmore => ?_⟩
        cases more with
        | nil => rfl
        | cons d more =>
            cases hrest
            exact absurd hstop ((nameStretch_cons_iff ..).mp hmore).1
      · rename_i hkeep
        refine ⟨congrArg (c :: ·) htext, (nameStretch_cons_iff ..).mpr ⟨?_, hstretch⟩, ?_⟩
        · rwa [← htext]
        · intro more after hrest hmore
          exact hmaximal more after hrest ((nameStretch_cons_iff ..).mp hmore).2

theorem spanName_of_longestStretch
    (h : LongestStretch name rest) :
    spanName (name ++ rest) = (name, rest) := by
  obtain ⟨hstretch, hmaximal⟩ := h
  induction name with
  | nil =>
      cases rest with
      | nil => rfl
      | cons c rest =>
          rw [List.nil_append, spanName, if_pos]
          by_contra hkeep
          have hmore : NameStretch [c] rest :=
            (nameStretch_cons_iff ..).mpr ⟨hkeep, nameStretch_nil rest⟩
          exact absurd (hmaximal [c] rest rfl hmore) (List.cons_ne_nil _ _)
  | cons c name ih =>
      obtain ⟨hkeep, hname⟩ := (nameStretch_cons_iff ..).mp hstretch
      have hlongest : ∀ more after, rest = more ++ after →
          NameStretch (name ++ more) after → more = [] := by
        rintro more after rfl hmore
        rw [← List.append_assoc] at hkeep
        exact hmaximal more after rfl ((nameStretch_cons_iff ..).mpr ⟨hkeep, hmore⟩)
      rw [List.cons_append, spanName, if_neg hkeep, ih hname hlongest]

/-- A name is read as far as it can be. -/
theorem spanName_eq_iff :
    spanName cs = (name, rest) ↔ cs = name ++ rest ∧ LongestStretch name rest := by
  constructor
  · intro h
    have hspan := longestStretch_spanName cs
    rwa [h] at hspan
  · rintro ⟨rfl, hlongest⟩
    exact spanName_of_longestStretch hlongest

/-! ## Gaps -/

/-- A text that ends, or whose line does. -/
def AtLineEnd (cs : List Char) : Prop :=
  cs = [] ∨ ∃ rest, cs = '\n' :: rest

/-- A gap, with the text behind it: a run of blanks none of which ends a line, and maybe a comment
up to the end of its line. -/
inductive Gap : List Char → List Char → Prop
  | blanks
      {blanks rest : List Char}
      (hblanks : ∀ c ∈ blanks, isInnerBlank c = true) :
      Gap blanks rest
  | comment
      {blanks comment rest : List Char}
      (hblanks : ∀ c ∈ blanks, isInnerBlank c = true)
      (hcomment : '\n' ∉ comment)
      (hend : AtLineEnd rest) :
      Gap (blanks ++ '#' :: comment) rest

/-- No gap goes on with this text. -/
def EndsGap (cs : List Char) : Prop :=
  ∀ c ∈ cs.head?, isInnerBlank c = false ∧ c ≠ '#'

theorem atLineEnd_dropWhile
    (cs : List Char) :
    AtLineEnd (cs.dropWhile (· != '\n')) := by
  cases hrest : cs.dropWhile (· != '\n') with
  | nil => exact .inl rfl
  | cons c rest =>
      have hc : c = '\n' := by
        have hhead := List.head?_dropWhile_not (· != '\n') cs
        simpa [hrest] using hhead
      exact .inr ⟨rest, by rw [hc]⟩

theorem not_mem_takeWhile
    (cs : List Char) :
    '\n' ∉ cs.takeWhile (· != '\n') := by
  intro hmem
  simpa using List.mem_takeWhile_imp hmem

/-- Up to the end of a line is as far as its characters go. -/
theorem span_line
    {line : List Char}
    (hline : '\n' ∉ line)
    (hend : AtLineEnd rest) :
    (line ++ rest).takeWhile (· != '\n') = line ∧ (line ++ rest).dropWhile (· != '\n') = rest := by
  have hinside : ∀ c ∈ line, (c != '\n') = true := by
    rintro c hc
    rw [bne_iff_ne]
    rintro rfl
    exact hline hc
  rw [List.takeWhile_append_of_pos hinside, List.dropWhile_append_of_pos hinside]
  rcases hend with rfl | ⟨rest, rfl⟩ <;> simp

theorem AtLineEnd.endsGap
    (h : AtLineEnd cs) :
    EndsGap cs := by
  rcases h with rfl | ⟨rest, rfl⟩
  · intro c hc
    cases hc
  · rintro c ⟨⟩
    decide

/-- A gap is skipped up to the text that ends it. -/
theorem skipGap_append
    (hgap : Gap gap rest)
    (hrest : EndsGap rest) :
    skipGap (gap ++ rest) = rest := by
  cases hgap with
  | blanks hblanks =>
      rw [skipGap, List.dropWhile_append_of_pos hblanks]
      cases rest with
      | nil => rfl
      | cons c rest =>
          obtain ⟨hblank, hcomment⟩ := hrest c rfl
          rw [List.dropWhile_cons_of_neg (by simp [hblank])]
          exact if_neg hcomment
  | @comment blanks comment _ hblanks hcomment hend =>
      have hmark : isInnerBlank '#' = false := by decide
      rw [skipGap, List.append_assoc, List.dropWhile_append_of_pos hblanks, List.cons_append,
        List.dropWhile_cons_of_neg (by simp [hmark])]
      exact (span_line hcomment hend).2

theorem exists_gap
    (cs : List Char) :
    ∃ gap, cs = gap ++ skipGap cs ∧ Gap gap (skipGap cs) ∧ EndsGap (skipGap cs) := by
  have hblanks : ∀ c ∈ cs.takeWhile isInnerBlank, isInnerBlank c = true :=
    fun c hc => List.mem_takeWhile_imp hc
  have htext : cs.takeWhile isInnerBlank ++ cs.dropWhile isInnerBlank = cs :=
    List.takeWhile_append_dropWhile
  have hend := List.head?_dropWhile_not isInnerBlank cs
  unfold skipGap
  generalize cs.takeWhile isInnerBlank = blanks at hblanks htext
  generalize cs.dropWhile isInnerBlank = rest at htext hend
  subst htext
  cases rest with
  | nil => exact ⟨blanks, rfl, .blanks hblanks, fun c hc => by cases hc⟩
  | cons c rest =>
      by_cases hc : c = '#'
      · subst hc
        have hline : rest.takeWhile (· != '\n') ++ rest.dropWhile (· != '\n') = rest :=
          List.takeWhile_append_dropWhile
        have hlineEnd := atLineEnd_dropWhile rest
        refine ⟨blanks ++ '#' :: rest.takeWhile (· != '\n'), ?_,
          .comment hblanks (not_mem_takeWhile rest) hlineEnd, hlineEnd.endsGap⟩
        simp only [if_pos, List.append_assoc, List.cons_append, hline]
      · simp only [if_neg hc]
        refine ⟨blanks, rfl, .blanks hblanks, ?_⟩
        rintro d ⟨⟩
        exact ⟨by simpa using hend, hc⟩

/-! ## Lexemes -/

/-- The lexeme that a token is read from, with the text behind it. -/
inductive Lexeme : Token → List Char → List Char → Prop
  | newline (rest : List Char) : Lexeme .newline ['\n'] rest
  | bar (rest : List Char) : Lexeme .bar ['|'] rest
  | arrow (rest : List Char) : Lexeme .arrow ['-', '>'] rest
  | symbol
      {name rest : List Char}
      (hne : name ≠ [])
      (hname : LongestStretch name rest) :
      Lexeme (.symbol (String.ofList name)) name rest
  | directive
      {name rest : List Char}
      (hne : name ≠ [])
      (hname : LongestStretch name rest) :
      Lexeme (.directive (String.ofList name)) ('%' :: name) rest
  | word
      {q : Char} {body content : List Char}
      (hq : IsQuote q)
      (hbody : Quoted.Spells q body content)
      (rest : List Char) :
      Lexeme (.word (String.ofList content)) (q :: (body ++ [q])) rest
  /-- A percent sign that no name follows. -/
  | percent
      {rest : List Char}
      (hname : ∀ name after, rest = name ++ after → LongestStretch name after → name = []) :
      Lexeme (.unknown "%") ['%'] rest
  /-- A quote that no later one closes, with the rest of its line. -/
  | unclosed
      {q : Char} {line rest : List Char}
      (hq : IsQuote q)
      (hopen : ∀ body content after, Quoted.Spells q body content →
        line ++ rest ≠ body ++ q :: after)
      (hline : '\n' ∉ line)
      (hend : AtLineEnd rest) :
      Lexeme (.unknown (String.ofList (q :: line))) (q :: line) rest

theorem Lexeme.ne_nil
    (h : Lexeme token lexeme rest) :
    lexeme ≠ [] := by
  cases h with
  | symbol hne => exact hne
  | _ => exact List.cons_ne_nil _ _

/-- A text that is a row of gaps and lexemes, one lexeme for each token. -/
inductive Factors : List Char → List Token → Prop
  | last
      {gap : List Char}
      (hgap : Gap gap []) :
      Factors gap []
  | cons
      {gap lexeme rest : List Char} {token : Token} {tokens : List Token}
      (hgap : Gap gap (lexeme ++ rest))
      (hne : lexeme ≠ [])
      (hlexeme : Lexeme token lexeme rest)
      (hrest : Factors rest tokens) :
      Factors (gap ++ lexeme ++ rest) (token :: tokens)

theorem isNameChar_or_isQuote
    (hgap : EndsGap (c :: cs))
    (hnewline : c ≠ '\n')
    (hbar : c ≠ '|')
    (hpercent : c ≠ '%') :
    Token.isNameChar c = true ∨ IsQuote c := by
  obtain ⟨hblank, hcomment⟩ := hgap c rfl
  have hblank : isBlank c = false := by simpa [isInnerBlank, hnewline] using hblank
  by_cases hquote : IsQuote c
  · exact .inr hquote
  · exact .inl ((isNameChar_iff c).mpr ⟨hblank, hquote, hbar, hcomment, hpercent⟩)

/-- A text that begins with a quote or a name is read as a lexeme. -/
theorem exists_lexeme_of_scanText
    (hstart : Token.isNameChar c = true ∨ IsQuote c)
    (harrow : startsWithArrow (c :: cs) = false)
    (h : scanText c cs = (token, rest)) :
    ∃ lexeme, c :: cs = lexeme ++ rest ∧ Lexeme token lexeme rest := by
  unfold scanText at h
  split at h
  · rename_i content _ hword
    cases h
    obtain ⟨q, hq, hscan⟩ := exists_scan_of_scanWord hword
    obtain ⟨body, htext, hbody⟩ := (Quoted.scan_eq_some_iff hq.ne_backslash).mp hscan
    exact ⟨q :: (body ++ [q]), by simpa using htext, .word hq hbody rest⟩
  · rename_i hword
    split at h
    · rename_i hname
      cases h
      have hquote : IsQuote c := by
        refine hstart.resolve_left fun hchar => ?_
        rw [spanName, if_neg (by simp [harrow, hchar])] at hname
        cases hname
      rw [scanWord_quote hquote, Quoted.scan_quote_eq_none_iff hquote.ne_backslash] at hword
      have hline : cs.takeWhile (· != '\n') ++ cs.dropWhile (· != '\n') = cs :=
        List.takeWhile_append_dropWhile
      refine ⟨c :: cs.takeWhile (· != '\n'), by rw [List.cons_append, hline],
        .unclosed hquote ?_ (not_mem_takeWhile cs) (atLineEnd_dropWhile cs)⟩
      rwa [hline]
    · rename_i name _ hne hname
      cases h
      obtain ⟨htext, hlongest⟩ := spanName_eq_iff.mp hname
      exact ⟨name, htext, .symbol hne hlongest⟩

theorem exists_lexeme_of_scan
    (hgap : EndsGap (c :: cs))
    (h : scan c cs = (token, rest)) :
    ∃ lexeme, c :: cs = lexeme ++ rest ∧ Lexeme token lexeme rest := by
  unfold scan at h
  split_ifs at h with hnewline hbar harrow hpercent
  · cases h
    exact ⟨['\n'], by rw [hnewline]; rfl, .newline cs⟩
  · cases h
    exact ⟨['|'], by rw [hbar]; rfl, .bar cs⟩
  · cases h
    obtain ⟨after, htext⟩ := (arrow_prefix_iff _).mpr harrow
    cases htext
    exact ⟨['-', '>'], rfl, .arrow after⟩
  · rcases hname : spanName cs with ⟨name, after⟩
    obtain ⟨htext, hlongest⟩ := spanName_eq_iff.mp hname
    rw [hname] at h
    cases name with
    | nil =>
        cases h
        refine ⟨['%'], by rw [hpercent, htext]; rfl, .percent fun other after hother hstretch => ?_⟩
        have hspan := spanName_eq_iff.mpr ⟨hother, hstretch⟩
        rw [← List.nil_append rest, ← htext, hname] at hspan
        exact (Prod.mk.inj hspan).1.symm
    | cons d name =>
        cases h
        exact ⟨'%' :: d :: name, by rw [hpercent, htext]; rfl,
          .directive (List.cons_ne_nil d name) hlongest⟩
  · exact exists_lexeme_of_scanText (isNameChar_or_isQuote hgap hnewline hbar hpercent)
      (by simpa using harrow) h

theorem IsQuote.not_gap
    {q : Char}
    (hq : IsQuote q) :
    isInnerBlank q = false ∧ q ≠ '#' := by
  rcases hq with rfl | rfl <;> decide

theorem scan_of_lexeme
    (h : Lexeme token lexeme rest) :
    ∃ c cs, lexeme ++ rest = c :: cs ∧ EndsGap (c :: cs) ∧ scan c cs = (token, rest) := by
  have ends {c : Char} (cs : List Char) (hc : isInnerBlank c = false ∧ c ≠ '#') :
      EndsGap (c :: cs) := by
    rintro d ⟨⟩
    exact hc
  have percent (cs : List Char) : startsWithArrow ('%' :: cs) = false :=
    startsWithArrow_eq_false (by decide) cs
  cases h with
  | newline => exact ⟨_, _, rfl, ends _ (by decide), rfl⟩
  | bar => exact ⟨_, _, rfl, ends _ (by decide), rfl⟩
  | arrow => exact ⟨_, _, rfl, ends _ (by decide), rfl⟩
  | symbol hne hname =>
      have hspan := spanName_of_longestStretch hname
      obtain ⟨c, cs, rfl⟩ := List.exists_cons_of_ne_nil hne
      obtain ⟨hchar, hscan⟩ := scan_of_spanName hspan hne
      obtain ⟨hblank, -, -, hcomment, -⟩ := (isNameChar_iff c).mp hchar
      exact ⟨_, _, rfl, ends _ ⟨by simp [isInnerBlank, hblank], hcomment⟩, hscan⟩
  | @directive name _ hne hname =>
      refine ⟨'%', name ++ rest, rfl, ends _ (by decide), ?_⟩
      obtain ⟨c, cs, rfl⟩ := List.exists_cons_of_ne_nil hne
      rw [scan, percent, spanName_of_longestStretch hname]
      rfl
  | percent hname =>
      refine ⟨'%', rest, rfl, ends _ (by decide), ?_⟩
      rcases hspan : spanName rest with ⟨name, after⟩
      obtain ⟨htext, hlongest⟩ := spanName_eq_iff.mp hspan
      obtain rfl := hname name after htext hlongest
      rw [scan, percent, hspan, htext]
      rfl
  | @word q body content hq hbody =>
      have hscan : Quoted.scan q (q :: (body ++ q :: rest)) = some (content, rest) :=
        (Quoted.scan_eq_some_iff hq.ne_backslash).mpr ⟨body, rfl, hbody⟩
      refine ⟨q, body ++ q :: rest, by simp, ends _ hq.not_gap, ?_⟩
      rw [scan_quote hq, scanText, scanWord_quote hq, hscan]
  | @unclosed q line _ hq hopen hline hend =>
      have hscan := (Quoted.scan_quote_eq_none_iff hq.ne_backslash).mpr hopen
      obtain ⟨htake, hdrop⟩ := span_line hline hend
      refine ⟨q, line ++ rest, rfl, ends _ hq.not_gap, ?_⟩
      rw [scan_quote hq, scanText, scanWord_quote hq, hscan, hq.spanName_eq]
      simp only [htake, hdrop]

/-! ## Whole texts -/

/-- One step reads one gap and one lexeme. -/
theorem next?_eq_some_iff :
    next? cs = some (token, rest) ↔
      ∃ gap lexeme, cs = gap ++ lexeme ++ rest ∧ Gap gap (lexeme ++ rest) ∧
        Lexeme token lexeme rest := by
  constructor
  · intro h
    obtain ⟨gap, htext, hgap, hend⟩ := exists_gap cs
    rw [next?] at h
    split at h
    · cases h
    · rename_i c text hskip
      rw [hskip] at htext hgap hend
      obtain ⟨lexeme, hread, hlexeme⟩ := exists_lexeme_of_scan hend (Option.some.inj h)
      rw [hread] at htext hgap
      exact ⟨gap, lexeme, by rw [htext, List.append_assoc], hgap, hlexeme⟩
  · rintro ⟨gap, lexeme, rfl, hgap, hlexeme⟩
    obtain ⟨c, text, htext, hend, hscan⟩ := scan_of_lexeme hlexeme
    have hskip : skipGap (gap ++ lexeme ++ rest) = c :: text := by
      rw [List.append_assoc, htext]
      exact skipGap_append (htext ▸ hgap) hend
    rw [next?, hskip, ← hscan]

/-- No step is left exactly if only a gap is. -/
theorem next?_eq_none_iff :
    next? cs = none ↔ Gap cs [] := by
  constructor
  · intro h
    obtain ⟨gap, htext, hgap, -⟩ := exists_gap cs
    rw [next?] at h
    split at h
    · rename_i hskip
      rw [hskip] at htext hgap
      rwa [htext, List.append_nil]
    · cases h
  · intro h
    have hskip : skipGap (cs ++ []) = [] := skipGap_append h (AtLineEnd.endsGap (.inl rfl))
    rw [next?, ← List.append_nil cs, hskip]

theorem factors_ofText
    (cs : List Char) :
    Factors cs (ofText cs) := by
  fun_induction ofText cs with
  | case1 cs hnext => exact .last (next?_eq_none_iff.mp hnext)
  | case2 cs token rest hnext ih =>
      obtain ⟨gap, lexeme, rfl, hgap, hlexeme⟩ := next?_eq_some_iff.mp hnext
      exact .cons hgap hlexeme.ne_nil hlexeme ih

/-- The tokens are determined by the row of gaps and lexemes. -/
theorem Factors.eq_ofText
    (h : Factors cs tokens) :
    tokens = ofText cs := by
  induction h with
  | last hgap => rw [ofText_of_next?_eq_none (next?_eq_none_iff.mpr hgap)]
  | cons hgap _ hlexeme _ ih =>
      rw [ofText_of_next? (next?_eq_some_iff.mpr ⟨_, _, rfl, hgap, hlexeme⟩), ih]

/-- A tokenizer stops on every text, and the text is a row of gaps and lexemes, one lexeme for
each token that it gives, in order.  The text is such a row for no other tokens. -/
theorem tokenizes_iff_factors
    (cs : List Char) :
    (∃! tokens, Tokenizer.Tokenizes (Cursor.ofText cs) tokens) ∧
      ∀ tokens, Tokenizer.Tokenizes (Cursor.ofText cs) tokens ↔ Factors cs tokens := by
  refine ⟨⟨ofText cs, Tokenizer.tokenizes_iff.mpr rfl, fun tokens h => ?_⟩, fun tokens => ?_⟩
  · exact Tokenizer.tokenizes_iff.mp h
  · rw [Tokenizer.tokenizes_iff]
    constructor
    · rintro rfl
      exact factors_ofText cs
    · exact Factors.eq_ofText

end Token
end ChartParsing
