import ChartParsing.Proofs.PrintedGrammar
import Mathlib

/-!
# Which printed grammars are read back

A grammar that was read from a text, printed and read again comes back as it was exactly if each
of its words that holds a backslash holds both kinds of quotes.

**Losing a word.** Up to the first word that is not readable, the words of the text are those of
the rules.  That word comes back as another word, or as none, and what is left of the text then
begins behind its opening quote.

**Invariant.** From there on the words of the remaining rules are sought in less than their own
lines.  A word that is found takes as many quotes as it holds and two more, and only one more is
left of its own line.  So it ends behind the opening quote of the next word, which is then
sought in less than its own line as well (`Grammar.not_sublist_words_of_behind`).

**Results.**
* `Grammar.not_sublist_words_of_not_readable`: the words of the rules are not all in the text.
* `Grammar.reread_iff_backslashes_quoted`: the grammars that are read back as they were.
-/

namespace ChartParsing

open Text

namespace Production

theorem body_of_word?
    {p : Production} {word : String}
    (h : p.word? = some word) :
    p.body = .word word := by
  obtain ⟨head, body⟩ := p
  cases body with
  | word text => exact congrArg Body.word (Option.some.inj h)
  | names list => cases h

theorem quoteFree_head
    {p : Production}
    (hp : p.Named) :
    Token.QuoteFree (p.head.toList ++ " -> ".toList) :=
  hp.1.quoteFree.append Token.quoteFree_arrow

theorem quoteFree_chars
    {p : Production}
    (hp : p.Named)
    (hword : p.word? = none) :
    Token.QuoteFree p.chars := by
  have hhead := quoteFree_head hp
  obtain ⟨head, body⟩ := p
  cases body with
  | word text => cases hword
  | names list =>
      obtain ⟨_, left, right, rfl, hleft, hright⟩ := hp
      have hbody : Token.QuoteFree (Body.names [left, right]).chars := by
        rw [Body.chars, String.intercalate_cons_cons, String.intercalate_singleton,
          String.toList_append, String.toList_append]
        exact (hleft.quoteFree.append Token.quoteFree_blank).append hright.quoteFree
      rw [chars, ← List.append_assoc]
      exact hhead.append hbody

end Production

namespace Grammar

/-- A written word begins with a quote. -/
theorem exists_cons_quoteWord
    (word : String) :
    ∃ q tail, Token.IsQuote q ∧ (quoteWord word).toList = q :: tail := by
  rcases quoteWord_cases word with ⟨q, hq, _, htext⟩ | ⟨_, _, htext⟩
  · exact ⟨q, _, hq, htext⟩
  · exact ⟨'\'', _, Or.inl rfl, htext⟩

/-- Where a word is found behind its opening quote, it goes on into the text behind its line. -/
theorem not_suffix_of_scan
    {word : String} {q : Char} {gap later opened rest : List Char}
    (hq : Token.IsQuote q)
    (hgap : q ∉ gap)
    (hopened : opened <:+ (quoteWord word).toList.tail ++ (gap ++ later))
    (hscan : Quoted.scan q opened = some (word.toList, rest)) :
    ¬ later <:+ rest := by
  intro hlater
  have hneeded : opened.count q = word.toList.count q + rest.count q + 2 :=
    Quoted.count_of_scan hscan
  have hpresent : opened.count q ≤ (quoteWord word).toList.tail.count q + later.count q := by
    have hle := hopened.sublist.count_le q
    rwa [List.count_append, List.count_append, List.count_eq_zero.mpr hgap, Nat.zero_add] at hle
  have hown := count_tail_quoteWord_le hq word
  have hleft : later.count q ≤ rest.count q := hlater.sublist.count_le q
  omega

/-- A word that is found behind its opening quote ends behind the opening quote of the next. -/
theorem suffix_tail_of_scan_behind
    {word next : String} {q : Char} {gap later opened rest : List Char}
    (hq : Token.IsQuote q)
    (hgap : q ∉ gap)
    (hopened : opened <:+ (quoteWord word).toList.tail ++
      (gap ++ ((quoteWord next).toList ++ later)))
    (hscan : Quoted.scan q opened = some (word.toList, rest)) :
    rest <:+ (quoteWord next).toList.tail ++ later := by
  have hbeyond := not_suffix_of_scan hq hgap hopened hscan
  have hrest : rest <:+ (quoteWord word).toList.tail ++
      (gap ++ ((quoteWord next).toList ++ later)) :=
    (Quoted.suffix_tail_of_scan hscan).trans ((List.tail_suffix opened).trans hopened)
  have hnext : (quoteWord next).toList ++ later <:+ (quoteWord word).toList.tail ++
      (gap ++ ((quoteWord next).toList ++ later)) :=
    (List.suffix_append _ _).trans (List.suffix_append _ _)
  obtain ⟨d, tail, _, htext⟩ := exists_cons_quoteWord next
  rcases List.suffix_or_suffix_of_suffix hrest hnext with hbehind | hahead
  · rw [htext] at hbehind hbeyond ⊢
    rcases List.suffix_cons_iff.mp hbehind with rfl | hbehind
    · exact absurd List.suffix_rfl hbeyond
    · exact hbehind
  · exact absurd hahead hbeyond

variable {list : List Production}

/-- Behind the opening quote of a word, the word and those of the lines that follow are not all
to be found. -/
theorem not_sublist_words_of_behind
    {word : String} {gap cs : List Char}
    (hnamed : ∀ p ∈ list, p.Named)
    (hgap : Token.QuoteFree gap)
    (hcs : cs <:+ (quoteWord word).toList.tail ++ (gap ++ linesOf list)) :
    ¬ (word :: list.filterMap Production.word?).Sublist (Token.words cs) := by
  induction list generalizing word gap cs with
  | nil =>
      intro hwords
      obtain ⟨q, opened, rest, hq, hopened, hscan, _⟩ := Token.exists_scan_of_words hwords
      exact not_suffix_of_scan hq (hgap q hq) (hopened.trans hcs) hscan List.nil_suffix
  | cons p list ih =>
      obtain ⟨hp, hnamed⟩ := List.forall_mem_cons.mp hnamed
      rw [linesOf_cons] at hcs
      cases hword : p.word? with
      | none =>
          rw [List.filterMap_cons_none hword]
          have hline : Token.QuoteFree (gap ++ (p.chars ++ ['\n'])) :=
            hgap.append ((Production.quoteFree_chars hp hword).append Token.quoteFree_newline)
          exact ih hnamed hline (by simpa using hcs)
      | some next =>
          rw [List.filterMap_cons_some hword]
          intro hwords
          obtain ⟨q, opened, rest, hq, hopened, hscan, hrest⟩ := Token.exists_scan_of_words hwords
          -- the line of the next word, cut in front of its opening quote
          have hline : cs <:+ (quoteWord word).toList.tail ++
              (gap ++ (p.head.toList ++ " -> ".toList) ++
                ((quoteWord next).toList ++ '\n' :: linesOf list)) := by
            simpa [Production.chars, Production.body_of_word? hword, Body.chars] using hcs
          have hhead : Token.QuoteFree (gap ++ (p.head.toList ++ " -> ".toList)) :=
            hgap.append (Production.quoteFree_head hp)
          have hbehind := suffix_tail_of_scan_behind hq (hhead q hq) (hopened.trans hline) hscan
          exact ih hnamed Token.quoteFree_newline hbehind hrest

/-- A word that is not readable is not the first word of its own text. -/
theorem exists_behind_of_not_readable
    {word : String} {cs : List Char} {texts : List String}
    (hunread : ¬ ReadableWord word)
    (h : (word :: texts).Sublist (Token.words ((quoteWord word).toList ++ cs))) :
    ∃ rest, rest <:+ (quoteWord word).toList.tail ++ cs ∧
      (word :: texts).Sublist (Token.words rest) := by
  obtain ⟨hslash, q, hq, hlacks, htext⟩ := exists_quote_of_not_readable hunread
  rw [htext, List.cons_append] at h
  rw [htext, List.tail_cons]
  cases hscan : Quoted.scan q (q :: (word.toList ++ [q] ++ cs)) with
  | none =>
      obtain ⟨text, rest, htokens, hrest⟩ := Token.ofText_unclosed hq hscan
      rw [Token.words, htokens] at h
      exact ⟨rest, hrest, h⟩
  | some read =>
      obtain ⟨content, rest⟩ := read
      have hrest : rest <:+ word.toList ++ [q] ++ cs := Quoted.suffix_tail_of_scan hscan
      have hother : content ≠ word.toList := by
        rw [List.append_assoc, List.singleton_append] at hscan
        exact Quoted.ne_of_scan_unescaped hlacks hslash hscan
      rw [Token.words, Token.ofText_quoted hq hscan] at h
      rcases List.sublist_cons_iff.mp h with h | ⟨texts', hcons, _⟩
      · exact ⟨rest, hrest, h⟩
      · refine absurd ?_ hother
        rw [(List.cons.inj hcons).1, String.toList_ofList]

/-- The words of rules of which one is not readable are not all in their lines. -/
theorem not_sublist_words_of_not_readable
    (hnamed : ∀ p ∈ list, p.Named)
    (hunread : ¬ ∀ p ∈ list, p.Readable) :
    ¬ (list.filterMap Production.word?).Sublist (Token.words (linesOf list)) := by
  induction list with
  | nil =>
      refine absurd ?_ hunread
      intro p hp
      cases hp
  | cons p list ih =>
      obtain ⟨hp, hnamed⟩ := List.forall_mem_cons.mp hnamed
      rw [linesOf_cons]
      intro hwords
      by_cases hread : p.Readable
      · -- this line is read back, and one of the following lines is not
        have hlater : ¬ ∀ p ∈ list, p.Readable := by
          intro hlist
          exact hunread (List.forall_mem_cons.mpr ⟨hread, hlist⟩)
        have hword : (p :: list).filterMap Production.word? =
            p.word?.toList ++ list.filterMap Production.word? := by
          cases hword : p.word? <;> simp [hword]
        rw [Production.words_chars hp hread, hword, List.append_sublist_append_left] at hwords
        exact ih hnamed hlater hwords
      · obtain ⟨word, hword⟩ := Classical.not_forall.mp hread
        obtain ⟨hword, hunread⟩ := Classical.not_imp.mp hword
        have htokens : Token.words (p.chars ++ '\n' :: linesOf list) =
            Token.words ((quoteWord word).toList ++ '\n' :: linesOf list) := by
          rw [Token.words, Production.ofText_head hp, Production.body_of_word? hword]
          rfl
        rw [htokens, List.filterMap_cons_some hword] at hwords
        obtain ⟨rest, hrest, hwords⟩ := exists_behind_of_not_readable hunread hwords
        exact not_sublist_words_of_behind hnamed Token.quoteFree_newline hrest hwords

theorem filterMap_word?_written
    (g : Grammar) :
    g.written.filterMap Production.word? = g.rules.filterMap Rule.word? := by
  rw [written, List.filterMap_map]
  exact List.filterMap_congr fun rule _ => rule.word?_production g.symbols

/-- The words of a grammar that is read back are readable. -/
theorem readable_of_reread
    {src : List Char} {g g' : Grammar}
    (h : ofText src = .ok g)
    (hreread : ofText g.text.toList = .ok g')
    (hrules : g'.rules = g.rules) :
    ∀ p ∈ g.written, p.Readable := by
  obtain ⟨hstart, hnamed⟩ := named_of_ofText h
  by_contra hunread
  refine not_sublist_words_of_not_readable hnamed hunread ?_
  have hwords : (g'.rules.filterMap Rule.word?).Sublist (Token.words g.text.toList) :=
    words_of_ofText hreread
  have hlines : Token.words g.text.toList = Token.words (linesOf g.written) := by
    rw [toList_text, Token.words, Token.ofText_start, Token.ofText_name hstart rfl,
      Token.ofText_newline]
    rfl
  rwa [hlines, hrules, ← filterMap_word?_written] at hwords

/-- A grammar that was read from a text is printed and read back as it was exactly if each of its
words that holds a backslash holds both kinds of quotes. -/
theorem reread_iff_backslashes_quoted
    {src : List Char} {g : Grammar}
    (h : ofText src = .ok g) :
    (∃ g', ofText g.text.toList = .ok g' ∧ g'.symbols = g.symbols ∧ g'.start = g.start ∧
        g'.rules = g.rules ∧ g'.text = g.text) ↔
      ∀ A word, .lexical A word ∈ g.rules →
        '\\' ∈ word.toList → '\'' ∈ word.toList ∧ '"' ∈ word.toList := by
  constructor
  · rintro ⟨g', hreread, _, _, hrules, _⟩ A word hrule
    have hreadable := readable_of_reread h hreread hrules
    exact hreadable _ (List.mem_map_of_mem hrule) word rfl
  · intro hwords
    have hreadable : ∀ p ∈ g.written, p.Readable := by
      intro p hp word hword
      obtain ⟨rule, hrule, rfl⟩ := List.mem_map.mp hp
      cases rule with
      | binary r => cases hword
      | lexical A other =>
          cases hword
          exact hwords A _ hrule
    exact ⟨g, ofText_text_of_readable h hreadable, rfl, rfl, rfl, rfl⟩

/-- A grammar with every kind of readable word: plain, with each kind of quotes, with a
backslash and both of them, and empty. -/
def quotedGrammar : Grammar :=
  ofRules ["S"] ⟨0⟩
    [.binary ⟨⟨0⟩, ⟨0⟩, ⟨0⟩⟩, .lexical ⟨0⟩ "#", .lexical ⟨0⟩ "it's", .lexical ⟨0⟩ "\"",
      .lexical ⟨0⟩ "\\'\"", .lexical ⟨0⟩ ""]

theorem reread_quotedGrammar :
    ofText "S -> S S | '#' | 'it\\'s' | '\"'\n | '\\\\\\'\"' | ''".toList =
        .ok quotedGrammar ∧
      ∃ g', ofText quotedGrammar.text.toList = .ok g' ∧ g'.symbols = quotedGrammar.symbols ∧
        g'.start = quotedGrammar.start ∧ g'.rules = quotedGrammar.rules ∧
        g'.text = quotedGrammar.text := by
  have hload : ofText "S -> S S | '#' | 'it\\'s' | '\"'\n | '\\\\\\'\"' | ''".toList =
      .ok quotedGrammar := by
    cbv
  refine ⟨hload, (reread_iff_backslashes_quoted hload).mpr ?_⟩
  intro A word hrule
  simp only [quotedGrammar, ofRules, List.mem_cons, List.not_mem_nil, or_false, reduceCtorEq,
    false_or, Rule.lexical.injEq] at hrule
  rcases hrule with ⟨_, rfl⟩ | ⟨_, rfl⟩ | ⟨_, rfl⟩ | ⟨_, rfl⟩ | ⟨_, rfl⟩ <;> decide

/-- A word with a backslash and no quotes. -/
def slashGrammar : Grammar :=
  ofRules ["S"] ⟨0⟩ [.lexical ⟨0⟩ "a\\b"]

/-- Read back, a word between plain quotes has lost its backslash. -/
theorem not_reread_slashGrammar :
    ofText "S -> 'a\\\\b'".toList = .ok slashGrammar ∧
      ¬ ∃ g', ofText slashGrammar.text.toList = .ok g' ∧ g'.symbols = slashGrammar.symbols ∧
        g'.start = slashGrammar.start ∧ g'.rules = slashGrammar.rules ∧
        g'.text = slashGrammar.text := by
  have hreread : ofText slashGrammar.text.toList =
      .ok (ofRules ["S"] ⟨0⟩ [.lexical ⟨0⟩ "ab"]) := by
    cbv
  refine ⟨by cbv, ?_⟩
  rintro ⟨g', hread, _, _, hrules, _⟩
  rw [hreread] at hread
  cases hread
  exact absurd hrules (by decide)

end Grammar
end ChartParsing
