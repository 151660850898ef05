import ChartParsing.Proofs.WrittenRules

/-!
# Tokens of a printed grammar

The text of a grammar is a start line and one line for each rule.  Its names are read again as
they are.  A word is read again as it is if it was written with backslashes, or if it holds
none; a word that holds a backslash and lacks one kind of quotes was put between those quotes as
it stands, and is not read again.

**Results.**
* `Grammar.toList_text`: the text of a grammar, line by line.
* `quoteWord_cases`, `exists_quote_of_readable`: in which way a word is quoted.
* `Production.ofText_chars`: the tokens of the line of a rule whose word is read again.
-/

namespace ChartParsing

open Text

/-- A word with a backslash holds both kinds of quotes, and so is written with backslashes. -/
def ReadableWord (word : String) : Prop :=
  '\\' ∈ word.toList → '\'' ∈ word.toList ∧ '"' ∈ word.toList

/-- A word lacks the quotes it stands in, or else it holds both kinds and is escaped. -/
theorem quoteWord_cases
    (word : String) :
    (∃ q, Token.IsQuote q ∧ q ∉ word.toList ∧
        (quoteWord word).toList = q :: (word.toList ++ [q])) ∨
      ('\'' ∈ word.toList ∧ '"' ∈ word.toList ∧
        (quoteWord word).toList = Quoted.write '\'' word.toList) := by
  unfold quoteWord
  by_cases hsingle : '\'' ∈ word.toList
  · by_cases hdouble : '"' ∈ word.toList
    · exact Or.inr ⟨hsingle, hdouble, by simp [hsingle, hdouble]⟩
    · exact Or.inl ⟨'"', Or.inr rfl, hdouble, by simp [hsingle, hdouble]⟩
  · exact Or.inl ⟨'\'', Or.inl rfl, hsingle, by simp [hsingle]⟩

theorem exists_quote_of_readable
    {word : String}
    (h : ReadableWord word) :
    ∃ q, Token.IsQuote q ∧ (quoteWord word).toList = Quoted.write q word.toList := by
  rcases quoteWord_cases word with ⟨q, hq, hlacks, htext⟩ | ⟨_, _, htext⟩
  · have hslash : '\\' ∉ word.toList := by
      intro hmem
      obtain ⟨hsingle, hdouble⟩ := h hmem
      rcases hq with rfl | rfl
      · exact hlacks hsingle
      · exact hlacks hdouble
    exact ⟨q, hq, by rw [htext, Quoted.write, Quoted.escape_eq_self hlacks hslash]⟩
  · exact ⟨'\'', Or.inl rfl, htext⟩

theorem exists_quote_of_not_readable
    {word : String}
    (h : ¬ ReadableWord word) :
    '\\' ∈ word.toList ∧ ∃ q, Token.IsQuote q ∧ q ∉ word.toList ∧
      (quoteWord word).toList = q :: (word.toList ++ [q]) := by
  obtain ⟨hslash, hlacks⟩ := Classical.not_imp.mp h
  rcases quoteWord_cases word with hplain | ⟨hsingle, hdouble, _⟩
  · exact ⟨hslash, hplain⟩
  · exact absurd ⟨hsingle, hdouble⟩ hlacks

/-- Behind the quote that opens it, a written word has one quote more than the word itself. -/
theorem count_tail_quoteWord_le
    {q : Char}
    (hq : Token.IsQuote q)
    (word : String) :
    (quoteWord word).toList.tail.count q ≤ word.toList.count q + 1 := by
  have hclosing (d : Char) : [d].count q ≤ 1 := List.count_le_length
  rcases quoteWord_cases word with ⟨d, _, _, htext⟩ | ⟨_, _, htext⟩
  · rw [htext, List.tail_cons, List.count_append]
    exact Nat.add_le_add_left (hclosing d) _
  · rw [htext, Quoted.write, List.tail_cons, List.count_append,
      Quoted.count_escape hq.ne_backslash]
    exact Nat.add_le_add_left (hclosing _) _

/-- A right side as it is written. -/
def Body.chars : Body → List Char
  | word text => (quoteWord text).toList
  | names list => (" ".intercalate list).toList

/-- The tokens of a right side. -/
def Body.tokens : Body → List Token
  | word text => [.word text]
  | names list => list.map .symbol

namespace Production

/-- A production as it is written. -/
def chars (p : Production) : List Char :=
  p.head.toList ++ (" -> ".toList ++ p.body.chars)

/-- The tokens of a production. -/
def tokens (p : Production) : List Token :=
  .symbol p.head :: .arrow :: p.body.tokens

/-- The word on the right side of a production. -/
def word? (p : Production) : Option String :=
  match p.body with
  | .word text => some text
  | .names _ => none

/-- The word of a production is read again, if it has one. -/
def Readable (p : Production) : Prop :=
  ∀ word, p.word? = some word → ReadableWord word

/-- The names of a production are read again: its head, and either two more or none. -/
def Named (p : Production) : Prop :=
  Token.IsName p.head ∧
    match p.body with
    | .word _ => True
    | .names list => ∃ left right, list = [left, right] ∧ Token.IsName left ∧ Token.IsName right

end Production

theorem Rule.word?_production
    (names : List String)
    (rule : Rule) :
    (rule.production names).word? = rule.word? := by
  cases rule <;> rfl

/-- A written rule can be read again if its names can. -/
theorem Rule.named_of_isName
    {names : List String} {rule : Rule}
    (h : ∀ A ∈ rule.symbolList, Token.IsName (names.getD A.index "")) :
    (rule.production names).Named := by
  cases rule with
  | binary r =>
      simp only [symbolList, List.forall_mem_cons] at h
      obtain ⟨hhead, hleft, hright, _⟩ := h
      exact ⟨hhead, _, _, rfl, hleft, hright⟩
  | lexical head word => exact ⟨h head List.mem_cons_self, trivial⟩

theorem Rule.named_production
    {names : List String} {rule : Rule}
    (hnames : ∀ name ∈ names, Token.IsName name)
    (hbelow : rule.Below names.length) :
    (rule.production names).Named := by
  refine Rule.named_of_isName ?_
  intro A hA
  have hlt := Rule.index_lt_of_mem hbelow hA
  rw [List.getD_eq_getElem?_getD, List.getElem?_eq_getElem hlt]
  exact hnames _ (List.getElem_mem hlt)

theorem ofText_quoteWord
    {word : String}
    (h : ReadableWord word)
    (cs : List Char) :
    Token.ofText ((quoteWord word).toList ++ cs) = .word word :: Token.ofText cs := by
  obtain ⟨q, hq, htext⟩ := exists_quote_of_readable h
  have hscan := Quoted.scan_write hq.ne_backslash word.toList cs
  rw [htext]
  rw [Quoted.write, List.cons_append] at hscan ⊢
  rw [Token.ofText_quoted hq hscan, String.ofList_toList]

namespace Production

variable {p : Production}

/-- The head of a line is read again, whatever stands on its right side. -/
theorem ofText_head
    (hp : p.Named)
    (cs : List Char) :
    Token.ofText (p.chars ++ cs) =
      .symbol p.head :: .arrow :: Token.ofText (p.body.chars ++ cs) := by
  have hchars : p.chars ++ cs =
      p.head.toList ++ ' ' :: '-' :: '>' :: ' ' :: (p.body.chars ++ cs) := by
    simp [chars]
  rw [hchars, Token.ofText_name hp.1 rfl, Token.ofText_cons_blank, Token.ofText_arrow,
    Token.ofText_cons_blank]

/-- The line of a rule is read again, if its word is. -/
theorem ofText_chars
    (hp : p.Named)
    (hword : p.Readable)
    (cs : List Char) :
    Token.ofText (p.chars ++ '\n' :: cs) = p.tokens ++ .newline :: Token.ofText cs := by
  rw [ofText_head hp]
  obtain ⟨head, body⟩ := p
  cases body with
  | word text =>
      rw [Body.chars, ofText_quoteWord (hword text rfl), Token.ofText_newline]
      rfl
  | names list =>
      obtain ⟨_, left, right, rfl, hleft, hright⟩ := hp
      have hchars : (Body.names [left, right]).chars ++ '\n' :: cs =
          left.toList ++ ' ' :: (right.toList ++ '\n' :: cs) := by
        simp [Body.chars]
      rw [hchars, Token.ofText_name hleft rfl, Token.ofText_cons_blank,
        Token.ofText_name hright rfl, Token.ofText_newline]
      rfl

theorem words_chars
    (hp : p.Named)
    (hword : p.Readable)
    (cs : List Char) :
    Token.words (p.chars ++ '\n' :: cs) = p.word?.toList ++ Token.words cs := by
  rw [Token.words, ofText_chars hp hword, List.filterMap_append]
  obtain ⟨head, body⟩ := p
  cases body with
  | word text => rfl
  | names list =>
      obtain ⟨_, left, right, rfl, _, _⟩ := hp
      rfl

end Production

namespace Grammar

theorem toList_ruleText
    (g : Grammar)
    (rule : Rule) :
    (g.ruleText rule).toList = (rule.production g.symbols).chars := by
  cases rule with
  | binary r =>
      simp [ruleText, productionText, Rule.bodyTexts, Rule.production, Rule.body,
        Production.chars, Body.chars]
  | lexical head word =>
      simp [ruleText, productionText, Rule.bodyTexts, Rule.production, Rule.body,
        Production.chars, Body.chars]

/-- The lines of written productions. -/
def linesOf (list : List Production) : List Char :=
  list.flatMap fun p => p.chars ++ ['\n']

theorem toList_text
    (g : Grammar) :
    g.text.toList =
      "%start ".toList ++ ((g.name g.start).toList ++ '\n' :: linesOf g.written) := by
  simp [text, ruleTexts, linesOf, written, toList_ruleText, List.flatMap_map]

end Grammar
end ChartParsing
