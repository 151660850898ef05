import ChartParsing.Proofs.TokenLexemes

/-!
# Writing tokens

Tokens can be written one after the other, with a blank between any two of them, and are read back
as they were.  Words are written between quotes of either kind.  The names have to be such that a
text can hold them, but the tokens that are read from a text have no others.

**Names.** `Writable` says without a tokenizer which names a text can hold: they are stretches of
characters of names in which no arrow begins (`Writable.isName`).

**Step.** In front of a blank, or of nothing, a written token is a lexeme (`Token.lexeme_write`).

**Results.** `Token.written_tokens_are_read`: what is written is read back, and what is read can be
written, unless it is unknown.
-/

namespace ChartParsing

/-- A name that a grammar text can hold. -/
structure Writable (name : String) : Prop where
  ne_empty : name ≠ ""
  not_blank : ∀ c ∈ name.toList, Text.isBlank c = false
  not_reserved : ∀ c ∈ name.toList, c ∉ ['\'', '"', '|', '#', '%']
  no_arrow : ¬ ['-', '>'] <:+: name.toList

-- by `List.all`, as the instance that is found for all members of a list tries every character
instance (name : String) : Decidable (Writable name) :=
  decidable_of_iff
    (name ≠ "" ∧ name.toList.all (fun c => Text.isBlank c = false) = true ∧
      name.toList.all (fun c => c ∉ ['\'', '"', '|', '#', '%']) = true ∧
      ¬ ['-', '>'] <:+: name.toList) (by
    simp only [List.all_eq_true, decide_eq_true_eq]
    constructor
    · rintro ⟨hne, hblank, hreserved, harrow⟩
      exact ⟨hne, hblank, hreserved, harrow⟩
    · rintro ⟨hne, hblank, hreserved, harrow⟩
      exact ⟨hne, hblank, hreserved, harrow⟩)

/-- A name that a text can hold is read as one. -/
theorem Writable.isName
    {name : String}
    (h : Writable name) :
    Token.IsName name := by
  have hchars : ∀ c ∈ name.toList, Token.isNameChar c = true := by
    intro c hc
    have hreserved := h.not_reserved c hc
    simp only [List.mem_cons, List.not_mem_nil, or_false, not_or] at hreserved
    obtain ⟨hsingle, hdouble, hbar, hcomment, hpercent⟩ := hreserved
    have hquote : ¬ Token.IsQuote c := not_or.mpr ⟨hsingle, hdouble⟩
    exact (Token.isNameChar_iff c).mpr ⟨h.not_blank c hc, hquote, hbar, hcomment, hpercent⟩
  have hstretch : Token.NameStretch name.toList [] := by
    refine ⟨hchars, ?_⟩
    rw [List.take_nil, List.append_nil]
    exact h.no_arrow
  have hlongest : Token.LongestStretch name.toList [] :=
    ⟨hstretch, fun more after hrest _ => (List.append_eq_nil_iff.mp hrest.symm).1⟩
  refine ⟨?_, Token.spanName_eq_iff.mpr ⟨(List.append_nil _).symm, hlongest⟩⟩
  rw [ne_eq, String.toList_eq_nil_iff]
  exact h.ne_empty

/-- A stretch of a text that can be a name is a name that a text can hold. -/
theorem Token.NameStretch.writable
    {name rest : List Char}
    (h : NameStretch name rest)
    (hne : name ≠ []) :
    Writable (String.ofList name) := by
  have hchar (c : Char) (hc : c ∈ (String.ofList name).toList) :
      Text.isBlank c = false ∧ ¬ IsQuote c ∧ c ≠ '|' ∧ c ≠ '#' ∧ c ≠ '%' := by
    rw [String.toList_ofList] at hc
    exact (isNameChar_iff c).mp (h.isNameChar c hc)
  refine ⟨?_, fun c hc => (hchar c hc).1, ?_, ?_⟩
  · rwa [ne_eq, ← String.toList_eq_nil_iff, String.toList_ofList]
  · intro c hc
    obtain ⟨_, hquote, hbar, hcomment, hpercent⟩ := hchar c hc
    obtain ⟨hsingle, hdouble⟩ := not_or.mp hquote
    simp [hsingle, hdouble, hbar, hcomment, hpercent]
  · rw [String.toList_ofList]
    exact fun harrow => h.no_arrow (harrow.trans (List.prefix_append _ _).isInfix)

namespace Token

open Text

/-- A token that can be written: its name, if it has one, is a name that a text can hold. -/
inductive Plain : Token → Prop
  | symbol {name : String} (hname : Writable name) : Plain (.symbol name)
  | word (text : String) : Plain (.word text)
  | directive {name : String} (hname : Writable name) : Plain (.directive name)
  | arrow : Plain .arrow
  | bar : Plain .bar
  | newline : Plain .newline

/-- A token as it is written, a word between the given quotes. -/
def write (q : Char) : Token → List Char
  | symbol name => name.toList
  | word text => Quoted.write q text.toList
  | directive name => '%' :: name.toList
  | arrow => ['-', '>']
  | bar => ['|']
  | newline => ['\n']
  | unknown text => text.toList

/-- Tokens as they are written, each with the quotes for it, and with a blank between any two. -/
def writeAll (list : List (Char × Token)) : List Char :=
  [' '].intercalate (list.map fun x => x.2.write x.1)

variable {q : Char} {cs lexeme rest : List Char} {token : Token} {tokens : List Token}
variable {list : List (Char × Token)}

/-- A name in front of a blank, or of nothing, goes no further. -/
theorem longestStretch_of_writable
    {name : String}
    (hname : Writable name)
    (hrest : ∀ c ∈ rest.head?, c = ' ') :
    LongestStretch name.toList rest := by
  have hspan := hname.isName.spanName_eq
  cases rest with
  | nil => exact (spanName_eq_iff.mp hspan).2
  | cons c rest =>
      obtain rfl := hrest c rfl
      exact (spanName_eq_iff.mp (spanName_append_blank hspan (by decide) rest)).2

/-- In front of a blank, or of nothing, a written token is a lexeme. -/
theorem lexeme_write
    (htoken : token.Plain)
    (hq : IsQuote q)
    (hrest : ∀ c ∈ rest.head?, c = ' ') :
    Lexeme token (token.write q) rest := by
  cases htoken with
  | @symbol name hname =>
      have hlexeme := Lexeme.symbol hname.isName.ne_nil (longestStretch_of_writable hname hrest)
      rwa [String.ofList_toList] at hlexeme
  | @directive name hname =>
      have hlexeme := Lexeme.directive hname.isName.ne_nil (longestStretch_of_writable hname hrest)
      rwa [String.ofList_toList] at hlexeme
  | word text =>
      have hlexeme := Lexeme.word hq (Quoted.spells_escape hq.ne_backslash text.toList) rest
      rwa [String.ofList_toList] at hlexeme
  | arrow => exact .arrow rest
  | bar => exact .bar rest
  | newline => exact .newline rest

theorem ofText_write_append
    (htoken : token.Plain)
    (hq : IsQuote q)
    (hrest : ∀ c ∈ rest.head?, c = ' ') :
    ofText (token.write q ++ rest) = token :: ofText rest := by
  have hlexeme := lexeme_write htoken hq hrest
  refine ofText_of_next? (next?_eq_some_iff.mpr ⟨[], token.write q, rfl, ?_, hlexeme⟩)
  exact .blanks fun c hc => absurd hc List.not_mem_nil

/-- Written tokens are read back. -/
theorem ofText_writeAll
    (hlist : ∀ x ∈ list, IsQuote x.1 ∧ x.2.Plain) :
    ofText (writeAll list) = list.map Prod.snd := by
  have hempty : ofText [] = [] := ofText_of_next?_eq_none rfl
  induction list with
  | nil => exact hempty
  | cons x list ih =>
      obtain ⟨⟨hq, hplain⟩, hlist⟩ := List.forall_mem_cons.mp hlist
      cases list with
      | nil =>
          have hread : ofText (x.2.write x.1 ++ []) = x.2 :: ofText [] :=
            ofText_write_append hplain hq nofun
          rw [List.append_nil, hempty] at hread
          rw [writeAll, List.map_singleton, List.intercalate_singleton, hread]
          rfl
      | cons y list =>
          have hread : ofText (x.2.write x.1 ++ ' ' :: writeAll (y :: list)) =
              x.2 :: ofText (' ' :: writeAll (y :: list)) :=
            ofText_write_append hplain hq fun c hc => (Option.some.inj hc).symm
          have hwrite : writeAll (x :: y :: list) =
              x.2.write x.1 ++ ' ' :: writeAll (y :: list) := by
            rw [writeAll, writeAll, List.map_cons, List.map_cons, List.intercalate_cons_cons,
              List.append_assoc]
            rfl
          rw [hwrite, hread, ofText_cons_blank, ih hlist]
          rfl

/-- A lexeme is one of a token that can be written, or unknown. -/
theorem Lexeme.plain_or_unknown
    (h : Lexeme token lexeme rest) :
    token.Plain ∨ ∃ text, token = .unknown text := by
  cases h with
  | newline => exact Or.inl .newline
  | bar => exact Or.inl .bar
  | arrow => exact Or.inl .arrow
  | symbol hne hname => exact Or.inl (.symbol (hname.nameStretch.writable hne))
  | directive hne hname => exact Or.inl (.directive (hname.nameStretch.writable hne))
  | word => exact Or.inl (.word _)
  | percent | unclosed => exact Or.inr ⟨_, rfl⟩

theorem Factors.plain_or_unknown
    (h : Factors cs tokens) :
    ∀ token ∈ tokens, token.Plain ∨ ∃ text, token = .unknown text := by
  induction h with
  | last => exact fun token htoken => absurd htoken List.not_mem_nil
  | cons _ _ hlexeme _ ih => exact List.forall_mem_cons.mpr ⟨hlexeme.plain_or_unknown, ih⟩

/-- Tokens that are written one after the other, with a blank between any two of them and their
words in quotes of either kind, are read back.  The tokens of a text can be written, unless they are
unknown, and if none of them is, they are read back from what is written. -/
theorem written_tokens_are_read :
    (∀ list : List (Char × Token),
      (∀ x ∈ list, IsQuote x.1 ∧ x.2.Plain) →
      ∀ tokens, Tokenizer.Tokenizes (Cursor.ofText (writeAll list)) tokens ↔
        tokens = list.map Prod.snd) ∧
      ∀ cs tokens, Tokenizer.Tokenizes (Cursor.ofText cs) tokens →
        (∀ token ∈ tokens, token.Plain ∨ ∃ text, token = .unknown text) ∧
          ((∀ text, .unknown text ∉ tokens) →
            ∀ list, (∀ x ∈ list, IsQuote x.1) → list.map Prod.snd = tokens →
              Tokenizer.Tokenizes (Cursor.ofText (writeAll list)) tokens) := by
  have hback (list : List (Char × Token)) (hlist : ∀ x ∈ list, IsQuote x.1 ∧ x.2.Plain)
      (tokens : List Token) :
      Tokenizer.Tokenizes (Cursor.ofText (writeAll list)) tokens ↔ tokens = list.map Prod.snd := by
    rw [Tokenizer.tokenizes_iff, ofText_writeAll hlist]
  refine ⟨hback, ?_⟩
  intro cs tokens htokens
  obtain rfl := Tokenizer.tokenizes_iff.mp htokens
  have hplain := (factors_ofText cs).plain_or_unknown
  refine ⟨hplain, ?_⟩
  intro hknown list hquotes hlist
  refine (hback list ?_ _).mpr hlist.symm
  intro x hx
  have hmem : x.2 ∈ ofText cs := by
    rw [← hlist]
    exact List.mem_map_of_mem hx
  refine ⟨hquotes x hx, (hplain x.2 hmem).resolve_right ?_⟩
  rintro ⟨text, htext⟩
  rw [htext] at hmem
  exact hknown text hmem

/-- Tokens that are written in one kind of quotes, and then in the other. -/
theorem written_tokens_are_read_twice :
    Tokenizer.Tokenizes (Cursor.ofText "a- -> 'b\"\\\\' | '#\n' \n %x".toList)
        [.symbol "a-", .arrow, .word "b\"\\", .bar, .word "#\n", .newline, .directive "x"] ∧
      Tokenizer.Tokenizes (Cursor.ofText "a- -> \"b\\\"\\\\\" | \"#\n\" \n %x".toList)
        [.symbol "a-", .arrow, .word "b\"\\", .bar, .word "#\n", .newline, .directive "x"] := by
  have hfirst := (written_tokens_are_read.1
    [('\'', .symbol "a-"), ('\'', .arrow), ('\'', .word "b\"\\"), ('\'', .bar),
      ('\'', .word "#\n"), ('\'', .newline), ('\'', .directive "x")]
    (by
      have hquote : IsQuote '\'' := .inl rfl
      have hname : Writable "a-" := by decide +kernel
      have hdirective : Writable "x" := by decide +kernel
      simp only [List.forall_mem_cons, hquote, true_and]
      exact ⟨.symbol hname, .arrow, .word _, .bar, .word _, .newline, .directive hdirective, nofun⟩)
    _).mpr rfl
  have hsecond := (written_tokens_are_read.2 _ _ hfirst).2 (by simp)
    [('"', .symbol "a-"), ('"', .arrow), ('"', .word "b\"\\"), ('"', .bar),
      ('"', .word "#\n"), ('"', .newline), ('"', .directive "x")]
    (by simp [IsQuote]) rfl
  exact ⟨hfirst, hsecond⟩

end Token
end ChartParsing
