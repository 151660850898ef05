import ChartParsing.Grammar.Token
import ChartParsing.Proofs.QuotedText

/-!
# Token by token

The tokens of a text that was put together from known pieces are read piece by piece: a name
up to the blank behind it, a word up to its closing quote.  And from any text at all, a word
token is read where one of the two quotes opens it.

**Results.**
* `ofText_name`, `ofText_quoted`: a name and a quoted text are read as one token.
* `isName_of_mem_ofText`: a name token is read again from its own text.
* `exists_scan_of_words`: the first word of a text ends where its quoted text ends.
-/

namespace ChartParsing
namespace Token

open Text

/-- A text that is read as one name. -/
structure IsName (name : String) : Prop where
  ne_nil : name.toList ≠ []
  spanName_eq : spanName name.toList = (name.toList, [])

/-- One of the characters that open and close a word. -/
def IsQuote (q : Char) : Prop :=
  q = '\'' ∨ q = '"'

/-- No quote stands in a text. -/
def QuoteFree (cs : List Char) : Prop :=
  ∀ q, IsQuote q → q ∉ cs

/-- The text of a word token. -/
def word? : Token → Option String
  | word text => some text
  | _ => none

/-- The texts of the word tokens, in order. -/
def words (cs : List Char) : List String :=
  (ofText cs).filterMap word?

theorem IsQuote.ne_backslash
    {q : Char}
    (hq : IsQuote q) :
    q ≠ '\\' := by
  rcases hq with rfl | rfl <;> decide

theorem IsQuote.isNameChar_eq_false
    {q : Char}
    (hq : IsQuote q) :
    isNameChar q = false := by
  rcases hq with rfl | rfl <;> decide

theorem QuoteFree.append
    {xs ys : List Char}
    (hxs : QuoteFree xs)
    (hys : QuoteFree ys) :
    QuoteFree (xs ++ ys) := by
  intro q hq hmem
  rcases List.mem_append.mp hmem with hmem | hmem
  · exact hxs q hq hmem
  · exact hys q hq hmem

theorem quoteFree_newline : QuoteFree ['\n'] := by
  rintro q (rfl | rfl) <;> decide

theorem quoteFree_arrow : QuoteFree " -> ".toList := by
  rintro q (rfl | rfl) <;> decide

theorem quoteFree_blank : QuoteFree " ".toList := by
  rintro q (rfl | rfl) <;> decide

theorem startsWithArrow_cons
    (x : Char)
    (cs : List Char) :
    startsWithArrow (x :: cs) = (x == '-' && cs.head? == some '>') := by
  cases cs <;> simp [startsWithArrow]

theorem startsWithArrow_eq_false
    {c : Char}
    (hc : c ≠ '-')
    (cs : List Char) :
    startsWithArrow (c :: cs) = false := by
  simp [startsWithArrow_cons, hc]

theorem ofText_of_next?
    {cs rest : List Char} {token : Token}
    (h : next? cs = some (token, rest)) :
    ofText cs = token :: ofText rest := by
  rw [ofText]
  split
  · rename_i hnone
    rw [h] at hnone
    cases hnone
  · rename_i hsome
    rw [h] at hsome
    cases hsome
    rfl

theorem ofText_of_next?_eq_none
    {cs : List Char}
    (h : next? cs = none) :
    ofText cs = [] := by
  rw [ofText]
  split
  · rfl
  · rename_i hsome
    rw [h] at hsome
    cases hsome

theorem ofText_cons_blank
    (cs : List Char) :
    ofText (' ' :: cs) = ofText cs := by
  have hnext : next? (' ' :: cs) = next? cs := rfl
  cases h : next? cs with
  | none => rw [ofText_of_next?_eq_none h, ofText_of_next?_eq_none (hnext.trans h)]
  | some read => rw [ofText_of_next? h, ofText_of_next? (hnext.trans h)]

theorem ofText_newline
    (cs : List Char) :
    ofText ('\n' :: cs) = .newline :: ofText cs :=
  ofText_of_next? rfl

theorem ofText_arrow
    (cs : List Char) :
    ofText ('-' :: '>' :: cs) = .arrow :: ofText cs :=
  ofText_of_next? rfl

/-! ## Names -/

theorem spanName_fst
    (cs : List Char) :
    spanName (spanName cs).1 = ((spanName cs).1, []) := by
  induction cs with
  | nil => rfl
  | cons c cs ih =>
      by_cases hstop : (startsWithArrow (c :: cs) || !isNameChar c) = true
      · rw [spanName, if_pos hstop]
        rfl
      · rw [spanName, if_neg hstop]
        have hkeep : ¬ (startsWithArrow (c :: (spanName cs).1) || !isNameChar c) = true := by
          -- an arrow in the name would have been one in the text
          cases cs with
          | nil => simpa [spanName, startsWithArrow] using hstop
          | cons d cs =>
              rw [spanName]
              split
              · simp_all [startsWithArrow]
              · exact hstop
        rw [spanName, if_neg hkeep, ih]

theorem isNameChar_of_mem_spanName
    {c : Char} {cs : List Char}
    (h : c ∈ (spanName cs).1) :
    isNameChar c = true := by
  induction cs with
  | nil => cases h
  | cons d cs ih =>
      rw [spanName] at h
      split at h
      · cases h
      · rename_i hkeep
        rcases List.mem_cons.mp h with rfl | h
        · exact (by simpa using hkeep : _ ∧ isNameChar c = true).2
        · exact ih h

theorem spanName_append_blank
    {name : List Char} {c : Char}
    (hname : spanName name = (name, []))
    (hc : isBlank c = true)
    (cs : List Char) :
    spanName (name ++ c :: cs) = (name, c :: cs) := by
  have hstop : isNameChar c = false := by
    simp [isNameChar, hc]
  induction name with
  | nil =>
      rw [List.nil_append, spanName, if_pos (by simp [hstop])]
  | cons d name ih =>
      rw [spanName] at hname
      split at hname
      · cases hname
      · rename_i hkeep
        have hrest : spanName name = (name, []) := by
          injection hname with hfst hsnd
          injection hfst with _ hfst
          exact Prod.ext hfst hsnd
        have hkeep' : ¬ (startsWithArrow (d :: (name ++ c :: cs)) || !isNameChar d) = true := by
          cases name with
          | nil =>
              have harrow : c ≠ '>' := by
                rintro rfl
                exact absurd hc (by decide)
              simp_all [startsWithArrow]
          | cons e name => exact hkeep
        rw [List.cons_append, spanName, if_neg hkeep', ih hrest]

theorem isName_of_spanName
    {cs name rest : List Char}
    (h : spanName cs = (name, rest))
    (hne : name ≠ []) :
    IsName (String.ofList name) := by
  have hname : (spanName cs).1 = name := by rw [h]
  constructor
  · rwa [String.toList_ofList]
  · rw [String.toList_ofList, ← hname, spanName_fst]

theorem IsName.isNameChar_of_mem
    {name : String} {c : Char}
    (hname : IsName name)
    (hc : c ∈ name.toList) :
    isNameChar c = true := by
  apply isNameChar_of_mem_spanName
  rwa [hname.spanName_eq]

theorem IsName.quoteFree
    {name : String}
    (hname : IsName name) :
    QuoteFree name.toList := by
  intro q hq hmem
  have hchar := hname.isNameChar_of_mem hmem
  rw [hq.isNameChar_eq_false] at hchar
  cases hchar

theorem next?_cons
    {c : Char}
    (hblank : isBlank c = false)
    (hcomment : c ≠ '#')
    (cs : List Char) :
    next? (c :: cs) = some (scan c cs) := by
  have hgap : skipGap (c :: cs) = c :: cs := by
    simp [skipGap, isInnerBlank, hblank, hcomment]
  rw [next?, hgap]

theorem ofText_start
    (cs : List Char) :
    ofText ("%start ".toList ++ cs) = .directive "start" :: ofText cs := by
  have hname : spanName ("start".toList ++ ' ' :: cs) = ("start".toList, ' ' :: cs) :=
    spanName_append_blank rfl rfl cs
  have hscan : scan '%' ("start".toList ++ ' ' :: cs) = (.directive "start", ' ' :: cs) := by
    rw [scan, hname]
    rfl
  have hnext := next?_cons (c := '%') rfl (by simp) ("start".toList ++ ' ' :: cs)
  rw [hscan] at hnext
  rw [← ofText_cons_blank cs]
  exact ofText_of_next? hnext

theorem scanWord_eq_none
    {c : Char}
    (hc : ¬ IsQuote c)
    (cs : List Char) :
    scanWord (c :: cs) = none := by
  obtain ⟨hsingle, hdouble⟩ := not_or.mp hc
  simp [scanWord, Quoted.scan, hsingle, hdouble]

theorem isNameChar_iff
    (c : Char) :
    isNameChar c = true ↔
      isBlank c = false ∧ ¬ IsQuote c ∧ c ≠ '|' ∧ c ≠ '#' ∧ c ≠ '%' := by
  simp [isNameChar, reserved, IsQuote, and_assoc]

/-- A text in front of which a name stands is read as that name. -/
theorem scan_of_spanName
    {c : Char} {cs name rest : List Char}
    (hname : spanName (c :: cs) = (name, rest))
    (hne : name ≠ []) :
    isNameChar c = true ∧ scan c cs = (.symbol (String.ofList name), rest) := by
  have hkeep : ¬ (startsWithArrow (c :: cs) || !isNameChar c) = true := by
    intro hstop
    rw [spanName, if_pos hstop] at hname
    cases hname
    exact hne rfl
  obtain ⟨harrow, hchar⟩ : startsWithArrow (c :: cs) = false ∧ isNameChar c = true := by
    simpa using hkeep
  obtain ⟨hblank, hquote, hbar, -, hpercent⟩ := (isNameChar_iff c).mp hchar
  have hnewline : c ≠ '\n' := by
    rintro rfl
    exact absurd hblank (by decide)
  refine ⟨hchar, ?_⟩
  obtain ⟨d, ds, rfl⟩ := List.exists_cons_of_ne_nil hne
  rw [scan, if_neg hnewline, if_neg hbar, harrow, if_neg Bool.false_ne_true, if_neg hpercent,
    scanText, scanWord_eq_none hquote, hname]

/-- A name is read up to the blank behind it. -/
theorem ofText_name
    {name : String} {c : Char}
    (hname : IsName name)
    (hc : isBlank c = true)
    (cs : List Char) :
    ofText (name.toList ++ c :: cs) = .symbol name :: ofText (c :: cs) := by
  have hspan := spanName_append_blank hname.spanName_eq hc cs
  obtain ⟨d, ds, htext⟩ := List.exists_cons_of_ne_nil hname.ne_nil
  rw [htext, List.cons_append] at hspan ⊢
  obtain ⟨hchar, hscan⟩ := scan_of_spanName hspan (List.cons_ne_nil d ds)
  obtain ⟨hblank, -, -, hcomment, -⟩ := (isNameChar_iff d).mp hchar
  rw [← htext, String.ofList_toList] at hscan
  exact ofText_of_next? (hscan ▸ next?_cons hblank hcomment _)

/-! ## Words -/

theorem scanWord_quote
    {q : Char}
    (hq : IsQuote q)
    (cs : List Char) :
    scanWord (q :: cs) = Quoted.scan q (q :: cs) := by
  rcases hq with rfl | rfl
  · have hother : Quoted.scan '"' ('\'' :: cs) = none :=
      Quoted.scan_eq_none_of_head?_ne (by simp)
    rw [scanWord, hother, Option.or_none]
  · have hother : Quoted.scan '\'' ('"' :: cs) = none :=
      Quoted.scan_eq_none_of_head?_ne (by simp)
    rw [scanWord, hother, Option.none_or]

theorem scan_quote
    {q : Char}
    (hq : IsQuote q)
    (cs : List Char) :
    scan q cs = scanText q cs := by
  rcases hq with rfl | rfl <;> simp [scan, startsWithArrow_eq_false]

theorem next?_quote
    {q : Char}
    (hq : IsQuote q)
    (cs : List Char) :
    next? (q :: cs) = some (scanText q cs) := by
  have hblank : isBlank q = false := by
    rcases hq with rfl | rfl <;> decide
  have hcomment : q ≠ '#' := by
    rcases hq with rfl | rfl <;> decide
  rw [next?_cons hblank hcomment, scan_quote hq]

/-- A quoted text is read as its content. -/
theorem ofText_quoted
    {q : Char} {cs content rest : List Char}
    (hq : IsQuote q)
    (h : Quoted.scan q (q :: cs) = some (content, rest)) :
    ofText (q :: cs) = .word (String.ofList content) :: ofText rest := by
  refine ofText_of_next? ?_
  rw [next?_quote hq, scanText, scanWord_quote hq, h]

theorem IsQuote.spanName_eq
    {q : Char}
    (hq : IsQuote q)
    (cs : List Char) :
    spanName (q :: cs) = ([], q :: cs) := by
  rw [spanName, if_pos (by simp [hq.isNameChar_eq_false])]

/-- A quote that is never closed is no word, and less than its text is left behind it. -/
theorem ofText_unclosed
    {q : Char} {cs : List Char}
    (hq : IsQuote q)
    (h : Quoted.scan q (q :: cs) = none) :
    ∃ text rest, ofText (q :: cs) = .unknown text :: ofText rest ∧ rest <:+ cs := by
  have hnext := next?_quote hq cs
  rw [scanText, scanWord_quote hq, h, hq.spanName_eq] at hnext
  exact ⟨_, _, ofText_of_next? hnext, List.dropWhile_suffix (· != '\n')⟩

theorem exists_scan_of_scanWord
    {cs content rest : List Char}
    (h : scanWord cs = some (content, rest)) :
    ∃ q, IsQuote q ∧ Quoted.scan q cs = some (content, rest) := by
  rcases Option.or_eq_some_iff.mp h with h | ⟨_, h⟩
  · exact ⟨_, Or.inl rfl, h⟩
  · exact ⟨_, Or.inr rfl, h⟩

theorem isName_of_scanText
    {c : Char} {cs rest : List Char} {name : String}
    (h : scanText c cs = (.symbol name, rest)) :
    IsName name := by
  unfold scanText at h
  split at h
  · cases h
  · split at h
    · cases h
    · rename_i hne heq
      cases h
      exact isName_of_spanName heq hne

theorem exists_scan_of_scanText
    {c : Char} {cs rest : List Char} {text : String}
    (h : scanText c cs = (.word text, rest)) :
    ∃ q, IsQuote q ∧ Quoted.scan q (c :: cs) = some (text.toList, rest) := by
  unfold scanText at h
  split at h
  · rename_i hword
    cases h
    rw [String.toList_ofList]
    exact exists_scan_of_scanWord hword
  · split at h <;> cases h

/-- Only the last way of reading a token gives a name or a word. -/
theorem scanText_eq_of_scan
    {c : Char} {cs rest : List Char} {token : Token}
    (h : scan c cs = (token, rest))
    (htoken : (∃ name, token = .symbol name) ∨ ∃ text, token = .word text) :
    scanText c cs = (token, rest) := by
  unfold scan at h
  split at h
  · cases h
    simp at htoken
  · split at h
    · cases h
      simp at htoken
    · split at h
      · cases h
        simp at htoken
      · split at h
        · split at h <;> (cases h; simp at htoken)
        · exact h

/-- The text of a name token is read again as one name. -/
theorem isName_of_mem_ofText
    {cs : List Char} {name : String}
    (h : .symbol name ∈ ofText cs) :
    IsName name := by
  induction cs using ofText.induct with
  | case1 cs hnone =>
      rw [ofText_of_next?_eq_none hnone] at h
      cases h
  | case2 cs token rest hsome ih =>
      rw [ofText_of_next? hsome] at h
      rcases List.mem_cons.mp h with rfl | h
      · obtain ⟨c, text, _, hscan⟩ := exists_of_next? hsome
        exact isName_of_scanText (scanText_eq_of_scan hscan (Or.inl ⟨_, rfl⟩))
      · exact ih h

/-- The first word of a text that goes on with other words ends where its quoted text ends,
and the other words stand behind it. -/
theorem exists_scan_of_words
    {cs : List Char} {text : String} {texts : List String}
    (h : (text :: texts).Sublist (words cs)) :
    ∃ q opened rest, IsQuote q ∧ opened <:+ cs ∧
      Quoted.scan q opened = some (text.toList, rest) ∧ texts.Sublist (words rest) := by
  induction cs using ofText.induct with
  | case1 cs hnone =>
      rw [words, ofText_of_next?_eq_none hnone] at h
      cases h
  | case2 cs token rest hsome ih =>
      obtain ⟨c, opened, hopened, hscan⟩ := exists_of_next? hsome
      have hrest : rest <:+ cs := by
        have hsuffix := suffix_scan c opened
        rw [hscan] at hsuffix
        exact hsuffix.trans ((List.suffix_cons _ _).trans hopened)
      have hlater (h : (text :: texts).Sublist (words rest)) :
          ∃ q opened rest, IsQuote q ∧ opened <:+ cs ∧
            Quoted.scan q opened = some (text.toList, rest) ∧ texts.Sublist (words rest) := by
        obtain ⟨q, opened, rest', hq, hopened, hread⟩ := ih h
        exact ⟨q, opened, rest', hq, hopened.trans hrest, hread⟩
      rw [words, ofText_of_next? hsome, List.filterMap_cons] at h
      cases token with
      | word other =>
          rcases List.sublist_cons_iff.mp h with h | ⟨texts', hcons, h⟩
          · exact hlater h
          · cases hcons
            obtain ⟨q, hq, hquoted⟩ :=
              exists_scan_of_scanText (scanText_eq_of_scan hscan (Or.inr ⟨_, rfl⟩))
            exact ⟨q, c :: opened, rest, hq, hopened, hquoted, h⟩
      | symbol | directive | arrow | bar | newline | unknown => exact hlater h

end Token
end ChartParsing
