import ChartParsing.Text.Blank
import ChartParsing.Text.Quoted

/-!
# Tokens of a grammar text

A grammar is written one production a line:

    %start S
    S -> NP VP | 'hello'

Tokens are names of symbols, quoted words, directives, the arrow, the bar and the
new-line.  Blanks other than new-lines separate tokens, and a comment runs from a number
sign to the end of its line.

**Algorithm.** `Token.next?` skips one gap and reads one token; `Token.ofText` repeats it.
A name ends at a blank, at a reserved character and in front of an arrow.  What starts no
token, such as a quote that is never closed, becomes an unknown token.

**Results.** Every token takes at least one character (`length_lt_of_next?`).
-/

namespace ChartParsing

/-- A token of a grammar text. -/
inductive Token
  | symbol (name : String)
  | word (text : String)
  | directive (name : String)
  | arrow
  | bar
  | newline
  | unknown (text : String)
  deriving DecidableEq, Repr

namespace Token

open Text

/-- The characters that the grammar format keeps for itself. -/
def reserved : List Char :=
  ['\'', '"', '|', '#', '%']

/-- A character of a name: not blank, and not reserved. -/
def isNameChar (c : Char) : Bool :=
  !isBlank c && !reserved.contains c

/-- An arrow stands at the front of the text. -/
def startsWithArrow : List Char → Bool
  | a :: b :: _ => a == '-' && b == '>'
  | _ => false

/-- The longest name at the front of a text, and what follows it. -/
def spanName : List Char → List Char × List Char
  | [] => ([], [])
  | c :: cs =>
      if startsWithArrow (c :: cs) || !isNameChar c then ([], c :: cs)
      else (c :: (spanName cs).1, (spanName cs).2)

/-- A blank that does not end a line. -/
def isInnerBlank (c : Char) : Bool :=
  isBlank c && c != '\n'

/-- Skips the blanks in front of a token, and the comment that may follow them. -/
def skipGap (cs : List Char) : List Char :=
  match cs.dropWhile isInnerBlank with
  | [] => []
  | c :: rest => if c = '#' then rest.dropWhile (· != '\n') else c :: rest

/-- A word in either kind of quotes at the front of a text, and what follows it. -/
def scanWord (cs : List Char) : Option (List Char × List Char) :=
  (Quoted.scan '\'' cs).or (Quoted.scan '"' cs)

/-- Reads a name, a word or an unknown stretch at the front of a text. -/
def scanText (c : Char) (cs : List Char) : Token × List Char :=
  match scanWord (c :: cs) with
  | some (content, rest) => (.word (String.ofList content), rest)
  | none =>
      match spanName (c :: cs) with
      | ([], _) =>
          (.unknown (String.ofList (c :: cs.takeWhile (· != '\n'))), cs.dropWhile (· != '\n'))
      | (name, rest) => (.symbol (String.ofList name), rest)

/-- Reads the token whose first character and further text are given. -/
def scan (c : Char) (cs : List Char) : Token × List Char :=
  if c = '\n' then (.newline, cs)
  else if c = '|' then (.bar, cs)
  else if startsWithArrow (c :: cs) then (.arrow, cs.tail)
  else if c = '%' then
    match spanName cs with
    | ([], rest) => (.unknown "%", rest)
    | (name, rest) => (.directive (String.ofList name), rest)
  else scanText c cs

/-- Reads one token, unless only a gap is left. -/
def next? (cs : List Char) : Option (Token × List Char) :=
  match skipGap cs with
  | [] => none
  | c :: rest => some (scan c rest)

theorem suffix_spanName_snd
    (cs : List Char) :
    (spanName cs).2 <:+ cs := by
  induction cs with
  | nil => exact List.suffix_rfl
  | cons c cs ih =>
      rw [spanName]
      split
      · exact List.suffix_rfl
      · exact ih.trans (List.suffix_cons _ _)

theorem suffix_of_spanName_cons
    {c : Char} {cs name rest : List Char}
    (h : spanName (c :: cs) = (name, rest))
    (hne : name ≠ []) :
    rest <:+ cs := by
  rw [spanName] at h
  split at h
  · cases h
    exact absurd rfl hne
  · cases h
    exact suffix_spanName_snd cs

theorem suffix_skipGap
    (cs : List Char) :
    skipGap cs <:+ cs := by
  have hdrop : cs.dropWhile isInnerBlank <:+ cs := List.dropWhile_suffix _
  unfold skipGap
  split
  · exact List.nil_suffix
  · rename_i c rest heq
    rw [heq] at hdrop
    split
    · exact (List.dropWhile_suffix _).trans ((List.suffix_cons _ _).trans hdrop)
    · exact hdrop

theorem suffix_tail_of_scanWord
    {cs content rest : List Char}
    (h : scanWord cs = some (content, rest)) :
    rest <:+ cs.tail := by
  rcases Option.or_eq_some_iff.mp h with h | ⟨_, h⟩ <;>
    exact Quoted.suffix_tail_of_scan h

theorem suffix_scanText
    (c : Char)
    (cs : List Char) :
    (scanText c cs).2 <:+ cs := by
  unfold scanText
  split
  · rename_i hword
    exact suffix_tail_of_scanWord hword
  · split
    · exact List.dropWhile_suffix _
    · rename_i hne heq
      exact suffix_of_spanName_cons heq hne

/-- What follows a token is left of the text behind its first character. -/
theorem suffix_scan
    (c : Char)
    (cs : List Char) :
    (scan c cs).2 <:+ cs := by
  have hname := suffix_spanName_snd cs
  unfold scan
  split
  · exact List.suffix_rfl
  · split
    · exact List.suffix_rfl
    · split
      · exact List.tail_suffix cs
      · split
        · split <;> (rename_i heq; rwa [heq] at hname)
        · exact suffix_scanText c cs

/-- A token that is read is scanned behind the gap in front of it. -/
theorem exists_of_next?
    {cs rest : List Char} {token : Token}
    (h : next? cs = some (token, rest)) :
    ∃ c text, c :: text <:+ cs ∧ scan c text = (token, rest) := by
  have hgap := suffix_skipGap cs
  unfold next? at h
  split at h
  · cases h
  · rename_i c text heq
    rw [heq] at hgap
    exact ⟨c, text, hgap, Option.some.inj h⟩

theorem length_lt_of_next?
    {cs rest : List Char} {token : Token}
    (h : next? cs = some (token, rest)) :
    rest.length < cs.length := by
  obtain ⟨c, text, htext, hscan⟩ := exists_of_next? h
  have hrest := suffix_scan c text
  rw [hscan] at hrest
  exact Nat.lt_of_le_of_lt hrest.length_le htext.length_le

/-- The tokens of a text, in order. -/
def ofText (cs : List Char) : List Token :=
  match _h : next? cs with
  | none => []
  | some (token, rest) => token :: ofText rest
termination_by cs.length
decreasing_by exact length_lt_of_next? _h

/-- A token as it is named in error messages. -/
def describe : Token → String
  | symbol name => name
  | word text => "'" ++ text ++ "'"
  | directive name => "%" ++ name
  | arrow => "->"
  | bar => "|"
  | newline => "new-line"
  | unknown text => text

end Token
end ChartParsing
