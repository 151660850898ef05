/-!
# Quoted text

A quoted text stands between two copies of its quote character.  Inside, a backslash
takes away the meaning of the character after it, whatever that character is.

**Algorithm.** `Quoted.scan q` reads one quoted text at the front of its input and returns
the content with the rest, or nothing when no such text stands there.  `Quoted.write q`
writes a content so that it can be read back.

**Results.** What follows a quoted text is left of the input behind its first quote
(`suffix_tail_of_scan`).
-/

namespace ChartParsing
namespace Text
namespace Quoted

/-- Reads up to the closing quote `q`, taking the character after a backslash as it is. -/
def scanBody (q : Char) : List Char → Option (List Char × List Char)
  | [] => none
  | c :: cs =>
      if c = q then
        some ([], cs)
      else if c = '\\' then
        match cs with
        | [] => none
        | e :: rest => (scanBody q rest).map fun r => (e :: r.1, r.2)
      else
        (scanBody q cs).map fun r => (c :: r.1, r.2)

/-- Reads a text quoted by `q` at the front of the input: its content, and what follows
the closing quote. -/
def scan (q : Char) : List Char → Option (List Char × List Char)
  | [] => none
  | c :: cs => if c = q then scanBody q cs else none

/-- A content with a backslash before each backslash and each quote `q`. -/
def escape (q : Char) (content : List Char) : List Char :=
  content.flatMap fun c => if c = q ∨ c = '\\' then ['\\', c] else [c]

/-- A content between two quotes `q`, escaped. -/
def write (q : Char) (content : List Char) : List Char :=
  q :: (escape q content ++ [q])

theorem suffix_of_scanBody
    {q : Char} {cs content rest : List Char}
    (h : scanBody q cs = some (content, rest)) :
    rest <:+ cs := by
  fun_induction scanBody q cs generalizing content with
  | case1 => cases h
  | case2 cs =>
      cases h
      exact List.suffix_cons _ _
  | case3 => cases h
  | case4 e cs hquote ih =>
      obtain ⟨⟨content', rest'⟩, hread, hpair⟩ := Option.map_eq_some_iff.mp h
      cases hpair
      exact (ih hread).trans ((List.suffix_cons _ _).trans (List.suffix_cons _ _))
  | case5 c cs hquote hslash ih =>
      obtain ⟨⟨content', rest'⟩, hread, hpair⟩ := Option.map_eq_some_iff.mp h
      cases hpair
      exact (ih hread).trans (List.suffix_cons _ _)

/-- What follows a quoted text is what is left of the text behind its first quote. -/
theorem suffix_tail_of_scan
    {q : Char} {cs content rest : List Char}
    (h : scan q cs = some (content, rest)) :
    rest <:+ cs.tail := by
  cases cs with
  | nil => cases h
  | cons c cs =>
      simp only [scan] at h
      split at h
      · exact suffix_of_scanBody h
      · cases h

end Quoted
end Text
end ChartParsing
