import ChartParsing.Text.Quoted
import Mathlib.Data.List.Basic

/-!
# Reading quoted text back

A content that is written with backslashes is read back as it was.  A content that is put
between quotes without backslashes is read back only if it holds none: its first backslash
would be taken away, or the closing quote with it.

**Results.**
* `scan_write`: what is written can be read back.
* `count_of_scan`: scanning uses up the quotes of its content and two more.
* `ne_of_scan_unescaped`: a backslash between plain quotes is lost.
* `scan_eq_some_iff`, `scan_quote_eq_none_iff`: what scanning reads, without the scanner.
-/

namespace ChartParsing
namespace Text
namespace Quoted

variable {q : Char} {cs content rest : List Char}

theorem scanBody_quote
    (q : Char)
    (cs : List Char) :
    scanBody q (q :: cs) = some ([], cs) := by
  rw [scanBody.eq_def]
  exact if_pos rfl

theorem scanBody_escaped
    (hq : q ≠ '\\')
    (c : Char)
    (cs : List Char) :
    scanBody q ('\\' :: c :: cs) = (scanBody q cs).map fun r => (c :: r.1, r.2) := by
  rw [scanBody.eq_def]
  exact (if_neg hq.symm).trans (if_pos rfl)

theorem scanBody_plain
    {c : Char}
    (hquote : c ≠ q)
    (hslash : c ≠ '\\')
    (cs : List Char) :
    scanBody q (c :: cs) = (scanBody q cs).map fun r => (c :: r.1, r.2) := by
  rw [scanBody.eq_def]
  exact (if_neg hquote).trans (if_neg hslash)

/-- Scanning uses up the quotes of its content and the closing one. -/
theorem count_of_scanBody
    (h : scanBody q cs = some (content, rest)) :
    cs.count q = content.count q + rest.count q + 1 := by
  fun_induction scanBody q cs generalizing content with
  | case1 => cases h
  | case2 cs =>
      cases h
      simp
  | case3 => cases h
  | case4 e cs hquote ih =>
      obtain ⟨⟨content', rest'⟩, hread, hpair⟩ := Option.map_eq_some_iff.mp h
      cases hpair
      have hcount := ih hread
      rw [List.count_cons_of_ne hquote]
      simp only [List.count_cons] at hcount ⊢
      omega
  | case5 c cs hquote hslash ih =>
      obtain ⟨⟨content', rest'⟩, hread, hpair⟩ := Option.map_eq_some_iff.mp h
      cases hpair
      have hcount := ih hread
      simp only [List.count_cons] at hcount ⊢
      omega

theorem count_of_scan
    (h : scan q cs = some (content, rest)) :
    cs.count q = content.count q + rest.count q + 2 := by
  cases cs with
  | nil => cases h
  | cons c cs =>
      simp only [scan] at h
      split at h
      · rename_i hc
        rw [hc, List.count_cons_self, count_of_scanBody h]
      · cases h

theorem scan_eq_none_of_head?_ne
    (h : cs.head? ≠ some q) :
    scan q cs = none := by
  cases cs with
  | nil => rfl
  | cons c cs =>
      simp only [List.head?_cons, ne_eq, Option.some.injEq] at h
      rw [scan, if_neg h]

@[simp] theorem escape_cons
    (q c : Char)
    (w : List Char) :
    escape q (c :: w) = (if c = q ∨ c = '\\' then ['\\', c] else [c]) ++ escape q w := by
  rfl

theorem scanBody_escape
    (hq : q ≠ '\\')
    (w rest : List Char) :
    scanBody q (escape q w ++ q :: rest) = some (w, rest) := by
  induction w with
  | nil => exact scanBody_quote q rest
  | cons c w ih =>
      rw [escape_cons]
      by_cases h : c = q ∨ c = '\\'
      · rw [if_pos h, List.append_assoc, List.cons_append, List.singleton_append,
          scanBody_escaped hq, ih]
        rfl
      · obtain ⟨hquote, hslash⟩ := not_or.mp h
        rw [if_neg h, List.append_assoc, List.singleton_append, scanBody_plain hquote hslash, ih]
        rfl

/-- What is written can be read back. -/
theorem scan_write
    (hq : q ≠ '\\')
    (w rest : List Char) :
    scan q (write q w ++ rest) = some (w, rest) := by
  rw [write, List.cons_append, scan, if_pos rfl, List.append_assoc]
  exact scanBody_escape hq w rest

/-- A content without a quote and without a backslash is written as it is. -/
theorem escape_eq_self
    {w : List Char}
    (hquote : q ∉ w)
    (hslash : '\\' ∉ w) :
    escape q w = w := by
  induction w with
  | nil => rfl
  | cons c w ih =>
      obtain ⟨hc, hquote⟩ := List.ne_and_not_mem_of_not_mem_cons hquote
      obtain ⟨hc', hslash⟩ := List.ne_and_not_mem_of_not_mem_cons hslash
      rw [escape_cons, if_neg (not_or.mpr ⟨hc.symm, hc'.symm⟩), ih hquote hslash]
      rfl

/-- Backslashes do not change the number of any other character. -/
theorem count_escape
    {d : Char}
    (hd : d ≠ '\\')
    (q : Char)
    (w : List Char) :
    (escape q w).count d = w.count d := by
  induction w with
  | nil => rfl
  | cons c w ih =>
      rw [escape_cons, List.count_append, ih, List.count_cons]
      by_cases h : c = q ∨ c = '\\'
      · rw [if_pos h, List.count_cons, List.count_singleton]
        simp only [beq_eq_false_iff_ne.mpr hd.symm, Bool.false_eq_true, if_false]
        omega
      · rw [if_neg h, List.count_singleton]
        omega

/-- Between plain quotes nothing is gained, and a backslash is lost, unless the content runs
over the closing quote. -/
theorem length_of_scanBody_unescaped
    {w : List Char}
    (hquote : q ∉ w)
    (hrun : q ∉ content)
    (h : scanBody q (w ++ q :: cs) = some (content, rest)) :
    content.length ≤ w.length ∧ ('\\' ∈ w → content.length < w.length) := by
  generalize htext : w ++ q :: cs = text at h
  fun_induction scanBody q text generalizing w content with
  | case1 => cases h
  | case2 text =>
      cases h
      cases w with
      | nil => simp
      | cons c w =>
          cases htext
          exact absurd (List.mem_cons_self ..) hquote
  | case3 => cases h
  | case4 e text hslash ih =>
      obtain ⟨⟨content', rest'⟩, hread, hpair⟩ := Option.map_eq_some_iff.mp h
      cases hpair
      rcases w with _ | ⟨c, _ | ⟨d, w⟩⟩
      · cases htext
        exact absurd rfl hslash
      · -- the closing quote is escaped, and so it is part of the content
        cases htext
        exact absurd (List.mem_cons_self ..) hrun
      · cases htext
        obtain ⟨_, hquote⟩ := List.ne_and_not_mem_of_not_mem_cons hquote
        obtain ⟨_, hquote⟩ := List.ne_and_not_mem_of_not_mem_cons hquote
        have hle : content'.length ≤ w.length :=
          (ih hquote (List.not_mem_of_not_mem_cons hrun) rfl hread).1
        simp only [List.length_cons]
        omega
  | case5 c text hclose hslash ih =>
      obtain ⟨⟨content', rest'⟩, hread, hpair⟩ := Option.map_eq_some_iff.mp h
      cases hpair
      cases w with
      | nil =>
          cases htext
          exact absurd rfl hclose
      | cons d w =>
          cases htext
          obtain ⟨_, hquote⟩ := List.ne_and_not_mem_of_not_mem_cons hquote
          have hread : content'.length ≤ w.length ∧ ('\\' ∈ w → content'.length < w.length) :=
            ih hquote (List.not_mem_of_not_mem_cons hrun) rfl hread
          simpa [Ne.symm hslash] using hread

/-- A content with a backslash that stands between plain quotes is not read back. -/
theorem ne_of_scan_unescaped
    {w : List Char}
    (hquote : q ∉ w)
    (hslash : '\\' ∈ w)
    (h : scan q (q :: (w ++ q :: cs)) = some (content, rest)) :
    content ≠ w := by
  rintro rfl
  rw [scan, if_pos rfl] at h
  exact Nat.lt_irrefl _ ((length_of_scanBody_unescaped hquote hquote h).2 hslash)

/-! ## What stands between the quotes -/

/-- A body that spells a content between two quotes: the quote occurs in it only behind a
backslash, and the content is the body without the backslashes that escape. -/
inductive Spells (q : Char) : List Char → List Char → Prop
  | nil : Spells q [] []
  | plain
      {c : Char} {body content : List Char}
      (hquote : c ≠ q)
      (hslash : c ≠ '\\')
      (rest : Spells q body content) :
      Spells q (c :: body) (c :: content)
  | escaped
      (c : Char)
      {body content : List Char}
      (rest : Spells q body content) :
      Spells q ('\\' :: c :: body) (c :: content)

/-- A body has no other characters than its content and backslashes. -/
theorem Spells.count_eq
    {d : Char} {body : List Char}
    (hd : d ≠ '\\')
    (h : Spells q body content) :
    body.count d = content.count d := by
  induction h with
  | nil => rfl
  | plain _ _ _ ih => rw [List.count_cons, List.count_cons, ih]
  | escaped c _ ih => rw [List.count_cons_of_ne hd.symm, List.count_cons, List.count_cons, ih]

theorem exists_spells_of_scanBody
    (h : scanBody q cs = some (content, rest)) :
    ∃ body, cs = body ++ q :: rest ∧ Spells q body content := by
  fun_induction scanBody q cs generalizing content with
  | case1 => cases h
  | case2 cs =>
      cases h
      exact ⟨[], rfl, .nil⟩
  | case3 => cases h
  | case4 e cs hquote ih =>
      obtain ⟨⟨content', rest'⟩, hread, hpair⟩ := Option.map_eq_some_iff.mp h
      cases hpair
      obtain ⟨body, rfl, hbody⟩ := ih hread
      exact ⟨'\\' :: e :: body, rfl, .escaped e hbody⟩
  | case5 c cs hquote hslash ih =>
      obtain ⟨⟨content', rest'⟩, hread, hpair⟩ := Option.map_eq_some_iff.mp h
      cases hpair
      obtain ⟨body, rfl, hbody⟩ := ih hread
      exact ⟨c :: body, rfl, .plain hquote hslash hbody⟩

/-- What is written between quotes spells its content. -/
theorem spells_escape
    (hq : q ≠ '\\')
    (content : List Char) :
    Spells q (escape q content) content := by
  obtain ⟨body, htext, hbody⟩ := exists_spells_of_scanBody (scanBody_escape hq content [])
  rwa [List.append_cancel_right htext]

theorem scanBody_of_spells
    {body : List Char}
    (hq : q ≠ '\\')
    (h : Spells q body content)
    (rest : List Char) :
    scanBody q (body ++ q :: rest) = some (content, rest) := by
  induction h with
  | nil => exact scanBody_quote q rest
  | plain hquote hslash _ ih =>
      rw [List.cons_append, scanBody_plain hquote hslash, ih]
      rfl
  | escaped c _ ih =>
      rw [List.cons_append, List.cons_append, scanBody_escaped hq, ih]
      rfl

/-- Scanning finds the quote that closes, if there is one. -/
theorem scan_eq_some_iff
    (hq : q ≠ '\\') :
    scan q cs = some (content, rest) ↔
      ∃ body, cs = q :: (body ++ q :: rest) ∧ Spells q body content := by
  constructor
  · intro h
    cases cs with
    | nil => cases h
    | cons c cs =>
        rw [scan] at h
        split at h
        · rename_i hc
          obtain ⟨body, rfl, hbody⟩ := exists_spells_of_scanBody h
          exact ⟨body, by rw [hc], hbody⟩
        · cases h
  · rintro ⟨body, rfl, hbody⟩
    rw [scan, if_pos rfl]
    exact scanBody_of_spells hq hbody rest

/-- Scanning fails behind a quote exactly if no later quote closes it. -/
theorem scan_quote_eq_none_iff
    (hq : q ≠ '\\') :
    scan q (q :: cs) = none ↔
      ∀ body content rest, Spells q body content → cs ≠ body ++ q :: rest := by
  constructor
  · rintro h body content rest hbody rfl
    rw [scan, if_pos rfl, scanBody_of_spells hq hbody rest] at h
    cases h
  · intro h
    by_contra hne
    obtain ⟨⟨content, rest⟩, hread⟩ := Option.ne_none_iff_exists'.mp hne
    obtain ⟨body, htext, hbody⟩ := (scan_eq_some_iff hq).mp hread
    exact h body content rest hbody (List.cons.inj htext).2

end Quoted
end Text
end ChartParsing
