import ChartParsing.Proofs.Refusals
import ChartParsing.Proofs.SentenceLines
import Mathlib.Data.List.TakeWhile

/-!
# Files of sentences

What a file of sentences holds is said here without a reader.  Its lines are the stretches between
its new-lines.  A line is skipped if its first character that is no blank begins a comment, or if
there is none (`Sentence.Skipped`).  The tokens of any other line are its words, or those in front
of its last colon if it has one (`Sentence.OnLine`).  What stands behind that colon has to state a
count (`Text.Numeral.States`), and the line is malformed if it does not (`Sentence.Malformed`).

**Step.** A line is skipped, has a sentence on it, or is malformed (`Sentence.line_cases`), and it
is read accordingly.

**Results.**
* `Text.Numeral.read_eq_some_iff`: which texts are read as counts.
* `Sentence.readAll_eq_ok_iff`: a file is read as the sentences that its lines hold, in order.
* `Sentence.readAll_eq_error_iff`: reading stops at the first malformed line.
-/

namespace ChartParsing

namespace Text

variable {cs delims : List Char} {c d : Char}

/-! ## Trimmed lines -/

theorem trimStart_append_cons
    (hd : isBlank d = false)
    (before after : List Char) :
    trimStart (before ++ d :: after) = trimStart before ++ d :: after := by
  induction before with
  | nil =>
      rw [List.nil_append, trimStart_cons, hd]
      rfl
  | cons c before ih =>
      rw [List.cons_append, trimStart_cons, trimStart_cons, ih]
      split <;> rfl

theorem trimEnd_append_cons
    (hd : isBlank d = false)
    (before after : List Char) :
    trimEnd (before ++ d :: after) = before ++ d :: trimEnd after := by
  induction after using List.reverseRecOn with
  | nil =>
      rw [trimEnd_append_singleton, hd]
      rfl
  | append_singleton after c ih =>
      rw [← List.cons_append, ← List.append_assoc, trimEnd_append_singleton,
        trimEnd_append_singleton, ih]
      split
      · rfl
      · rw [List.append_assoc, List.cons_append]

/-- A text with a character that is no blank is trimmed up to that character from both sides. -/
theorem trim_append_cons
    (hd : isBlank d = false)
    (before after : List Char) :
    trim (before ++ d :: after) = trimStart before ++ d :: trimEnd after := by
  rw [trim, trimStart_append_cons hd, trimEnd_append_cons hd]

theorem trim_trimEnd
    (cs : List Char) :
    trim (trimEnd cs) = trim cs := by
  induction cs using List.reverseRecOn with
  | nil => rfl
  | append_singleton cs c ih =>
      rw [trimEnd_append_singleton]
      split
      · rename_i hc
        rw [ih, trim_append_singleton hc]
      · rfl

/-! ## Words of trimmed lines -/

theorem pieces_nil :
    pieces .dropped delims [] = [] :=
  pieces_of_free nofun

/-- A blank in front of a text adds nothing to its pieces. -/
theorem pieces_cons_of_isBlank
    (hc : isBlank c = true)
    (cs : List Char) :
    pieces .dropped delims (c :: cs) = pieces .dropped delims cs := by
  by_cases hd : c ∈ delims
  · have hnil : ∀ x ∈ ([] : List Char), x ∉ delims := nofun
    exact pieces_append_cons hnil hd cs
  · have htrim (field : List Char) : trimmedField (c :: field) = trimmedField field := by
      rw [trimmedField, trim_cons_of_isBlank hc, trimmedField]
    induction cs using induction_on_fields delims with
    | last field hfield =>
        rw [pieces_of_free (List.forall_mem_cons.mpr ⟨hd, hfield⟩), pieces_of_free hfield, htrim]
    | cons field d rest hfield hmem _ =>
        rw [← List.cons_append, pieces_append_cons (List.forall_mem_cons.mpr ⟨hd, hfield⟩) hmem,
          pieces_append_cons hfield hmem, htrim]

/-- A blank behind a text adds nothing to its pieces. -/
theorem pieces_append_singleton_of_isBlank
    (hc : isBlank c = true)
    (cs : List Char) :
    pieces .dropped delims (cs ++ [c]) = pieces .dropped delims cs := by
  induction cs using induction_on_fields delims with
  | last field hfield =>
      rw [pieces_of_free hfield]
      by_cases hd : c ∈ delims
      · rw [pieces_append_cons hfield hd, pieces_nil]
        exact List.append_nil _
      · have hfree : ∀ x ∈ field ++ [c], x ∉ delims :=
          List.forall_mem_append.mpr ⟨hfield, List.forall_mem_singleton.mpr hd⟩
        rw [pieces_of_free hfree, trimmedField, trim_append_singleton hc, trimmedField]
  | cons field d rest hfield hmem ih =>
      rw [List.append_assoc, List.cons_append, pieces_append_cons hfield hmem, ih,
        pieces_append_cons hfield hmem]

theorem pieces_trimStart
    (cs : List Char) :
    pieces .dropped delims (trimStart cs) = pieces .dropped delims cs := by
  induction cs with
  | nil => rfl
  | cons c cs ih =>
      rw [trimStart_cons]
      split
      · rename_i hc
        rw [ih, pieces_cons_of_isBlank hc]
      · rfl

theorem pieces_trimEnd
    (cs : List Char) :
    pieces .dropped delims (trimEnd cs) = pieces .dropped delims cs := by
  induction cs using List.reverseRecOn with
  | nil => rfl
  | append_singleton cs c ih =>
      rw [trimEnd_append_singleton]
      split
      · rename_i hc
        rw [ih, pieces_append_singleton_of_isBlank hc]
      · rfl

/-! ## Counts -/

namespace Numeral

/-- A text states a count in decimal digits.  A plus sign may stand in front of them, and
underscores anywhere behind the first one. -/
inductive States : List Char → Nat → Prop
  | intro
      {sign rest : List Char} {first : Char}
      (hsign : sign = [] ∨ sign = ['+'])
      (hfirst : first.isDigit = true)
      (hrest : ∀ c ∈ rest, c.isDigit = true ∨ c = '_') :
      States (sign ++ first :: rest) (Nat.ofDigitChars 10 (first :: rest.filter (· ≠ '_')) 0)

theorem readDigits_eq_some_iff
    {acc n : Nat} :
    readDigits acc cs = some n ↔
      (∀ c ∈ cs, c.isDigit = true ∨ c = '_') ∧
        Nat.ofDigitChars 10 (cs.filter (· ≠ '_')) acc = n := by
  induction cs generalizing acc with
  | nil => simp [readDigits]
  | cons c cs ih =>
      rw [readDigits, List.forall_mem_cons]
      by_cases hline : c = '_'
      · rw [if_pos hline, ih, List.filter_cons_of_neg (by simpa using hline),
          and_iff_right (Or.inr hline)]
      · rw [if_neg hline, List.filter_cons_of_pos (by simpa using hline), Nat.ofDigitChars_cons,
          digit?, or_iff_left hline]
        by_cases hc : c.isDigit = true
        · rw [if_pos hc, Option.bind_some, ih, and_iff_right hc]
        · rw [if_neg hc]
          exact iff_of_false nofun fun h => hc h.1.1

/-- A text is its sign and what is left without it. -/
theorem exists_sign
    (cs : List Char) :
    ∃ sign, (sign = [] ∨ sign = ['+']) ∧ cs = sign ++ unsigned cs := by
  unfold unsigned
  split
  · exact ⟨[], .inl rfl, rfl⟩
  · exact ⟨['+'], .inr rfl, rfl⟩
  · exact ⟨[], .inl rfl, rfl⟩

/-- A sign in front of a digit is all that is dropped. -/
theorem unsigned_append_cons
    {sign : List Char}
    (hsign : sign = [] ∨ sign = ['+'])
    (hd : d.isDigit = true)
    (cs : List Char) :
    unsigned (sign ++ d :: cs) = d :: cs := by
  have hplus : d ≠ '+' := by
    rintro rfl
    cases hd
  rcases hsign with rfl | rfl
  · rw [List.nil_append, unsigned]
    · rintro rest ⟨⟩
      exact hplus rfl
    · rintro rest ⟨⟩
      exact hplus rfl
  · rw [List.singleton_append, unsigned]
    rintro rest ⟨⟩
    exact hplus rfl

/-- The texts that are read as counts are those that state them. -/
theorem read_eq_some_iff
    {n : Nat} :
    read cs = some n ↔ States cs n := by
  constructor
  · intro h
    obtain ⟨sign, hsign, hcs⟩ := exists_sign cs
    rw [read] at h
    cases hdigits : unsigned cs with
    | nil =>
        rw [hdigits] at h
        cases h
    | cons first rest =>
        simp only [hdigits] at h
        obtain ⟨d, hd, hrest⟩ := Option.bind_eq_some_iff.mp h
        rw [digit?] at hd
        split at hd
        · rename_i hfirst
          obtain rfl := Option.some.inj hd
          obtain ⟨hgrouped, rfl⟩ := readDigits_eq_some_iff.mp hrest
          rw [hcs, hdigits]
          have hvalue := States.intro hsign hfirst hgrouped
          rwa [Nat.ofDigitChars_cons, Nat.mul_zero, Nat.zero_add] at hvalue
        · cases hd
  · rintro ⟨hsign, hfirst, hrest⟩
    rw [read, unsigned_append_cons hsign hfirst]
    simp only [digit?, if_pos hfirst, Option.bind_some]
    rw [readDigits_eq_some_iff, Nat.ofDigitChars_cons, Nat.mul_zero, Nat.zero_add]
    exact ⟨hrest, rfl⟩

end Numeral

end Text

/-! ## Lines with a colon -/

theorem cutLast_eq_none
    {mark : Char} {cs : List Char}
    (h : mark ∉ cs) :
    cutLast mark cs = none := by
  induction cs with
  | nil => rfl
  | cons c cs ih =>
      obtain ⟨hc, hcs⟩ := List.ne_and_not_mem_of_not_mem_cons h
      rw [cutLast, ih hcs]
      exact if_neg hc.symm

theorem cutLast_append
    {mark : Char} {after : List Char}
    (hafter : mark ∉ after)
    (before : List Char) :
    cutLast mark (before ++ mark :: after) = some (before, after) := by
  induction before with
  | nil =>
      rw [List.nil_append, cutLast, cutLast_eq_none hafter]
      exact if_pos rfl
  | cons c before ih => rw [List.cons_append, cutLast, ih]

/-- A text that holds a character can be cut where it holds it last. -/
theorem exists_eq_append_last
    {mark : Char} {cs : List Char}
    (h : mark ∈ cs) :
    ∃ before after, cs = before ++ mark :: after ∧ mark ∉ after := by
  induction cs with
  | nil => cases h
  | cons c cs ih =>
      by_cases hcs : mark ∈ cs
      · obtain ⟨before, after, rfl, hafter⟩ := ih hcs
        exact ⟨c :: before, after, rfl, hafter⟩
      · obtain rfl := (List.mem_cons.mp h).resolve_right hcs
        exact ⟨[], cs, rfl, hcs⟩

namespace Sentence

open Text

variable {line : List Char} {lines : List (List Char)} {number : Nat}
variable {s : Sentence} {sentences : List Sentence} {e : SentenceError}

/-! ## What lines hold -/

/-- The characters that a comment begins with. -/
def commentMarks : List Char :=
  ['#', '%', ';']

/-- The first character of a line that is no blank begins a comment, or there is none. -/
def Skipped (line : List Char) : Prop :=
  ∀ c ∈ line.find? (fun c => !isBlank c), c ∈ commentMarks

/-- The words of a text. -/
def tokensOf (cs : List Char) : List String :=
  (cutAndTrim .dropped wordDelimiters cs).map String.ofList

/-- The sentence on a line that is not skipped.  Its tokens are all words of the line and nothing is
expected of it, or they are those in front of the last colon, and the count stands behind it. -/
inductive OnLine : List Char → Sentence → Prop
  | plain
      {line : List Char}
      (hkept : ¬ Skipped line)
      (hcolon : ':' ∉ line) :
      OnLine line ⟨tokensOf line, none⟩
  | counted
      {before after : List Char} {count : Nat}
      (hkept : ¬ Skipped (before ++ ':' :: after))
      (hlast : ':' ∉ after)
      (hcount : Numeral.States (trim after) count) :
      OnLine (before ++ ':' :: after) ⟨tokensOf before, some count⟩

/-- A numbered line is not skipped, and what stands behind its last colon is no count. -/
inductive Malformed (number : Nat) : List Char → SentenceError → Prop
  | intro
      {before after : List Char}
      (hkept : ¬ Skipped (before ++ ':' :: after))
      (hlast : ':' ∉ after)
      (hcount : ∀ count, ¬ Numeral.States (trim after) count) :
      Malformed number (before ++ ':' :: after) ⟨number, String.ofList (trim after)⟩

/-- The sentences on lines, in order. -/
inductive OnLines : List (List Char) → List Sentence → Prop
  | nil : OnLines [] []
  | skipped
      {line : List Char} {lines : List (List Char)} {sentences : List Sentence}
      (hline : Skipped line)
      (rest : OnLines lines sentences) :
      OnLines (line :: lines) sentences
  | sentence
      {line : List Char} {s : Sentence} {lines : List (List Char)} {sentences : List Sentence}
      (hline : OnLine line s)
      (rest : OnLines lines sentences) :
      OnLines (line :: lines) (s :: sentences)

/-- A line is skipped, has a sentence on it, or is malformed. -/
theorem line_cases
    (number : Nat)
    (line : List Char) :
    Skipped line ∨ (∃ s, OnLine line s) ∨ ∃ e, Malformed number line e := by
  by_cases hskipped : Skipped line
  · exact .inl hskipped
  · refine .inr ?_
    by_cases hcolon : ':' ∈ line
    · obtain ⟨before, after, rfl, hlast⟩ := exists_eq_append_last hcolon
      by_cases hcount : ∃ count, Numeral.States (trim after) count
      · obtain ⟨count, hcount⟩ := hcount
        exact .inl ⟨_, .counted hskipped hlast hcount⟩
      · exact .inr ⟨_, .intro hskipped hlast (not_exists.mp hcount)⟩
    · exact .inl ⟨_, .plain hskipped hcolon⟩

theorem skipped_cons_of_isBlank
    {c : Char} {cs : List Char}
    (hc : isBlank c = true) :
    Skipped (c :: cs) ↔ Skipped cs := by
  rw [Skipped, List.find?_cons_of_neg (by simpa using hc), Skipped]

theorem skipped_cons_iff
    {c : Char} {cs : List Char}
    (hc : isBlank c = false) :
    Skipped (c :: cs) ↔ c ∈ commentMarks := by
  rw [Skipped, List.find?_cons_of_pos (by simpa using hc)]
  simp

/-! ## Lines as they are read -/

theorem isSkipped_cons_iff
    {c : Char} {cs : List Char} :
    isSkipped (c :: cs) = true ↔ c ∈ commentMarks := by
  simp [isSkipped, commentMarks, or_assoc]

/-- A line is skipped for its first character when it is trimmed. -/
theorem isSkipped_trim_iff :
    isSkipped (trim line) = true ↔ Skipped line := by
  rw [Skipped, List.find?_not_eq_head?_dropWhile, ← trimStart]
  cases hstart : trimStart line with
  | nil =>
      rw [trim_eq_nil_iff.mpr hstart]
      exact iff_of_true rfl fun _ hc => absurd hc (Option.not_mem_none _)
  | cons c rest =>
      have hc : isBlank c = false := head?_trimStart line c (by rw [hstart]; rfl)
      have htrim : trim line = c :: trimEnd rest := by
        rw [trim, hstart]
        exact trimEnd_append_cons hc [] rest
      rw [htrim, isSkipped_cons_iff]
      simp

theorem ofText_eq
    (cs : List Char) :
    ofText cs = ⟨tokensOf cs, none⟩ := by
  rw [ofText, words, pieces_eq_cutAndTrim, tokensOf]

theorem tokensOf_trimStart
    (cs : List Char) :
    tokensOf (trimStart cs) = tokensOf cs := by
  rw [tokensOf, ← pieces_eq_cutAndTrim, pieces_trimStart, pieces_eq_cutAndTrim, tokensOf]

theorem tokensOf_trimEnd
    (cs : List Char) :
    tokensOf (trimEnd cs) = tokensOf cs := by
  rw [tokensOf, ← pieces_eq_cutAndTrim, pieces_trimEnd, pieces_eq_cutAndTrim, tokensOf]

theorem ofLine_of_skipped
    (h : Skipped line)
    (number : Nat) :
    ofLine number line = .ok none := by
  rw [ofLine]
  exact if_pos (isSkipped_trim_iff.mpr h)

theorem ofLine_of_not_skipped
    (h : ¬ Skipped line)
    (number : Nat) :
    ofLine number line = (ofContent number (trim line)).map some := by
  rw [ofLine]
  exact if_neg fun hskipped => h (isSkipped_trim_iff.mp hskipped)

theorem ofContent_trim_of_not_mem
    (h : ':' ∉ line)
    (number : Nat) :
    ofContent number (trim line) = .ok ⟨tokensOf line, none⟩ := by
  have hnone : ':' ∉ trim line := fun hmem =>
    h ((List.dropWhile_suffix _).subset ((trimEnd_prefix_self _).subset hmem))
  rw [ofContent, cutLast_eq_none hnone, ofText_eq, trim, tokensOf_trimEnd, tokensOf_trimStart]

/-- A line with a colon is cut at the last one, whatever blanks are trimmed. -/
theorem ofContent_trim_append
    {before after : List Char}
    (hlast : ':' ∉ after)
    (number : Nat) :
    ofContent number (trim (before ++ ':' :: after)) =
      (Numeral.read (trim after)).elim (.error ⟨number, String.ofList (trim after)⟩)
        fun count => .ok ⟨tokensOf before, some count⟩ := by
  have hnone : ':' ∉ trimEnd after := fun hmem => hlast ((trimEnd_prefix_self _).subset hmem)
  rw [trim_append_cons (by decide), ofContent, cutLast_append hnone]
  simp only [trim_trimEnd, ofText_eq, tokensOf_trimStart]
  cases Numeral.read (trim after) <;> rfl

theorem ofLine_of_onLine
    (h : OnLine line s)
    (number : Nat) :
    ofLine number line = .ok (some s) := by
  cases h with
  | plain hkept hcolon =>
      rw [ofLine_of_not_skipped hkept, ofContent_trim_of_not_mem hcolon]
      rfl
  | counted hkept hlast hcount =>
      rw [ofLine_of_not_skipped hkept, ofContent_trim_append hlast,
        Numeral.read_eq_some_iff.mpr hcount]
      rfl

theorem ofLine_of_malformed
    (h : Malformed number line e) :
    ofLine number line = .error e := by
  obtain ⟨hkept, hlast, hcount⟩ := h
  rw [ofLine_of_not_skipped hkept, ofContent_trim_append hlast]
  cases hread : Numeral.read (trim _) with
  | none => rfl
  | some count => exact absurd (Numeral.read_eq_some_iff.mp hread) (hcount count)

theorem ofLine_eq_error_iff :
    ofLine number line = .error e ↔ Malformed number line e := by
  refine ⟨fun h => ?_, ofLine_of_malformed⟩
  rcases line_cases number line with hskipped | ⟨s, hs⟩ | ⟨e', he⟩
  · cases (ofLine_of_skipped hskipped number).symm.trans h
  · cases (ofLine_of_onLine hs number).symm.trans h
  · cases (ofLine_of_malformed he).symm.trans h
    exact he

/-! ## Files -/

theorem ofLines_of_onLines
    (h : OnLines lines sentences)
    (number : Nat) :
    ofLines number lines = .ok sentences := by
  induction h generalizing number with
  | nil => rfl
  | skipped hline _ ih =>
      rw [ofLines, ofLine_of_skipped hline, ih]
      rfl
  | sentence hline _ ih =>
      rw [ofLines, ofLine_of_onLine hline, ih]
      rfl

theorem onLines_of_ofLines
    (h : ofLines number lines = .ok sentences) :
    OnLines lines sentences := by
  induction lines generalizing number sentences with
  | nil =>
      cases h
      exact .nil
  | cons line lines ih =>
      rw [ofLines] at h
      obtain ⟨held, hheld, h⟩ := exists_of_bind_eq_ok h
      obtain ⟨others, hothers, h⟩ := exists_of_bind_eq_ok h
      cases h
      rcases line_cases number line with hskipped | ⟨s, hs⟩ | ⟨e, he⟩
      · cases (ofLine_of_skipped hskipped number).symm.trans hheld
        exact .skipped hskipped (ih hothers)
      · cases (ofLine_of_onLine hs number).symm.trans hheld
        exact .sentence hs (ih hothers)
      · cases (ofLine_of_malformed he).symm.trans hheld

theorem ofLines_eq_error_iff :
    ofLines number lines = .error e ↔
      FirstRefused (fun earlier => Malformed (number + earlier.length)) lines e := by
  induction lines generalizing number with
  | nil => exact iff_of_false nofun not_firstRefused_nil
  | cons line lines ih =>
      have hnumber (earlier : List (List Char)) :
          number + (line :: earlier).length = number + 1 + earlier.length := by
        rw [List.length_cons]
        omega
      rw [ofLines, bind_eq_error_iff, firstRefused_cons_iff, List.length_nil, Nat.add_zero]
      simp only [bind_pure_eq_error_iff, hnumber, ih, ← ofLine_eq_error_iff]
      refine or_congr_right ?_
      cases ofLine number line <;> simp

/-- A file is read as the sentences on its lines. -/
theorem readAll_eq_ok_iff
    {text : List Char} :
    readAll text = .ok sentences ↔ OnLines (text.splitOn '\n') sentences := by
  rw [readAll_eq]
  exact ⟨onLines_of_ofLines, fun h => ofLines_of_onLines h 1⟩

/-- Reading a file stops at its first malformed line. -/
theorem readAll_eq_error_iff
    {text : List Char} :
    readAll text = .error e ↔
      FirstRefused (fun earlier => Malformed (earlier.length + 1)) (text.splitOn '\n') e := by
  rw [readAll_eq, ofLines_eq_error_iff]
  simp only [Nat.add_comm 1]

end Sentence
end ChartParsing
