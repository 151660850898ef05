import ChartParsing.Proofs.CursorView
import ChartParsing.Text.Cutter

/-!
# Texts cut and trimmed

Cutting a text at its delimiters leaves its fields.  The pieces of a text are these fields, each of
them trimmed and the empty ones left out, and in between the delimiters, if they are kept.  A
cutter, which skips blanks in front of a piece and drops blanks behind it, gives the same.

**Step.** A text that goes on behind a delimiter has the pieces of the field in front of it, what
the delimiter leaves, and the pieces of the rest (`pieces_append_cons`).  The next piece of a cutter
is the first of the pieces that are left (`Cutter.next_of_field`, `Cutter.next_of_delimiter`).

**Results.** `cuts_iff_cut_and_trimmed`: a cutter stops, its pieces are the trimmed fields of its
text, and none of them is empty, has a blank at an end, or holds a delimiter that it was cut at.
-/

namespace ChartParsing

/-! ## Lists cut and joined -/

/-- A list is cut once more often than it holds what it is cut at. -/
theorem length_splitOn
    {α : Type} [DecidableEq α]
    (a : α)
    (xs : List α) :
    (xs.splitOn a).length = xs.count a + 1 := by
  induction xs with
  | nil => rfl
  | cons x xs ih =>
      rw [List.splitOn_cons_eq_if_modifyHead, List.count_cons]
      split
      · rw [List.length_cons, ih]
      · rw [List.length_modifyHead, ih, Nat.add_zero]

theorem mem_of_mem_intercalate
    {α : Type}
    {a x : α} {xss : List (List α)}
    (h : x ∈ [a].intercalate xss) :
    x = a ∨ ∃ xs ∈ xss, x ∈ xs := by
  induction xss with
  | nil => cases h
  | cons xs xss ih =>
      by_cases hnil : xss = []
      · rw [hnil, List.intercalate_singleton] at h
        exact Or.inr ⟨xs, List.mem_cons_self, h⟩
      · rw [List.intercalate_cons_of_ne_nil hnil, List.append_assoc, List.mem_append,
          List.singleton_append, List.mem_cons] at h
        rcases h with h | rfl | h
        · exact Or.inr ⟨xs, List.mem_cons_self, h⟩
        · exact Or.inl rfl
        · exact (ih h).imp_right fun ⟨ys, hys, hx⟩ => ⟨ys, List.mem_cons_of_mem _ hys, hx⟩

namespace Text

/-! ## Trimmed texts -/

/-- A text that neither begins nor ends with a blank. -/
structure Trimmed (cs : List Char) : Prop where
  head : ∀ c ∈ cs.head?, isBlank c = false
  last : ∀ c ∈ cs.getLast?, isBlank c = false

variable {cs field rest delims : List Char} {mode : Delimiters} {d : Char}

theorem trimEnd_prefix_self
    (cs : List Char) :
    trimEnd cs <+: cs := by
  rw [← List.reverse_suffix, trimEnd, List.reverse_reverse]
  exact List.dropWhile_suffix _

theorem trimEnd_eq_nil_iff :
    trimEnd cs = [] ↔ ∀ c ∈ cs, isBlank c = true := by
  rw [trimEnd, List.reverse_eq_nil_iff, List.dropWhile_eq_nil_iff]
  simp only [List.mem_reverse]

theorem trimStart_eq_nil_iff :
    trimStart cs = [] ↔ ∀ c ∈ cs, isBlank c = true :=
  List.dropWhile_eq_nil_iff

/-- What is trimmed at its start holds only blanks if it holds nothing. -/
theorem trim_eq_nil_iff :
    trim cs = [] ↔ trimStart cs = [] := by
  constructor
  · intro h
    cases hstart : trimStart cs with
    | nil => rfl
    | cons c rest =>
        rw [trim, hstart, trimEnd_eq_nil_iff] at h
        have hc : isBlank c = false := head?_trimStart cs c (by rw [hstart]; rfl)
        rw [h c List.mem_cons_self] at hc
        cases hc
  · intro h
    rw [trim, h, trimEnd_nil]

theorem trim_cons_of_isBlank
    {c : Char}
    (hc : isBlank c = true)
    (cs : List Char) :
    trim (c :: cs) = trim cs := by
  rw [trim, trimStart_cons, if_pos hc, trim]

theorem trimmed_trim
    (cs : List Char) :
    Trimmed (trim cs) where
  head := by
    intro c hc
    obtain ⟨blanks, hblanks⟩ := trimEnd_prefix_self (trimStart cs)
    refine head?_trimStart cs c ?_
    rw [← hblanks, List.head?_append, ← trim, hc]
    rfl
  last := fun c hc => getLast?_trimEnd (trimStart cs) c hc

theorem trimEnd_eq_self
    (h : ∀ c ∈ cs.getLast?, isBlank c = false) :
    trimEnd cs = cs := by
  rcases List.eq_nil_or_concat cs with rfl | ⟨front, c, rfl⟩
  · rfl
  · rw [List.concat_eq_append] at h ⊢
    rw [trimEnd_append_singleton, h c List.getLast?_concat, if_neg Bool.false_ne_true]

theorem Trimmed.trim_eq
    (h : Trimmed cs) :
    trim cs = cs := by
  have hstart : trimStart cs = cs := by
    cases cs with
    | nil => rfl
    | cons c cs => rw [trimStart_cons, h.head c rfl, if_neg Bool.false_ne_true]
  rw [trim, hstart, trimEnd_eq_self h.last]

/-! ## Fields -/

/-- The piece that a field leaves: itself without the blanks at its ends, if that is not empty. -/
def trimmedField (field : List Char) : List (List Char) :=
  if (trim field).isEmpty then [] else [trim field]

/-- A text cut at its delimiters: every field leaves its piece, and every delimiter its own between
the fields. -/
def cutAndTrim (mode : Delimiters) (delims cs : List Char) : List (List Char) :=
  (List.zipWith (fun field behind => trimmedField field ++ behind)
    (cs.splitOnP delims.contains)
    ((cs.filter delims.contains).map mode.piece ++ [[]])).flatten

/-- What is left of a field without its leading blanks is a piece as it is trimmed. -/
theorem stretch_trimStart
    (field : List Char) :
    stretch (trimStart field) = trimmedField field := by
  have hempty : (trim field).isEmpty = (trimStart field).isEmpty := by
    rw [Bool.eq_iff_iff, List.isEmpty_iff, List.isEmpty_iff, trim_eq_nil_iff]
  rw [stretch, trimmedField, hempty, trim]

section Fields

variable (hfield : ∀ c ∈ field, c ∉ delims)
include hfield

theorem cutAndTrim_of_free :
    cutAndTrim mode delims field = trimmedField field := by
  have hsplit : field.splitOnP delims.contains = [field] :=
    List.splitOnP_eq_singleton fun c hc => by simpa using hfield c hc
  have hdelims : field.filter delims.contains = [] := by
    simpa [List.filter_eq_nil_iff] using hfield
  rw [cutAndTrim, hsplit, hdelims]
  simp

theorem cutAndTrim_append_cons
    (hd : d ∈ delims)
    (rest : List Char) :
    cutAndTrim mode delims (field ++ d :: rest) =
      trimmedField field ++ (mode.piece d ++ cutAndTrim mode delims rest) := by
  have hcontains : delims.contains d = true := by simpa using hd
  have hsplit : (field ++ d :: rest).splitOnP delims.contains =
      field :: rest.splitOnP delims.contains :=
    List.splitOnP_append_cons_of_forall_mem (fun c hc => by simpa using hfield c hc) d hcontains
      rest
  have hdelims : (field ++ d :: rest).filter delims.contains =
      d :: rest.filter delims.contains := by
    have hnone : field.filter delims.contains = [] := by
      simpa [List.filter_eq_nil_iff] using hfield
    rw [List.filter_append, hnone, List.nil_append, List.filter_cons_of_pos hcontains]
  rw [cutAndTrim, hsplit, hdelims, List.map_cons, List.cons_append, List.zipWith_cons_cons,
    List.flatten_cons, List.append_assoc]
  rfl

theorem skipBlanks_append
    (hrest : ∀ c ∈ rest.head?, c ∈ delims) :
    skipBlanks delims (field ++ rest) = trimStart field ++ rest := by
  induction field with
  | nil =>
      cases rest with
      | nil => rfl
      | cons c rest =>
          have hc : c ∈ delims := hrest c rfl
          simp [skipBlanks, hc]
  | cons c field ih =>
      obtain ⟨hc, hfield⟩ := List.forall_mem_cons.mp hfield
      by_cases hblank : isBlank c = true
      · rw [trimStart_cons, if_pos hblank, ← ih hfield]
        simp [skipBlanks, hc, hblank]
      · rw [trimStart_cons, if_neg hblank]
        simp [skipBlanks, hblank]

theorem beforeDelimiter_append
    (hrest : ∀ c ∈ rest.head?, c ∈ delims) :
    beforeDelimiter delims (field ++ rest) = field := by
  have hnone : beforeDelimiter delims rest = [] := by
    cases rest with
    | nil => rfl
    | cons c rest =>
        have hc : c ∈ delims := hrest c rfl
        simp [beforeDelimiter, hc]
  rw [beforeDelimiter, List.takeWhile_append_of_pos (fun c hc => by simpa using hfield c hc),
    ← beforeDelimiter, hnone, List.append_nil]

theorem fromDelimiter_append
    (hrest : ∀ c ∈ rest.head?, c ∈ delims) :
    fromDelimiter delims (field ++ rest) = rest := by
  have hall : fromDelimiter delims rest = rest := by
    cases rest with
    | nil => rfl
    | cons c rest =>
        have hc : c ∈ delims := hrest c rfl
        simp [fromDelimiter, hc]
  rw [fromDelimiter, List.dropWhile_append_of_pos (fun c hc => by simpa using hfield c hc),
    ← fromDelimiter, hall]

/-- Behind its leading blanks, a text still goes on with its field up to the same delimiter. -/
theorem cut_skipBlanks
    (hrest : ∀ c ∈ rest.head?, c ∈ delims) :
    beforeDelimiter delims (skipBlanks delims (field ++ rest)) = trimStart field ∧
      fromDelimiter delims (skipBlanks delims (field ++ rest)) = rest := by
  have hstart : ∀ c ∈ trimStart field, c ∉ delims :=
    fun c hc => hfield c ((List.dropWhile_suffix _).subset hc)
  rw [skipBlanks_append hfield hrest]
  exact ⟨beforeDelimiter_append hstart hrest, fromDelimiter_append hstart hrest⟩

theorem pieces_of_free :
    pieces mode delims field = trimmedField field := by
  have hnone : ∀ c ∈ ([] : List Char).head?, c ∈ delims := nofun
  obtain ⟨hbefore, hfrom⟩ := cut_skipBlanks hfield hnone
  rw [List.append_nil] at hbefore hfrom
  rw [pieces]
  split
  · rw [hbefore, stretch_trimStart]
  · rename_i hcons
    rw [hfrom] at hcons
    cases hcons

theorem pieces_append_cons
    (hd : d ∈ delims)
    (rest : List Char) :
    pieces mode delims (field ++ d :: rest) =
      trimmedField field ++ (mode.piece d ++ pieces mode delims rest) := by
  have hrest : ∀ c ∈ (d :: rest).head?, c ∈ delims := by simpa using hd
  obtain ⟨hbefore, hfrom⟩ := cut_skipBlanks hfield hrest
  rw [pieces]
  split
  · rename_i hnil
    rw [hfrom] at hnil
    cases hnil
  · rename_i hcons
    rw [hfrom] at hcons
    cases hcons
    rw [hbefore, stretch_trimStart]

end Fields

/-- Induction over the fields of a text: it is one field, or a field with a delimiter and a text
behind it. -/
@[elab_as_elim]
theorem induction_on_fields
    (delims : List Char)
    {motive : List Char → Prop}
    (last : ∀ field, (∀ c ∈ field, c ∉ delims) → motive field)
    (cons : ∀ field d rest, (∀ c ∈ field, c ∉ delims) → d ∈ delims → motive rest →
      motive (field ++ d :: rest))
    (cs : List Char) :
    motive cs := by
  have hcs : beforeDelimiter delims cs ++ fromDelimiter delims cs = cs :=
    List.takeWhile_append_dropWhile
  have hfield : ∀ c ∈ beforeDelimiter delims cs, c ∉ delims := by
    intro c hc
    simpa using List.mem_takeWhile_imp hc
  have hlen := length_fromDelimiter_le delims cs
  have hhead := List.head?_dropWhile_not (fun c => !delims.contains c) cs
  rw [← fromDelimiter] at hhead
  cases hfrom : fromDelimiter delims cs with
  | nil =>
      rw [hfrom, List.append_nil] at hcs
      rw [hcs] at hfield
      exact last cs hfield
  | cons d rest =>
      rw [hfrom] at hcs hhead
      have hrest : motive rest := induction_on_fields delims last cons rest
      have hmotive := cons _ d rest hfield (by simpa using hhead) hrest
      rwa [hcs] at hmotive
termination_by cs.length
decreasing_by
  rw [hfrom, List.length_cons] at hlen
  exact hlen

theorem pieces_eq_cutAndTrim
    (mode : Delimiters)
    (delims cs : List Char) :
    pieces mode delims cs = cutAndTrim mode delims cs := by
  induction cs using induction_on_fields delims with
  | last field hfield => rw [pieces_of_free hfield, cutAndTrim_of_free hfield]
  | cons field d rest hfield hd ih =>
      rw [pieces_append_cons hfield hd, cutAndTrim_append_cons hfield hd, ih]

/-- A piece that a field leaves: it is not empty, holds no delimiter and has no blank at its
ends. -/
structure IsWord (delims piece : List Char) : Prop where
  ne_nil : piece ≠ []
  not_delimiter : ∀ c ∈ piece, c ∉ delims
  trimmed : Trimmed piece

-- by `List.all`, as the instance that is found for all members of a list tries every character
instance (delims piece : List Char) : Decidable (IsWord delims piece) :=
  decidable_of_iff
    (piece ≠ [] ∧ piece.all (fun c => c ∉ delims) = true ∧
      piece.head?.all (fun c => isBlank c = false) = true ∧
      piece.getLast?.all (fun c => isBlank c = false) = true) (by
    simp only [List.all_eq_true, Option.all_eq_true, decide_eq_true_eq]
    constructor
    · rintro ⟨hne, hdelim, hhead, hlast⟩
      exact ⟨hne, hdelim, hhead, hlast⟩
    · rintro ⟨hne, hdelim, hhead, hlast⟩
      exact ⟨hne, hdelim, hhead, hlast⟩)

theorem isWord_of_mem_trimmedField
    {piece : List Char}
    (hfield : ∀ c ∈ field, c ∉ delims)
    (h : piece ∈ trimmedField field) :
    IsWord delims piece := by
  rw [trimmedField] at h
  split at h
  · cases h
  · rename_i hne
    obtain rfl := List.mem_singleton.mp h
    refine ⟨by simpa using hne, ?_, trimmed_trim field⟩
    intro c hc
    exact hfield c ((List.dropWhile_suffix _).subset ((trimEnd_prefix_self _).subset hc))

theorem isWord_or_delimiter_of_mem
    {piece : List Char}
    (h : piece ∈ cutAndTrim mode delims cs) :
    IsWord delims piece ∨ mode = .kept ∧ ∃ d ∈ delims, piece = [d] := by
  induction cs using induction_on_fields delims with
  | last field hfield =>
      rw [cutAndTrim_of_free hfield] at h
      exact .inl (isWord_of_mem_trimmedField hfield h)
  | cons field d rest hfield hd ih =>
      rw [cutAndTrim_append_cons hfield hd, List.mem_append, List.mem_append] at h
      rcases h with h | h | h
      · exact .inl (isWord_of_mem_trimmedField hfield h)
      · cases mode with
        | dropped => cases h
        | kept => exact .inr ⟨rfl, d, hd, List.mem_singleton.mp h⟩
      · exact ih h

/-! ## Runs of a cutter -/

namespace Cutter

variable {c c' : Cutter} {cursor : Cursor} {list list' : List (List Char)}

theorem start_of_between
    (h : c.cursor.Between [] cs) :
    c.start.Between [] (skipBlanks c.delims cs) :=
  (h.skipAll _).ignore

theorem next_eq
    (c : Cutter) :
    c.next =
      match c.start.skipAll fun x => !c.delims.contains x with
      | (true, stop) => (some (trimEnd stop.extract.1), { c with cursor := stop.extract.2 })
      | (false, here) =>
          match here.acceptAny c.delims with
          | (none, here') => (none, { c with cursor := here' })
          | (some _, behind) =>
              match c.mode with
              | .kept => (some behind.extract.1, { c with cursor := behind.extract.2 })
              | .dropped => next { c with cursor := behind.extract.2 } := by
  rw [next]
  split <;> rename_i hpiece <;> rw [hpiece]
  simp only
  split
  · rename_i hdelim
    simp only [hdelim]
  · rename_i hdelim
    cases c.mode <;> simp only [hdelim]

section Steps

variable (hfield : ∀ x ∈ field, x ∉ c.delims)
include hfield

/-- What a cutter reads without a delimiter. -/
theorem exists_skipAll
    (h : c.cursor.Between [] (field ++ rest))
    (hrest : ∀ x ∈ rest.head?, x ∈ c.delims) :
    ∃ stop, c.start.skipAll (fun x => !c.delims.contains x) = (!(trimStart field).isEmpty, stop) ∧
      stop.Between (trimStart field) rest := by
  obtain ⟨hbefore, hfrom⟩ := cut_skipBlanks hfield hrest
  have hstart := start_of_between h
  have hread := hstart.skipAll_fst fun x => !c.delims.contains x
  have hstop := hstart.skipAll fun x => !c.delims.contains x
  rw [← beforeDelimiter, hbefore] at hread hstop
  rw [← fromDelimiter, hfrom] at hstop
  exact ⟨_, Prod.ext hread rfl, hstop⟩

/-- A field that holds more than blanks is the next piece. -/
theorem next_of_field
    (h : c.cursor.Between [] (field ++ rest))
    (hrest : ∀ x ∈ rest.head?, x ∈ c.delims)
    (hne : trimStart field ≠ []) :
    ∃ cursor, c.next = (some (trim field), { c with cursor }) ∧ cursor.Between [] rest := by
  obtain ⟨stop, hread, hstop⟩ := exists_skipAll hfield h hrest
  obtain ⟨htaken, hcursor⟩ := hstop.extract
  have hsome : (!(trimStart field).isEmpty) = true := by simpa using hne
  rw [hsome] at hread
  refine ⟨stop.extract.2, ?_, hcursor⟩
  rw [next_eq, hread]
  simp only [htaken, trim]

/-- Behind the last delimiter, a field of blanks is no piece. -/
theorem next_of_last_blanks
    (h : c.cursor.Between [] field)
    (hblank : trimStart field = []) :
    ∃ c', c.next = (none, c') := by
  rw [← List.append_nil field] at h
  obtain ⟨stop, hread, hstop⟩ := exists_skipAll hfield h nofun
  obtain ⟨here, hdelim, -⟩ := hstop.acceptIf_nil c.delims.contains
  rw [hblank] at hread
  rw [next_eq, hread]
  simp only [Cursor.acceptAny, hdelim, List.isEmpty_nil, Bool.not_true]
  exact ⟨_, rfl⟩

/-- Behind a field of blanks the delimiter is read, and is the next piece or dropped. -/
theorem next_of_delimiter
    (h : c.cursor.Between [] (field ++ d :: rest))
    (hblank : trimStart field = [])
    (hd : d ∈ c.delims) :
    ∃ cursor, cursor.Between [] rest ∧
      (c.mode = .kept → c.next = (some [d], { c with cursor })) ∧
      (c.mode = .dropped → c.next = next { c with cursor }) := by
  have hrest : ∀ x ∈ (d :: rest).head?, x ∈ c.delims := by simpa using hd
  obtain ⟨stop, hread, hstop⟩ := exists_skipAll hfield h hrest
  obtain ⟨behind, hdelim, hbehind⟩ :=
    hstop.acceptIf_cons (p := c.delims.contains) (by simpa using hd)
  obtain ⟨htaken, hcursor⟩ := hbehind.extract
  rw [hblank] at hread htaken
  refine ⟨behind.extract.2, hcursor, ?_, ?_⟩
  · intro hmode
    rw [next_eq, hread]
    simp only [Cursor.acceptAny, hdelim, hmode, htaken, List.isEmpty_nil, Bool.not_true,
      List.nil_append]
  · intro hmode
    rw [next_eq, hread]
    simp only [Cursor.acceptAny, hdelim, hmode, List.isEmpty_nil, Bool.not_true]

end Steps

/-- Cutters that give the same piece next give the same pieces. -/
theorem Cuts.of_next_eq
    (h : Cuts c' list)
    (hnext : c.next = c'.next) :
    Cuts c list := by
  cases h with
  | stop hstop => exact .stop (hnext.trans hstop)
  | piece hpiece rest => exact .piece (hnext.trans hpiece) rest

/-- A cutter is read in one way only. -/
theorem Cuts.unique
    (h : Cuts c list)
    (h' : Cuts c list') :
    list = list' := by
  induction h generalizing list' with
  | stop hnext =>
      cases h' with
      | stop => rfl
      | piece hnext' =>
          rw [hnext] at hnext'
          cases hnext'
  | piece hnext _ ih =>
      cases h' with
      | stop hnext' =>
          rw [hnext] at hnext'
          cases hnext'
      | piece hnext' rest' =>
          rw [hnext] at hnext'
          cases hnext'
          rw [ih rest']

/-- A cutter in front of a field of blanks gives what the delimiter behind it leaves, and then what
it gives behind the delimiter. -/
theorem cuts_of_delimiter
    (hfield : ∀ x ∈ field, x ∉ delims)
    (h : cursor.Between [] (field ++ d :: rest))
    (hblank : trimStart field = [])
    (hd : d ∈ delims)
    (hrest : ∀ behind : Cursor, behind.Between [] rest → Cuts ⟨behind, delims, mode⟩ list) :
    Cuts ⟨cursor, delims, mode⟩ (mode.piece d ++ list) := by
  obtain ⟨behind, hbetween, hkept, hdropped⟩ :=
    next_of_delimiter (c := ⟨cursor, delims, mode⟩) hfield h hblank hd
  cases mode with
  | kept => exact .piece (hkept rfl) (hrest behind hbetween)
  | dropped => exact (hrest behind hbetween).of_next_eq (hdropped rfl)

/-- A cutter gives the trimmed fields of the text that is left. -/
theorem cuts_of_between
    (h : cursor.Between [] cs) :
    Cuts ⟨cursor, delims, mode⟩ (cutAndTrim mode delims cs) := by
  -- behind a piece the cutter stands in front of an empty field
  have hnone : ∀ x ∈ ([] : List Char), x ∉ delims := fun _ hx => absurd hx List.not_mem_nil
  induction cs using induction_on_fields delims generalizing cursor with
  | last field hfield =>
      rw [cutAndTrim_of_free hfield, ← stretch_trimStart, stretch]
      split
      · rename_i hempty
        obtain ⟨c', hnext⟩ :=
          next_of_last_blanks (c := ⟨cursor, delims, mode⟩) hfield h (List.isEmpty_iff.mp hempty)
        exact .stop hnext
      · rename_i hne
        rw [← List.append_nil field] at h
        obtain ⟨stop, hnext, hstop⟩ := next_of_field (c := ⟨cursor, delims, mode⟩) hfield h nofun
          (by simpa using hne)
        obtain ⟨c', hend⟩ := next_of_last_blanks (c := ⟨stop, delims, mode⟩) hnone hstop rfl
        exact .piece hnext (.stop hend)
  | cons field d rest hfield hd ih =>
      rw [cutAndTrim_append_cons hfield hd, ← stretch_trimStart, stretch]
      split
      · rename_i hempty
        exact cuts_of_delimiter hfield h (List.isEmpty_iff.mp hempty) hd fun _ => ih
      · rename_i hne
        obtain ⟨stop, hnext, hstop⟩ := next_of_field (c := ⟨cursor, delims, mode⟩) hfield h
          (by simpa using hd) (by simpa using hne)
        exact .piece hnext (cuts_of_delimiter hnone hstop rfl hd fun _ => ih)

end Cutter

/-- A cutter stops on every text, and gives the trimmed fields of the text that are not empty, with
the delimiters between them if they are kept.  A piece that is no delimiter is not empty, holds
none, and has no blank at its ends. -/
theorem cuts_iff_cut_and_trimmed
    (mode : Delimiters)
    (delims cs : List Char) :
    (∀ list, Cutter.Cuts (.ofText mode delims cs) list ↔ list = cutAndTrim mode delims cs) ∧
      pieces mode delims cs = cutAndTrim mode delims cs ∧
      ∀ piece ∈ cutAndTrim mode delims cs,
        IsWord delims piece ∨ mode = .kept ∧ ∃ d ∈ delims, piece = [d] := by
  have hrun : Cutter.Cuts (.ofText mode delims cs) (cutAndTrim mode delims cs) :=
    Cutter.cuts_of_between (Cursor.between_ofText cs)
  refine ⟨?_, pieces_eq_cutAndTrim mode delims cs, fun piece => isWord_or_delimiter_of_mem⟩
  intro list
  constructor
  · intro h
    exact h.unique hrun
  · rintro rfl
    exact hrun

-- a blank that is a delimiter is a piece, and one that is none is trimmed
example :
    cutAndTrim .kept [' ', '+'] "\ta + b\t".toList = [['a'], [' '], ['+'], [' '], ['b']] := by
  decide +kernel

end Text
end ChartParsing
