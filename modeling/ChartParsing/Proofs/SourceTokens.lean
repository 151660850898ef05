import ChartParsing.Proofs.SourceReading

/-!
# The lines of grammar texts as tokens

Some things that a grammar text says are plain from the tokens of its lines: which lines begin with
a head and which name the start symbol.  This is said here without a reader, and where a reader
comes to the end of the lines, it has found the same.

**Shapes.** A line is blank, begins with a directive, begins with a head and an arrow, or begins
with a bar; anything else is no line (`SourceTokens.Shape`).

**Results.**
* `Statement.latest_of_readLine`: a line that is read is followed by the head that it begins with.
* `Statement.startOf?_of_readLines`: the start symbol of lines that are read is theirs.
-/

namespace ChartParsing

namespace SourceTokens

/-- The lines of a text. -/
def lines (text : List Char) : List (List Token) :=
  (Token.ofText text).splitOn .newline

/-- The head that a line begins with. -/
def head? : List Token → Option String
  | .symbol head :: .arrow :: _ => some head
  | _ => none

/-- The start symbol that a line names. -/
def start? : List Token → Option String
  | [.directive "start", .symbol name] => some name
  | _ => none

/-- The head that a line without one goes on with. -/
def latestHead? (earlier : List (List Token)) : Option String :=
  (earlier.filterMap head?).getLast?

/-- The start symbol of lines: the one named last, or else the first head. -/
def startOf? (lines : List (List Token)) : Option String :=
  (lines.filterMap start?).getLast?.or (lines.filterMap head?).head?

/-- The shapes of lines, and what is no line. -/
inductive Shape : List Token → Prop
  | blank : Shape []
  | directive
      (directive : String) (arguments : List Token) :
      Shape (.directive directive :: arguments)
  | rule
      (head : String) (rest : List Token) :
      Shape (.symbol head :: .arrow :: rest)
  | continuation
      (rest : List Token) :
      Shape (.bar :: rest)
  | other
      {token : Token} {rest : List Token}
      (hdirective : ∀ directive, token ≠ .directive directive)
      (hbar : token ≠ .bar)
      (hrule : head? (token :: rest) = none) :
      Shape (token :: rest)

theorem Shape.of_tokens
    (tokens : List Token) :
    Shape tokens := by
  rcases tokens with _ | ⟨token, rest⟩
  · exact .blank
  · cases token with
    | directive directive => exact .directive directive rest
    | bar => exact .continuation rest
    | symbol head =>
        rcases rest with _ | ⟨next, rest⟩
        · exact .other nofun nofun rfl
        · cases next with
          | arrow => exact .rule head rest
          | symbol | word | directive | bar | newline | unknown => exact .other nofun nofun rfl
    | word | arrow | newline | unknown => exact .other nofun nofun rfl

theorem latestHead?_append_singleton
    (earlier : List (List Token))
    (line : List Token) :
    latestHead? (earlier ++ [line]) = (head? line).or (latestHead? earlier) := by
  cases h : head? line <;> simp [latestHead?, List.filterMap_append, h]

end SourceTokens

namespace Statement

variable {line : Nat} {head : String} {latest? : Option String}
variable {tokens : List Token} {statement : Statement}
variable {lines : List (List Token)} {statements : List Statement}

theorem head?_of_readAlternatives
    (h : readAlternatives line head tokens = .ok statement) :
    statement.head? = some head := by
  obtain ⟨bodies, _, h⟩ := exists_of_bind_eq_ok h
  cases h
  rfl

theorem start?_of_readAlternatives
    (h : readAlternatives line head tokens = .ok statement) :
    statement.start? = none := by
  obtain ⟨bodies, _, h⟩ := exists_of_bind_eq_ok h
  cases h
  rfl

theorem readLine_of_other
    {token : Token} {rest : List Token}
    (hdirective : ∀ directive, token ≠ .directive directive)
    (hbar : token ≠ .bar)
    (hrule : SourceTokens.head? (token :: rest) = none) :
    readLine line latest? (token :: rest) = .error (.malformed line (.unexpected token)) := by
  refine readLine.eq_6 line latest? token rest hdirective ?_ hbar
  rintro head body rfl rfl
  cases hrule

/-- A line that is read names the start symbol that it says. -/
theorem start?_of_readLine
    (h : readLine line latest? tokens = .ok statement) :
    statement.start? = SourceTokens.start? tokens := by
  cases SourceTokens.Shape.of_tokens tokens with
  | blank =>
      cases h
      rfl
  | directive directive arguments =>
      obtain ⟨name, rfl, rfl, rfl⟩ := readDirective_eq_start h
      rfl
  | rule head rest => exact start?_of_readAlternatives h
  | continuation rest =>
      cases latest? with
      | none => cases h
      | some head =>
          change readAlternatives line head rest = _ at h
          exact start?_of_readAlternatives h
  | other hdirective hbar hrule =>
      cases (readLine_of_other hdirective hbar hrule).symm.trans h

/-- The head that lines go on with behind a line that is read. -/
theorem latest_of_readLine
    (h : readLine line latest? tokens = .ok statement) :
    statement.head?.or latest? = (SourceTokens.head? tokens).or latest? := by
  cases SourceTokens.Shape.of_tokens tokens with
  | blank =>
      cases h
      rfl
  | directive directive arguments =>
      obtain ⟨name, rfl, rfl, rfl⟩ := readDirective_eq_start h
      rfl
  | rule head rest =>
      rw [head?_of_readAlternatives h]
      rfl
  | continuation rest =>
      cases latest? with
      | none => cases h
      | some head =>
          change readAlternatives line head rest = _ at h
          rw [head?_of_readAlternatives h]
          rfl
  | other hdirective hbar hrule =>
      cases (readLine_of_other hdirective hbar hrule).symm.trans h

theorem filterMap_start?_of_readLines
    (h : readLines line latest? lines = .ok statements) :
    statements.filterMap start? = lines.filterMap SourceTokens.start? := by
  induction lines generalizing line latest? statements with
  | nil =>
      cases h
      rfl
  | cons tokens lines ih =>
      obtain ⟨statement, hread, h⟩ := exists_of_bind_eq_ok h
      obtain ⟨later, hlater, h⟩ := exists_of_bind_eq_ok h
      cases h
      rw [List.filterMap_cons, List.filterMap_cons, start?_of_readLine hread, ih hlater]

/-- As long as there is no head, a line gives one exactly if it begins with one. -/
theorem firstHead_of_readLines
    (h : readLines line none lines = .ok statements) :
    (statements.filterMap head?).head? = (lines.filterMap SourceTokens.head?).head? := by
  induction lines generalizing line statements with
  | nil =>
      cases h
      rfl
  | cons tokens lines ih =>
      obtain ⟨statement, hread, h⟩ := exists_of_bind_eq_ok h
      obtain ⟨later, hlater, h⟩ := exists_of_bind_eq_ok h
      cases h
      have hhead := latest_of_readLine hread
      rw [Option.or_none, Option.or_none] at hhead
      rw [Option.or_none] at hlater
      rw [List.filterMap_cons, List.filterMap_cons, ← hhead]
      cases hstatement : statement.head? with
      | some head => rfl
      | none =>
          rw [hstatement] at hlater
          exact ih hlater

/-- The start symbol is the same for lines and what they say. -/
theorem startOf?_of_readLines
    (h : readLines line none lines = .ok statements) :
    startOf? statements = SourceTokens.startOf? lines := by
  rw [startOf?, SourceTokens.startOf?, filterMap_start?_of_readLines h, firstHead_of_readLines h]

end Statement
end ChartParsing
