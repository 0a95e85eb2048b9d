import ScriptSyntax.Lexeme
/-! # Source text

A source is a text and the place where it starts. Reading it gives its tokens, up to the first text
that is no token, and leaves the source behind what was read, so that reading can go on.
-/

namespace ScriptSyntax

/-- Why a text is no row of tokens. -/
inductive LexicalCause where
  | unexpectedCharacter (c : Char)
  | unterminatedString
deriving DecidableEq, Repr

def LexicalCause.message : LexicalCause → String
  | .unexpectedCharacter c => "Unexpected character: " ++ c.toString
  | .unterminatedString => "Unterminated string."

/-- The first text that is no token: what is wrong with it, and where it starts. -/
structure LexicalError where
  cause : LexicalCause
  location : Location
deriving DecidableEq, Repr

def LexicalError.display (e : LexicalError) : String :=
  "[line " ++ toString e.location.line ++ "] Error: " ++ e.cause.message

/-- A text and the place of its first character. -/
structure Source where
  location : Location
  text : List Char
deriving DecidableEq, Repr

namespace Source

def ofString (s : String) : Source := ⟨.start, s.toList⟩

/-- The characters between lexemes, comments apart. -/
def isBlank (c : Char) : Bool := c == ' ' || c == '\t' || c == '\r' || c == '\n'

/-- The source behind the blanks and comments in front of it. A comment starts with two slashes and
runs to the end of its line. -/
def skipGap (s : Source) : Source :=
  go false s.location s.text
where
  /-- Skips a gap at a place, or the rest of a comment. -/
  go (inComment : Bool) (location : Location) : List Char → Source
    | [] => ⟨location, []⟩
    | c :: rest =>
      if inComment then go (c != '\n') (location.advance c) rest
      else if isBlank c then go false (location.advance c) rest
      else if c = '/' && rest.head? == some '/' then go true (location.advance c) rest
      else ⟨location, c :: rest⟩

/-- What is skipped stands in front of what is left, and the place moves behind it. -/
theorem skipGap_eq (s : Source) :
    ∃ gap, s.text = gap ++ s.skipGap.text ∧ s.skipGap.location = s.location.after gap := by
  suffices h : ∀ (text : List Char) (inComment : Bool) (location : Location),
      ∃ gap, text = gap ++ (skipGap.go inComment location text).text ∧
        (skipGap.go inComment location text).location = location.after gap from
    h s.text false s.location
  intro text inComment location
  fun_induction skipGap.go inComment location text with
  | case1 => exact ⟨[], rfl, rfl⟩
  | case5 => exact ⟨[], rfl, rfl⟩
  | _ =>
    rename_i ih
    obtain ⟨gap, htext, hlocation⟩ := ih
    exact ⟨_ :: gap, by rw [List.cons_append, ← htext], hlocation⟩

theorem length_skipGap_le (s : Source) : s.skipGap.text.length ≤ s.text.length := by
  obtain ⟨gap, htext, _⟩ := s.skipGap_eq
  rw [htext, List.length_append]
  omega

/-- The tokens of a source with the end of the input behind them, or the first text that is no
token, and the source behind what was read. A character that is no token counts as read, and so
does all of a string that is never closed. -/
def tokenize (s : Source) : Except LexicalError (List Token) × Source :=
  go s.text s []
where
  /-- Puts the tokens behind the earlier ones, which stand in reverse. Each token takes at least one
  character, so `bound` need not be longer than the text. -/
  go (bound : List Char) (s : Source) (earlier : List Token) :
      Except LexicalError (List Token) × Source :=
    match s.skipGap with
    | ⟨location, []⟩ => (.ok (earlier.reverse ++ [.endOfInput location]), ⟨location, []⟩)
    | ⟨location, c :: text⟩ =>
      match Front.of c text with
      | .unexpected =>
        (.error ⟨.unexpectedCharacter c, location⟩, ⟨location.advance c, text⟩)
      | .unterminated =>
        (.error ⟨.unterminatedString, location⟩, ⟨location.after (c :: text), []⟩)
      | .lexeme l =>
        match bound with
        | [] => (.ok earlier.reverse, ⟨location, c :: text⟩)
        | _ :: bound =>
          go bound ⟨location.after l.text, (c :: text).drop l.text.length⟩
            (l.toToken location :: earlier)

/-- A longer bound changes nothing, and earlier tokens come first. -/
theorem tokenize.go_eq (bound : List Char) (s : Source) (earlier : List Token)
    (h : s.text.length ≤ bound.length) :
    go bound s earlier = (s.tokenize.1.map (earlier.reverse ++ ·), s.tokenize.2) := by
  show _ = ((go s.text s []).1.map _, (go s.text s []).2)
  induction hn : s.text.length using Nat.strongRecOn generalizing bound s earlier with
  | _ n ih =>
  have hgap := s.length_skipGap_le
  unfold go
  split
  · simp [Except.map]
  · rename_i location c text hskip
    rw [hskip] at hgap
    split
    · simp [Except.map]
    · simp [Except.map]
    · rename_i l hl
      have hl := List.length_pos_iff.2 (Front.ne_nil_of_eq_lexeme hl)
      simp only [List.length_cons] at hgap
      obtain ⟨b, bound, rfl⟩ := List.exists_cons_of_length_pos (show 0 < bound.length by omega)
      obtain ⟨b', rest, htext⟩ := List.exists_cons_of_length_pos (show 0 < s.text.length by omega)
      simp only [htext]
      simp only [htext, List.length_cons] at h hgap hn
      rw [ih ((c :: text).drop l.text.length).length (by simp; omega) bound _ _ (by simp; omega)
          rfl,
        ih ((c :: text).drop l.text.length).length (by simp; omega) rest _ _ (by simp; omega) rfl]
      rcases (go _ _ []).1 with e | ts <;> simp [Except.map]

theorem tokenize_eq (s : Source) :
    s.tokenize =
      match s.skipGap with
      | ⟨location, []⟩ => (.ok [.endOfInput location], ⟨location, []⟩)
      | ⟨location, c :: text⟩ =>
        match Front.of c text with
        | .unexpected =>
          (.error ⟨.unexpectedCharacter c, location⟩, ⟨location.advance c, text⟩)
        | .unterminated =>
          (.error ⟨.unterminatedString, location⟩, ⟨location.after (c :: text), []⟩)
        | .lexeme l =>
          let (tokens, rest) :=
            tokenize ⟨location.after l.text, (c :: text).drop l.text.length⟩
          (tokens.map (l.toToken location :: ·), rest) := by
  have hgap := s.length_skipGap_le
  show tokenize.go s.text s [] = _
  unfold tokenize.go
  split
  · rfl
  · rename_i location c text hskip
    rw [hskip] at hgap
    split
    · rfl
    · rfl
    · rename_i l hl
      have hl := List.length_pos_iff.2 (Front.ne_nil_of_eq_lexeme hl)
      simp only [List.length_cons] at hgap
      obtain ⟨b, rest, htext⟩ := List.exists_cons_of_length_pos (show 0 < s.text.length by omega)
      simp only [htext]
      simp only [htext, List.length_cons] at hgap
      rw [tokenize.go_eq rest _ _ (by simp; omega)]
      rfl

end Source

/-- The tokens of a text, with the end of the input behind them. -/
def tokenize (s : String) : Except LexicalError (List Token) := (Source.ofString s).tokenize.1

end ScriptSyntax
