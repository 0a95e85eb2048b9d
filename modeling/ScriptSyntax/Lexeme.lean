import ScriptSyntax.Token.Basic
/-! # Lexemes

The lexeme at the front of a text is the longest one that stands there: a mark or an operator, a
quoted string, a number, or a word.
-/

namespace ScriptSyntax

/-- A kind of token and a text of that kind. -/
structure Lexeme where
  kind : TokenKind
  text : List Char
deriving DecidableEq, Repr

namespace Lexeme

/-- The value of a lexeme: a string stands for what is between its quotes, a number for the double
precision number nearest to it. -/
def literal (l : Lexeme) : Option Literal :=
  match l.kind with
  | .string => some (.text (String.ofList (l.text.drop 1).dropLast))
  | .number => some (.number (Decimal.ofText l.text).nearest)
  | _ => none

/-- The token of a lexeme at a place. -/
def toToken (l : Lexeme) (location : Location) : Token :=
  ⟨l.kind, String.ofList l.text, l.literal, location⟩

/-! ## What stands at the front of a text -/

def startsWord (c : Char) : Bool := c.isAlpha || c == '_'

def continuesWord (c : Char) : Bool := c.isAlphanum || c == '_'

/-- The word at the front. -/
def frontWord (text : List Char) : List Char := text.takeWhile continuesWord

/-- The digits at the front, and a point if a digit follows it, with all the digits behind it. -/
def frontNumber (text : List Char) : List Char :=
  let whole := text.takeWhile Char.isDigit
  match text.dropWhile Char.isDigit with
  | '.' :: d :: tail =>
    if d.isDigit then whole ++ '.' :: (d :: tail).takeWhile Char.isDigit else whole
  | _ => whole

/-- The string whose opening quote stands in front of the text. It has no escapes and may span
lines. -/
def frontString? (text : List Char) : Option (List Char) :=
  match text.dropWhile (· != '"') with
  | [] => none
  | quote :: _ => some ('"' :: text.takeWhile (· != '"') ++ [quote])

/-- The first mark or operator of the table that stands at the front. -/
def frontSymbol? (text : List Char) : Option (List Char × TokenKind) :=
  TokenKind.symbols.find? (·.1.isPrefixOf text)

theorem frontWord_prefix (text : List Char) : frontWord text <+: text :=
  List.takeWhile_prefix _

theorem frontNumber_prefix (text : List Char) : frontNumber text <+: text := by
  have whole := List.takeWhile_append_dropWhile (p := Char.isDigit) (l := text)
  unfold frontNumber
  split
  · rename_i d tail h
    split
    · rw [h] at whole
      refine ⟨(d :: tail).dropWhile Char.isDigit, ?_⟩
      rw [List.append_assoc, List.cons_append, List.takeWhile_append_dropWhile]
      exact whole
    · exact List.takeWhile_prefix _
  · exact List.takeWhile_prefix _

theorem frontString?_prefix {text s : List Char} (h : frontString? text = some s) :
    s <+: '"' :: text := by
  have whole := List.takeWhile_append_dropWhile (p := (· != '"')) (l := text)
  unfold frontString? at h
  split at h
  · contradiction
  · rename_i quote tail hdrop
    cases h
    rw [hdrop] at whole
    exact ⟨tail, by simpa using whole⟩

theorem frontSymbol?_prefix {text : List Char} {s : List Char × TokenKind}
    (h : frontSymbol? text = some s) : s.1 <+: text := by
  have hs := List.find?_some h
  exact List.isPrefixOf_iff_prefix.1 hs

end Lexeme

/-- What stands at the front of a text that is not empty: a lexeme, a character that starts none, or
a string that is never closed. -/
inductive Front where
  | lexeme (l : Lexeme)
  | unexpected
  | unterminated
deriving DecidableEq, Repr

namespace Front

/-- The front of the text that starts with `c` and goes on with `text`. -/
def of (c : Char) (text : List Char) : Front :=
  if c = '"' then
    match Lexeme.frontString? text with
    | some s => lexeme ⟨.string, s⟩
    | none => unterminated
  else if c.isDigit then lexeme ⟨.number, Lexeme.frontNumber (c :: text)⟩
  else if Lexeme.startsWord c then
    let word := Lexeme.frontWord (c :: text)
    lexeme ⟨.ofWord word, word⟩
  else
    match Lexeme.frontSymbol? (c :: text) with
    | some (s, kind) => lexeme ⟨kind, s⟩
    | none => unexpected

theorem prefix_of_eq_lexeme {c : Char} {text : List Char} {l : Lexeme}
    (h : of c text = lexeme l) : l.text <+: c :: text := by
  unfold of at h
  split at h
  · rename_i hc
    split at h
    · rename_i hs
      cases h
      rw [hc]
      exact Lexeme.frontString?_prefix hs
    · contradiction
  · split at h
    · cases h
      exact Lexeme.frontNumber_prefix _
    · split at h
      · cases h
        exact Lexeme.frontWord_prefix _
      · split at h
        · rename_i hs
          cases h
          exact Lexeme.frontSymbol?_prefix hs
        · contradiction

theorem ne_nil_of_eq_lexeme {c : Char} {text : List Char} {l : Lexeme}
    (h : of c text = lexeme l) : l.text ≠ [] := by
  unfold of at h
  split at h
  · split at h
    · rename_i hs
      cases h
      unfold Lexeme.frontString? at hs
      split at hs
      · contradiction
      · cases hs
        simp
    · contradiction
  · split at h
    · rename_i hd
      cases h
      have hwhole : (c :: text).takeWhile Char.isDigit ≠ [] := by simp [hd]
      unfold Lexeme.frontNumber
      split
      · split
        · simp
        · exact hwhole
      · exact hwhole
    · split at h
      · rename_i hw
        cases h
        have hc : Lexeme.continuesWord c := by
          simp only [Lexeme.startsWord, Bool.or_eq_true] at hw
          simp only [Lexeme.continuesWord, Char.isAlphanum, Bool.or_eq_true]
          rcases hw with h | h
          · exact .inl (.inl h)
          · exact .inr h
        simp [Lexeme.frontWord, hc]
      · split at h
        · rename_i s kind hs
          cases h
          have hmem := List.mem_of_find?_eq_some hs
          have : ∀ s ∈ TokenKind.symbols, s.1 ≠ [] := by decide
          exact this _ hmem
        · contradiction

end Front

end ScriptSyntax
