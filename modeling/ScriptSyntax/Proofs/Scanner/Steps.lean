import ScriptSyntax.Source
/-! # Scanning a text in place

A text can also be split where it stands. The text stays as it is, and a scanner moves along it one
character at a time. It stops with an error wherever what it needs is not there.
-/

namespace ScriptSyntax

/-- A text, how many of its characters are read, and the place behind them. -/
structure Scanner where
  input : List Char
  offset : Nat
  location : Location
deriving DecidableEq, Repr

/-- Why a scanner stops. -/
inductive ScanCause where
  | endOfText
  | unexpectedCharacter (c : Char)
  | unterminatedString
  | invalidNumber (text : List Char)
deriving DecidableEq, Repr

def ScanCause.message : ScanCause → String
  | .endOfText => "Unexpected end of file"
  | .unexpectedCharacter c => "Unexpected character: " ++ c.toString
  | .unterminatedString => "Unterminated string."
  | .invalidNumber text => "Invalid number literal: " ++ String.ofList text

/-- What stopped a scanner, and where. -/
structure ScanError where
  cause : ScanCause
  location : Location
deriving DecidableEq, Repr

/-- What a scanner does ends with a value or the error that stopped it. It has no end if it cuts a
lexeme out of a text where there is none, or goes on for ever. -/
abbrev Scan (α : Type) := ExceptT ScanError (StateT Scanner Option) α

namespace Scan

variable {α : Type}

/-- How it ends for a scanner. -/
def run (scan : Scan α) (scanner : Scanner) : Option (Except ScanError α × Scanner) := scan scanner

/-- What has no end. -/
def lost : Scan α := fun _ => none

/-! ## Characters -/

/-- The character that stands `n` behind the next one. -/
def peekAhead (n : Nat) : Scan (Option Char) := do
  let scanner ← get
  return scanner.input[scanner.offset + n]?

def peek : Scan (Option Char) := peekAhead 0

/-- Moves behind the next character, if there is one. -/
def advance : Scan (Option Char) := do
  let scanner ← get
  match scanner.input[scanner.offset]? with
  | none => return none
  | some c =>
    set { scanner with offset := scanner.offset + 1, location := scanner.location.advance c }
    return some c

def atEnd : Scan Bool := do
  let scanner ← get
  return scanner.input.length ≤ scanner.offset

/-- What is read from an offset on. -/
def lexemeFrom (start : Nat) : Scan (List Char) := do
  let scanner ← get
  if start ≤ scanner.offset ∧ scanner.offset ≤ scanner.input.length then
    return (scanner.input.drop start).take (scanner.offset - start)
  else lost

/-- What a scanner does next, when it has moved. -/
abbrev behind (scan : Scan α) {β : Type} (first : Scan β) : Scan α := do
  let _ ← first
  scan

/-- A scan that goes on with what it has so far. -/
abbrev Loop (α : Type) := α → Scan α

/-- Goes on with what a round ends with. -/
abbrev Loop.behind (loop : Loop α) (round : Scan α) : Scan α := do loop (← round)

section

variable (p : Char → Bool)

/-- Moves on as long as the next character is such. -/
def skipWhile : Scan Unit := do
  if (← peek).any p then skipWhile.behind advance else return ()
partial_fixpoint

end

/-! ## Gaps -/

/-- Moves behind the end of the line. -/
def skipLine : Scan Unit := do
  match ← peek with
  | none => return ()
  | some c =>
    if c = '\n' then (return () : Scan Unit).behind advance else skipLine.behind advance
partial_fixpoint

/-- Moves behind the blanks and comments that stand next. -/
def skipGap : Scan Unit := do
  match ← peek with
  | none => return ()
  | some c =>
    if Source.isBlank c then skipGap.behind advance
    else if c = '/' && (← peekAhead 1) = some '/' then skipGap.behind skipLine
    else return ()
partial_fixpoint

/-! ## Lexemes -/

section

variable (location : Location)

/-- Moves behind the next quote, and puts all in front of it behind what the string has already. The
string started at a place. -/
def stringContents : Loop (List Char) := fun contents => do
  match ← advance with
  | none => throw ⟨.unterminatedString, location⟩
  | some c => if c = '"' then return contents else stringContents.behind do return contents ++ [c]
partial_fixpoint

end

def string (start : Nat) (location : Location) : Scan Token := do
  let contents ← stringContents location []
  let lexeme ← lexemeFrom start
  return ⟨.string, String.ofList lexeme, some (.text (String.ofList contents)), location⟩

/-- Moves behind a point that stands next, and the digits behind it, if there is one. -/
def skipPlaces : Scan Unit := do
  if (← peek) = some '.' && (← peekAhead 1).any Char.isDigit then
    (skipWhile Char.isDigit).behind advance
  else return ()

def number (readNumber : List Char → Option Binary64) (start : Nat) (location : Location) :
    Scan Token := do
  skipWhile Char.isDigit
  skipPlaces
  let lexeme ← lexemeFrom start
  match readNumber lexeme with
  | none => throw ⟨.invalidNumber lexeme, location⟩
  | some value => return ⟨.number, String.ofList lexeme, some (.number value), location⟩

def word (start : Nat) (location : Location) : Scan Token := do
  skipWhile Lexeme.continuesWord
  let lexeme ← lexemeFrom start
  return ⟨.ofWord lexeme, String.ofList lexeme, none, location⟩

/-- The first kind if the character stands next, which is then taken too, and else the second. -/
def either (next : Char) (matched single : TokenKind) : Scan TokenKind := do
  if (← peek) = some next then (return matched : Scan TokenKind).behind advance
  else return single

/-- The kind of a mark or an operator that starts with a character. -/
def markKind (c : Char) (location : Location) : Scan TokenKind :=
  match c with
  | '(' => return .leftParen
  | ')' => return .rightParen
  | '\x7b' => return .leftBrace
  | '\x7d' => return .rightBrace
  | ',' => return .comma
  | '.' => return .dot
  | ';' => return .semicolon
  | '-' => return .minus
  | '+' => return .plus
  | '/' => return .slash
  | '*' => return .star
  | '!' => either '=' .bangEqual .bang
  | '=' => either '=' .equalEqual .equal
  | '>' => either '=' .greaterEqual .greater
  | '<' => either '=' .lessEqual .less
  | _ => throw ⟨.unexpectedCharacter c, location⟩

def mark (c : Char) (start : Nat) (location : Location) : Scan Token := do
  let kind ← markKind c location
  let lexeme ← lexemeFrom start
  return ⟨kind, String.ofList lexeme, none, location⟩

def nextToken (readNumber : List Char → Option Binary64) : Scan Token := do
  let scanner ← get
  match ← advance with
  | none => throw ⟨.endOfText, scanner.location⟩
  | some c =>
    if c = '"' then string scanner.offset scanner.location
    else if c.isDigit then number readNumber scanner.offset scanner.location
    else if Lexeme.startsWord c then word scanner.offset scanner.location
    else mark c scanner.offset scanner.location

section

variable (readNumber : List Char → Option Binary64)

/-- Puts the tokens that are left behind the earlier ones, and one that ends the input. -/
def moreTokens : Loop (List Token) := fun earlier => do
  skipGap
  if ← atEnd then return earlier ++ [.endOfInput (← get).location]
  else moreTokens.behind do return earlier ++ [← nextToken readNumber]
partial_fixpoint

def tokenize : Scan (List Token) := moreTokens readNumber []

end

end Scan

/-- A scanner in front of a text. -/
def Scanner.ofString (s : String) : Scanner := ⟨s.toList, 0, .start⟩

end ScriptSyntax
