import ScriptSyntax.Source
/-! # The lexical grammar

Each kind of token has a language: one text for a mark, an operator or a keyword, and all names,
numbers and strings for the others. Between tokens there are blanks and comments.
-/

namespace ScriptSyntax

/-! ## Characters -/

def IsBlank (c : Char) : Prop := c = ' ' ∨ c = '\t' ∨ c = '\r' ∨ c = '\n'

def IsDigit (c : Char) : Prop := '0' ≤ c ∧ c ≤ '9'

def IsWordStart (c : Char) : Prop := ('a' ≤ c ∧ c ≤ 'z') ∨ ('A' ≤ c ∧ c ≤ 'Z') ∨ c = '_'

def IsWordPart (c : Char) : Prop := IsWordStart c ∨ IsDigit c

instance (c : Char) : Decidable (IsDigit c) := inferInstanceAs (Decidable (_ ∧ _))

instance (c : Char) : Decidable (IsWordStart c) := inferInstanceAs (Decidable (_ ∨ _))

instance (c : Char) : Decidable (IsWordPart c) := inferInstanceAs (Decidable (_ ∨ _))

theorem isBlank_iff {c : Char} : Source.isBlank c = true ↔ IsBlank c := by
  simp [Source.isBlank, IsBlank, or_assoc]

theorem isDigit_iff {c : Char} : c.isDigit = true ↔ IsDigit c := by
  simp [Char.isDigit, IsDigit, Char.le_def]

theorem startsWord_iff {c : Char} : Lexeme.startsWord c = true ↔ IsWordStart c := by
  have hstarts : Lexeme.startsWord c = (decide ('A'.val ≤ c.val ∧ c.val ≤ 'Z'.val) ||
      (decide ('a'.val ≤ c.val) && decide (c.val ≤ 'z'.val)) || c == '_') := rfl
  simp only [hstarts, IsWordStart, Char.le_def, Bool.or_eq_true, Bool.and_eq_true,
    decide_eq_true_eq, beq_iff_eq]
  grind

theorem continuesWord_iff {c : Char} : Lexeme.continuesWord c = true ↔ IsWordPart c := by
  rw [IsWordPart, ← startsWord_iff, ← isDigit_iff]
  simp only [Lexeme.continuesWord, Lexeme.startsWord, Char.isAlphanum, Bool.or_eq_true]
  grind

theorem IsDigit.not_isWordStart {c : Char} (h : IsDigit c) : ¬IsWordStart c := by
  unfold IsDigit at h
  unfold IsWordStart
  simp only [Char.le_def, UInt32.le_iff_toNat_le] at *
  have hnine : '9'.val.toNat = 57 := rfl
  have hupper : 'A'.val.toNat = 65 := rfl
  have hlower : 'a'.val.toNat = 97 := rfl
  rintro (hc | hc | rfl)
  · omega
  · omega
  · exact absurd h.2 (by decide)

/-! ## Kinds with one text -/

namespace TokenKind

/-- The text of a mark or an operator. -/
def mark? : TokenKind → Option (List Char)
  | leftParen => some ['(']
  | rightParen => some [')']
  | leftBrace => some ['\x7b']
  | rightBrace => some ['\x7d']
  | comma => some [',']
  | dot => some ['.']
  | semicolon => some [';']
  | minus => some ['-']
  | plus => some ['+']
  | slash => some ['/']
  | star => some ['*']
  | bang => some ['!']
  | bangEqual => some ['!', '=']
  | equal => some ['=']
  | equalEqual => some ['=', '=']
  | greater => some ['>']
  | greaterEqual => some ['>', '=']
  | less => some ['<']
  | lessEqual => some ['<', '=']
  | _ => none

/-- The text of a keyword. -/
def keyword? : TokenKind → Option (List Char)
  | andKeyword => some ['a', 'n', 'd']
  | classKeyword => some ['c', 'l', 'a', 's', 's']
  | elseKeyword => some ['e', 'l', 's', 'e']
  | falseKeyword => some ['f', 'a', 'l', 's', 'e']
  | funKeyword => some ['f', 'u', 'n']
  | forKeyword => some ['f', 'o', 'r']
  | ifKeyword => some ['i', 'f']
  | nilKeyword => some ['n', 'i', 'l']
  | orKeyword => some ['o', 'r']
  | printKeyword => some ['p', 'r', 'i', 'n', 't']
  | returnKeyword => some ['r', 'e', 't', 'u', 'r', 'n']
  | superKeyword => some ['s', 'u', 'p', 'e', 'r']
  | thisKeyword => some ['t', 'h', 'i', 's']
  | trueKeyword => some ['t', 'r', 'u', 'e']
  | varKeyword => some ['v', 'a', 'r']
  | whileKeyword => some ['w', 'h', 'i', 'l', 'e']
  | _ => none

theorem mem_symbols_iff {text : List Char} {kind : TokenKind} :
    (text, kind) ∈ symbols ↔ kind.mark? = some text := by
  have htable : ∀ s ∈ symbols, s.2.mark? = some s.1 := by decide
  constructor
  · exact htable (text, kind)
  · intro h
    cases kind <;> cases h <;> decide

theorem mem_keywords_iff {text : List Char} {kind : TokenKind} :
    (text, kind) ∈ keywords ↔ kind.keyword? = some text := by
  have htable : ∀ s ∈ keywords, s.2.keyword? = some s.1 := by decide
  constructor
  · exact htable (text, kind)
  · intro h
    cases kind <;> cases h <;> decide

end TokenKind

/-! ## Languages -/

/-- A letter or an underscore, and any letters, underscores and digits behind it. -/
def IsWord (text : List Char) : Prop :=
  ∃ c rest, text = c :: rest ∧ IsWordStart c ∧ ∀ d ∈ rest, IsWordPart d

/-- One digit or more. -/
def IsDigits (text : List Char) : Prop := text ≠ [] ∧ ∀ c ∈ text, IsDigit c

/-- Digits, or digits on both sides of a point. -/
def IsNumber (text : List Char) : Prop :=
  IsDigits text ∨ ∃ whole places, text = whole ++ '.' :: places ∧ IsDigits whole ∧ IsDigits places

/-- Quotes with no other quote between them. -/
def IsQuoted (text : List Char) : Prop :=
  ∃ contents, text = '"' :: contents ++ ['"'] ∧ '"' ∉ contents

/-- The texts of each kind of token. The end of the input has none. -/
inductive TokenKind.Spelled : TokenKind → List Char → Prop where
  | mark {kind : TokenKind} {text : List Char} : kind.mark? = some text → kind.Spelled text
  | keyword {kind : TokenKind} {text : List Char} : kind.keyword? = some text → kind.Spelled text
  | identifier {text : List Char} : IsWord text → (∀ kind : TokenKind, kind.keyword? ≠ some text) →
      TokenKind.identifier.Spelled text
  | number {text : List Char} : IsNumber text → TokenKind.number.Spelled text
  | string {text : List Char} : IsQuoted text → TokenKind.string.Spelled text

/-- Blanks, and comments that run from two slashes to a newline. -/
inductive IsGap : List Char → Prop where
  | none : IsGap []
  | blank {c : Char} {rest : List Char} : IsBlank c → IsGap rest → IsGap (c :: rest)
  | comment {body rest : List Char} : '\n' ∉ body → IsGap rest →
      IsGap ('/' :: '/' :: body ++ '\n' :: rest)

/-- Blanks and comments, the last of which may be without its newline. -/
inductive IsOpenGap : List Char → Prop where
  | closed {gap : List Char} : IsGap gap → IsOpenGap gap
  | comment {gap body : List Char} : IsGap gap → '\n' ∉ body →
      IsOpenGap (gap ++ '/' :: '/' :: body)

/-! ## What a text starts with tells which languages it may belong to -/

section first

variable {kind : TokenKind} {c : Char} {rest text : List Char}

theorem TokenKind.mark?_first (h : kind.mark? = some (c :: rest)) :
    c ≠ '"' ∧ ¬IsDigit c ∧ ¬IsWordStart c := by
  cases kind <;> cases h <;> decide

theorem TokenKind.keyword?_isWord (h : kind.keyword? = some text) : IsWord text := by
  cases kind <;> cases h <;>
    exact ⟨_, _, rfl, by decide, by simp [IsWordPart, IsWordStart, IsDigit]⟩

theorem IsWord.first (h : IsWord (c :: rest)) : IsWordStart c := by
  obtain ⟨_, _, htext, hc, -⟩ := h
  cases htext
  exact hc

theorem IsDigits.first (h : IsDigits (c :: rest)) : IsDigit c := h.2 c List.mem_cons_self

theorem IsNumber.first (h : IsNumber (c :: rest)) : IsDigit c := by
  rcases h with h | ⟨_ | ⟨d, whole⟩, places, htext, hwhole, -⟩
  · exact h.first
  · exact absurd rfl hwhole.1
  · cases htext
    exact hwhole.first

theorem IsQuoted.first (h : IsQuoted (c :: rest)) : c = '"' := by
  obtain ⟨contents, htext, -⟩ := h
  exact (List.cons.inj htext).1

namespace TokenKind.Spelled

theorem exists_language (h : kind.Spelled text) :
    kind.mark? = some text ∨ IsWord text ∨ IsNumber text ∨ IsQuoted text := by
  cases h with
  | mark h => exact .inl h
  | keyword h => exact .inr (.inl (keyword?_isWord h))
  | identifier h _ => exact .inr (.inl h)
  | number h => exact .inr (.inr (.inl h))
  | string h => exact .inr (.inr (.inr h))

theorem ne_nil (h : kind.Spelled text) : text ≠ [] := by
  rintro rfl
  rcases h.exists_language with h | ⟨_, _, h, -⟩ | (⟨h, -⟩ | ⟨whole, _, h, -⟩) | ⟨_, h, -⟩
  · cases kind <;> cases h
  · cases h
  · exact h rfl
  · cases whole <;> cases h
  · cases h

theorem isQuoted (h : kind.Spelled ('"' :: rest)) : IsQuoted ('"' :: rest) := by
  rcases h.exists_language with h | h | h | h
  · exact absurd rfl (mark?_first h).1
  · exact absurd h.first (by decide)
  · exact absurd h.first (by decide)
  · exact h

theorem isNumber (h : kind.Spelled (c :: rest)) (hc : IsDigit c) : IsNumber (c :: rest) := by
  rcases h.exists_language with h | h | h | h
  · exact absurd hc (mark?_first h).2.1
  · exact absurd h.first hc.not_isWordStart
  · exact h
  · obtain rfl := h.first
    exact absurd hc (by decide)

theorem isWord (h : kind.Spelled (c :: rest)) (hc : IsWordStart c) : IsWord (c :: rest) := by
  rcases h.exists_language with h | h | h | h
  · exact absurd hc (mark?_first h).2.2
  · exact h
  · exact absurd hc h.first.not_isWordStart
  · obtain rfl := h.first
    exact absurd hc (by decide)

theorem isMark (h : kind.Spelled (c :: rest)) (hquote : c ≠ '"') (hdigit : ¬IsDigit c)
    (hword : ¬IsWordStart c) : kind.mark? = some (c :: rest) := by
  rcases h.exists_language with h | h | h | h
  · exact h
  · exact absurd h.first hword
  · exact absurd h.first hdigit
  · exact absurd h.first hquote

end TokenKind.Spelled

end first

end ScriptSyntax
