import ScriptSyntax.Proofs.Grammar.Expr
import ScriptSyntax.Proofs.Lexical.Layout
import ScriptSyntax.Proofs.Parenthesized.Term
import ScriptSyntax.TokenStream
/-! # What a text shows of a token

The parenthesized form shows a token by its lexeme, and a number by its value. That is all but the place
of the token and the spelling of the number.
-/

namespace ScriptSyntax

/-- A token apart from its place, and a number apart from its spelling too, with the text that shows it
for its lexeme. -/
def Token.plain (t : Token) : Token :=
  match t.kind, t.literal with
  | .number, some x => ⟨.number, x.display, none, .nowhere⟩
  | _, _ => t.unplaced

/-- The plain token with this text. A text that is neither a mark nor a keyword is of another kind. -/
def Token.ofText (other : TokenKind) (text : List Char) : Token :=
  ⟨((TokenKind.symbols ++ TokenKind.keywords).lookup text).getD other, String.ofList text, none,
    .nowhere⟩

/-- A token that stands for a lexeme. -/
def Token.IsLexed (t : Token) : Prop :=
  ∃ (l : Lexeme) (location : Location), l.kind.Spelled l.text ∧ t = l.toToken location

/-- The operators, binary or in front of an operand. -/
def TokenKind.isOperator (kind : TokenKind) : Bool :=
  (Expr.Precedence.ofKind? kind).isSome || kind == .bang

theorem isLexed_of_tokenize {s : String} {tokens : List Token} (h : tokenize s = .ok tokens) :
    ∀ t ∈ (TokenStream.ofTokens tokens).tokens, t ∈ tokens ∧ t.IsLexed := by
  obtain ⟨tiles, last, hscans, -, -, rfl⟩ := exists_scans_of_tokenize h
  intro t ht
  have hmem := (List.takeWhile_sublist _).subset ht
  have hkind := List.all_eq_true.1 List.all_takeWhile t ht
  refine ⟨hmem, ?_⟩
  rcases List.mem_append.1 hmem with hmem | hmem
  · obtain ⟨tile, htile, rfl⟩ := List.mem_map.1 hmem
    obtain ⟨before, behind, rfl⟩ := List.append_of_mem htile
    obtain ⟨l, htoken, -, hlongest⟩ := hscans.exists_lexeme
    exact ⟨l, _, hlongest.spelled, htoken⟩
  · obtain rfl := List.mem_singleton.1 hmem
    simp [Token.endOfInput] at hkind

/-! ## Texts of a kind -/

section texts

variable {kind : TokenKind} {text : List Char}

theorem isBare_of_forall {q : Char → Prop} (h : ∀ c ∈ text, q c) (hblank : ¬q ' ')
    (hparen : ¬q ')') : IsBare text := by
  intro c hc
  exact ⟨fun heq => hblank (heq ▸ h c hc), fun heq => hparen (heq ▸ h c hc)⟩

theorem IsWord.isBare (h : IsWord text) : IsBare text := by
  obtain ⟨c, rest, rfl, hc, hrest⟩ := h
  exact isBare_of_forall (List.forall_mem_cons.2 ⟨.inl hc, hrest⟩) (by decide) (by decide)

theorem lookup_of_mem {s : List Char × TokenKind}
    (h : s ∈ TokenKind.symbols ++ TokenKind.keywords) :
    (TokenKind.symbols ++ TokenKind.keywords).lookup s.1 = some s.2 := by
  have htable : ∀ s ∈ TokenKind.symbols ++ TokenKind.keywords,
      (TokenKind.symbols ++ TokenKind.keywords).lookup s.1 = some s.2 := by decide
  exact htable s h

theorem lookup_eq_none (h : ∀ s ∈ TokenKind.symbols ++ TokenKind.keywords, s.1 ≠ text) :
    (TokenKind.symbols ++ TokenKind.keywords).lookup text = none :=
  List.lookup_eq_none_iff.2 fun s hs => by simpa using (h s hs).symm

theorem TokenKind.Spelled.mem_table (h : kind.Spelled text) (hname : kind ≠ .identifier)
    (hstring : kind ≠ .string) (hnumber : kind ≠ .number) :
    (text, kind) ∈ symbols ++ keywords := by
  cases h with
  | mark h => exact List.mem_append_left _ (mem_symbols_iff.2 h)
  | keyword h => exact List.mem_append_right _ (mem_keywords_iff.2 h)
  | identifier => contradiction
  | number => contradiction
  | string => contradiction

theorem TokenKind.Spelled.not_mem_table (h : TokenKind.identifier.Spelled text) :
    ∀ s ∈ symbols ++ keywords, s.1 ≠ text := by
  cases h with
  | mark h => contradiction
  | keyword h => contradiction
  | identifier hword hnone =>
    rintro s hs rfl
    rcases List.mem_append.1 hs with hs | hs
    · obtain ⟨c, rest, hc, hstart, -⟩ := hword
      have hmark := mem_symbols_iff.1 hs
      rw [hc] at hmark
      exact (mark?_first hmark).2.2 hstart
    · exact hnone s.2 (mem_keywords_iff.1 hs)

end texts

/-! ## The texts of numbers -/

/-- A digit, and digits and points behind it. -/
def IsNumeral (text : List Char) : Prop :=
  (∃ c rest, text = c :: rest ∧ IsDigit c) ∧ ∀ d ∈ text, IsDigit d ∨ d = '.'

theorem Decimal.text_isNumeral (d : Decimal) : IsNumeral d.text := by
  obtain ⟨whole, places, htext, hwhole, hplaces⟩ := d.exists_text
  obtain ⟨c, rest, rfl⟩ := List.exists_cons_of_ne_nil hwhole.1
  rw [htext]
  refine ⟨⟨c, _, List.cons_append, hwhole.2 c List.mem_cons_self⟩, fun c' hc' => ?_⟩
  rcases List.mem_append.1 hc' with hc' | hc'
  · exact .inl (hwhole.2 c' hc')
  rcases List.mem_cons.1 hc' with rfl | hc'
  · exact .inr rfl
  · exact .inl (hplaces.2 c' hc')

/-- A number is shown by a numeral, by `inf`, by either of them behind a minus, or by `NaN`. -/
theorem Binary64.text_cases (x : Binary64) :
    x.text = ['N', 'a', 'N'] ∨ ∃ size, (size = ['i', 'n', 'f'] ∨ IsNumeral size) ∧
      (x.text = size ∨ x.text = '-' :: size) := by
  unfold Binary64.text
  split
  · exact .inl rfl
  · refine .inr ⟨if x.isFinite then x.toDecimal.text else "inf".toList, ?_, ?_⟩
    · split
      · exact .inr (Decimal.text_isNumeral _)
      · exact .inl rfl
    · dsimp only
      split
      · exact .inr rfl
      · exact .inl rfl

theorem IsNumeral.isBare {text : List Char} (h : IsNumeral text) : IsBare text :=
  isBare_of_forall h.2 (by decide) (by decide)

theorem Binary64.text_isLiteralWord (x : Binary64) :
    IsLiteralWord x.text ∧ ∀ s ∈ TokenKind.symbols ++ TokenKind.keywords, s.1 ≠ x.text := by
  have hminus : ∀ s ∈ TokenKind.symbols ++ TokenKind.keywords, s.1.head? = some '-' →
      s.1 = ['-'] := by decide
  have hdigit : ∀ s ∈ TokenKind.symbols ++ TokenKind.keywords,
      s.1.head?.any Char.isDigit = false := by decide
  rcases x.text_cases with h | ⟨size, hsize, h⟩
  · rw [h]
    exact ⟨⟨by decide, _, _, rfl, by decide⟩, by decide⟩
  obtain ⟨hbare, c, rest, rfl, hc⟩ : IsBare size ∧ ∃ c rest, size = c :: rest ∧
      (c = 'i' ∧ rest = ['n', 'f'] ∨ IsDigit c) := by
    rcases hsize with rfl | hsize
    · exact ⟨by decide, _, _, rfl, .inl ⟨rfl, rfl⟩⟩
    · obtain ⟨c, rest, hsize', hc⟩ := hsize.1
      exact ⟨hsize.isBare, c, rest, hsize', .inr hc⟩
  rcases h with h | h
  · rw [h]
    rcases hc with ⟨rfl, rfl⟩ | hc
    · exact ⟨⟨hbare, _, _, rfl, by decide⟩, by decide⟩
    · refine ⟨⟨hbare, c, rest, rfl, ?_⟩, fun s hs heq => ?_⟩
      · refine ⟨?_, ?_, ?_⟩ <;> rintro rfl <;> exact absurd hc (by decide)
      · have := hdigit s hs
        simp [heq, isDigit_iff.2 hc] at this
  · rw [h]
    refine ⟨⟨List.forall_mem_cons.2 ⟨by decide, hbare⟩, _, _, rfl, by decide⟩, fun s hs heq => ?_⟩
    have := hminus s hs (by rw [heq]; rfl)
    simp [heq] at this

/-! ## What is shown of a lexed token -/

namespace Token.IsLexed

variable {t : Token}

theorem plain_eq_unplaced (hnumber : t.kind ≠ .number) : t.plain = t.unplaced := by
  unfold plain
  split
  · contradiction
  · rfl

theorem plain_of_mark (h : t.IsLexed) (hname : t.kind ≠ .identifier) (hstring : t.kind ≠ .string)
    (hnumber : t.kind ≠ .number) (other : TokenKind) :
    t.plain = .ofText other t.lexeme.toList ∧
      (t.lexeme.toList, t.kind) ∈ TokenKind.symbols ++ TokenKind.keywords := by
  rw [plain_eq_unplaced hnumber]
  obtain ⟨l, location, hspelled, rfl⟩ := h
  have hmem := hspelled.mem_table hname hstring hnumber
  have hliteral : l.literal = none := by
    unfold Lexeme.literal
    split
    · contradiction
    · contradiction
    · rfl
  simp only [Lexeme.toToken, String.toList_ofList]
  refine ⟨?_, hmem⟩
  simp [ofText, lookup_of_mem hmem, unplaced, hliteral]

theorem plain_of_name (h : t.IsLexed) (hkind : t.kind = .identifier) :
    t.plain = .ofText .identifier t.lexeme.toList ∧ IsBare t.lexeme.toList := by
  rw [plain_eq_unplaced (by rw [hkind]; decide)]
  obtain ⟨⟨kind, text⟩, location, hspelled, rfl⟩ := h
  obtain rfl : kind = .identifier := hkind
  have hword : IsWord text := by
    cases hspelled with
    | mark h => contradiction
    | keyword h => contradiction
    | identifier h => exact h
  simp only [Lexeme.toToken, String.toList_ofList]
  refine ⟨?_, hword.isBare⟩
  simp [ofText, lookup_eq_none hspelled.not_mem_table, unplaced, Lexeme.literal]

theorem plain_of_value {x : Binary64} (hkind : t.kind = .number)
    (hliteral : t.literal = some (.number x)) :
    t.plain = ⟨.number, String.ofList x.text, none, .nowhere⟩ := by
  simp [plain, hkind, hliteral, Literal.display]

theorem literalText_of_value {x : Binary64} (hkind : t.kind = .number)
    (hliteral : t.literal = some (.number x)) : Expr.literalText t = String.ofList x.text := by
  simp [Expr.literalText, hkind, hliteral, Literal.display]

theorem exists_value (h : t.IsLexed) (hkind : t.kind = .number) :
    ∃ x, t.literal = some (.number x) := by
  obtain ⟨l, location, -, rfl⟩ := h
  have hkind : l.kind = .number := hkind
  refine ⟨(Decimal.ofText l.text).nearest, ?_⟩
  unfold Lexeme.toToken Lexeme.literal
  rw [hkind]

theorem plain_of_literal (h : t.IsLexed) (hkind : Expr.startsLiteral t.kind = true)
    (hstring : t.kind ≠ .string) :
    t.plain = .ofText .number (Expr.literalText t).toList ∧
      IsLiteralWord (Expr.literalText t).toList ∧ Expr.literalText t.plain = Expr.literalText t := by
  by_cases hnumber : t.kind = .number
  · obtain ⟨x, hx⟩ := h.exists_value hnumber
    obtain ⟨hword, hnone⟩ := x.text_isLiteralWord
    rw [plain_of_value hnumber hx, literalText_of_value hnumber hx, String.toList_ofList]
    refine ⟨?_, hword, ?_⟩
    · simp [ofText, lookup_eq_none hnone]
    · simp [Expr.literalText]
  · have hname : t.kind ≠ .identifier := fun heq => by simp [heq, Expr.startsLiteral] at hkind
    obtain ⟨hplain, hmem⟩ := h.plain_of_mark hname hstring hnumber .number
    have hkinds : t.kind = .falseKeyword ∨ t.kind = .trueKeyword ∨ t.kind = .nilKeyword := by
      cases hk : t.kind <;> simp_all [Expr.startsLiteral]
    have hshown : Expr.literalText t = t.lexeme := by
      rcases hkinds with hkind | hkind | hkind <;> simp [Expr.literalText, hkind]
    have hshown' : Expr.literalText t.unplaced = t.lexeme := by
      rcases hkinds with hkind | hkind | hkind <;> simp [Expr.literalText, unplaced, hkind]
    have htable : ∀ s ∈ TokenKind.symbols ++ TokenKind.keywords, Expr.startsLiteral s.2 = true →
        IsLiteralWord s.1 := by decide
    rw [hshown, plain_eq_unplaced hnumber, hshown', ← plain_eq_unplaced hnumber]
    exact ⟨hplain, htable _ hmem hkind, rfl⟩

end Token.IsLexed

end ScriptSyntax
