import ScriptSyntax.Proofs.Lexical.Tokens
/-! # The layout of a text

A row of lexemes may be laid out in many ways, with blanks and comments between them. Reading the text
gives the lexemes back, whatever the layout.
-/

namespace ScriptSyntax

variable {gap rest text ending : List Char} {l : Lexeme} {lexemes : List Lexeme}

/-! ## Layouts -/

/-- A blank, and any blanks and comments behind it. -/
def IsSeparator (text : List Char) : Prop := ∃ c gap, text = c :: gap ∧ IsBlank c ∧ IsGap gap

/-- Nothing, or a blank and any blanks and comments behind it, the last of which may be without its
newline. -/
def IsEnding (text : List Char) : Prop :=
  text = [] ∨ ∃ c gap, text = c :: gap ∧ IsBlank c ∧ IsOpenGap gap

/-- Texts of lexemes with a separator between any two of them, and an ending behind the last. -/
inductive Lexeme.InRow : List Lexeme → List Char → Prop where
  | none {ending : List Char} : IsEnding ending → InRow [] ending
  | last {l : Lexeme} {ending : List Char} : l.kind.Spelled l.text → IsEnding ending →
      InRow [l] (l.text ++ ending)
  | more {l next : Lexeme} {lexemes : List Lexeme} {separator text : List Char} :
      l.kind.Spelled l.text → IsSeparator separator → InRow (next :: lexemes) text →
      InRow (l :: next :: lexemes) (l.text ++ (separator ++ text))

/-- Texts of lexemes in a row, behind any blanks and comments. -/
def Lexeme.LaidOut (lexemes : List Lexeme) (text : List Char) : Prop :=
  ∃ gap row, text = gap ++ row ∧ IsGap gap ∧ InRow lexemes row

/-- A token apart from its place. -/
def Token.unplaced (t : Token) : Token := { t with location := .nowhere }

/-! ## Lexemes with a blank behind them -/

/-- A text that is empty or starts with a blank. -/
def StartsBlank (text : List Char) : Prop := ∀ c ∈ text.head?, IsBlank c

theorem IsSeparator.startsBlank (h : IsSeparator text) (rest : List Char) :
    StartsBlank (text ++ rest) := by
  obtain ⟨c, gap, rfl, hc, -⟩ := h
  rintro d hd
  obtain rfl : c = d := by simpa using hd
  exact hc

theorem IsSeparator.isGap (h : IsSeparator text) : IsGap text := by
  obtain ⟨c, gap, rfl, hc, hgap⟩ := h
  exact .blank hc hgap

theorem IsEnding.startsBlank (h : IsEnding ending) : StartsBlank ending := by
  rintro d hd
  rcases h with rfl | ⟨c, gap, rfl, hc, -⟩
  · contradiction
  · obtain rfl : c = d := by simpa using hd
    exact hc

theorem IsEnding.isOpenGap (h : IsEnding ending) : IsOpenGap ending := by
  rcases h with rfl | ⟨c, gap, rfl, hc, hgap⟩
  · exact .closed .none
  · exact (IsGap.blank hc .none).append_isOpenGap hgap

theorem IsBlank.not_isWordPart {c : Char} (h : IsBlank c) : ¬IsWordPart c := by
  rcases h with rfl | rfl | rfl | rfl <;> decide

theorem TokenKind.Spelled.isQuoted_of_isBlank {kind : TokenKind} {c : Char} (h : kind.Spelled text)
    (hmem : c ∈ text) (hc : IsBlank c) : IsQuoted text := by
  have hdigits {digits : List Char} (hdigits : IsDigits digits) : c ∉ digits := fun hmem =>
    hc.not_isWordPart (.inr (hdigits.2 c hmem))
  rcases h.exists_language with h | ⟨d, rest, rfl, hd, hrest⟩ | h | h
  · have htable : ∀ s ∈ symbols, s.1.any Source.isBlank = false := by decide
    have := List.any_eq_false.1 (htable _ (mem_symbols_iff.2 h)) c hmem
    exact absurd (isBlank_iff.2 hc) this
  · rcases List.mem_cons.1 hmem with rfl | hmem
    · exact absurd (.inl hd) hc.not_isWordPart
    · exact absurd (hrest c hmem) hc.not_isWordPart
  · rcases h with h | ⟨whole, places, rfl, hwhole, hplaces⟩
    · exact absurd hmem (hdigits h)
    · rcases List.mem_append.1 hmem with hmem | hmem
      · exact absurd hmem (hdigits hwhole)
      · rcases List.mem_cons.1 hmem with rfl | hmem
        · exact absurd hc (by simp [IsBlank])
        · exact absurd hmem (hdigits hplaces)
  · exact h

namespace Lexeme

theorem isLongest_of_startsBlank (h : l.kind.Spelled l.text) (hrest : StartsBlank rest) :
    l.IsLongest (l.text ++ rest) where
  spelled := h
  stands := List.prefix_append _ _
  longest := by
    intro kind p hp hstands
    by_contra hlt
    -- A longer text would go on with the blank, and so be a string with a quote inside.
    obtain ⟨more, rfl⟩ : l.text <+: p :=
      List.prefix_of_prefix_length_le (List.prefix_append _ _) hstands (by omega)
    obtain ⟨c, more, rfl⟩ : ∃ c tail, more = c :: tail := by
      refine List.exists_cons_of_ne_nil fun hnil => hlt ?_
      rw [hnil, List.append_nil]
    obtain ⟨tail, hmore⟩ := (List.prefix_append_right_inj _).1 hstands
    have hc : IsBlank c := hrest c (by simp [← hmore])
    obtain ⟨contents, hcontents, hno⟩ := hp.isQuoted_of_isBlank (by simp) hc
    obtain ⟨inner, hinner, -⟩ : IsQuoted l.text := by
      obtain ⟨d, front, hfront⟩ := List.exists_cons_of_ne_nil h.ne_nil
      rw [hfront] at h hcontents ⊢
      obtain rfl : d = '"' := (List.cons.inj hcontents).1
      exact h.isQuoted
    have hmem : contents = inner ++ '"' :: (c :: more).dropLast := by
      rw [hinner] at hcontents
      have := congrArg (List.dropLast ∘ List.tail) hcontents
      simpa using this.symm
    exact hno (by simp [hmem])

theorem startsNoGap_of_startsBlank (h : l.kind.Spelled l.text) (hrest : StartsBlank rest) :
    StartsNoGap (l.text ++ rest) := by
  obtain ⟨c, front, hfront⟩ := List.exists_cons_of_ne_nil h.ne_nil
  rw [hfront] at h ⊢
  rw [List.cons_append, startsNoGap_cons_iff]
  constructor
  · intro hc
    obtain rfl := (h.isQuoted_of_isBlank List.mem_cons_self hc).first
    exact absurd hc (by simp [IsBlank])
  · rintro ⟨rfl, hnext⟩
    have hmark := h.isMark (by decide) (by decide) (by decide)
    have htable : ∀ s ∈ TokenKind.symbols, s.1.head? = some '/' → s.1 = ['/'] := by decide
    obtain rfl : front = [] := by
      simpa using htable _ (TokenKind.mem_symbols_iff.2 hmark) rfl
    exact absurd (hrest '/' hnext) (by simp [IsBlank])

theorem isWholeGap_of_startsBlank (h : l.kind.Spelled l.text) (hrest : StartsBlank rest)
    (hgap : IsGap gap) : IsWholeGap gap (l.text ++ rest) :=
  hgap.isWholeGap (startsNoGap_of_startsBlank h hrest)

/-! ## Reading a layout -/

theorem InRow.exists_scans (h : InRow lexemes text) (hgap : IsGap gap) (location : Location) :
    ∃ tiles last, Scans ⟨location, gap ++ text⟩ tiles last ∧ IsOpenGap last.text ∧
      tiles.map (·.token.unplaced) = lexemes.map (·.toToken .nowhere) := by
  induction h generalizing gap location with
  | none hending => exact ⟨[], _, .none _, hgap.append_isOpenGap hending.isOpenGap, rfl⟩
  | last hspelled hending =>
    have hstarts := hending.startsBlank
    exact ⟨_, _, .more (isWholeGap_of_startsBlank hspelled hstarts hgap)
      (isLongest_of_startsBlank hspelled hstarts) (.none _), hending.isOpenGap, rfl⟩
  | more hspelled hseparator _ ih =>
    have hstarts := hseparator.startsBlank
    obtain ⟨tiles, last, hscans, hopen, htiles⟩ := ih hseparator.isGap _
    refine ⟨_, last, .more (isWholeGap_of_startsBlank hspelled (hstarts _) hgap)
      (isLongest_of_startsBlank hspelled (hstarts _)) hscans, hopen, ?_⟩
    rw [List.map_cons, List.map_cons, htiles]
    rfl

theorem LaidOut.exists_tokens {s : String} (h : LaidOut lexemes s.toList) :
    ∃ tokens, tokenize s = .ok (tokens ++ [.endOfInput (placeBehind s.toList)]) ∧
      tokens.map Token.unplaced = lexemes.map (·.toToken .nowhere) ∧
      ∀ t ∈ tokens, t.HasLiteral := by
  obtain ⟨gap, row, htext, hgap, hrow⟩ := h
  obtain ⟨tiles, last, hscans, hopen, htiles⟩ := hrow.exists_scans hgap .start
  rw [← htext] at hscans
  refine ⟨tiles.map Tile.token, ?_, by rw [List.map_map]; exact htiles, fun t ht => ?_⟩
  · rw [← after_start_eq]
    exact hscans.tokenize_eq hopen
  · obtain ⟨tile, htile, rfl⟩ := List.mem_map.1 ht
    obtain ⟨before, behind, rfl⟩ := List.append_of_mem htile
    exact Scans.hasLiteral hscans

/-! ## Lexemes with single spaces between them -/

theorem isEnding_space : IsEnding [' '] := .inr ⟨' ', [], rfl, .inl rfl, .closed .none⟩

theorem isSeparator_space : IsSeparator [' '] := ⟨' ', [], rfl, .inl rfl, .none⟩

/-- The last lexeme may have a space behind it, as an empty text behind the others leaves there. -/
theorem inRow_intercalate {behind : List (List Char)} (hbehind : behind = [] ∨ behind = [[]])
    (hspelled : ∀ l ∈ lexemes, l.kind.Spelled l.text) :
    InRow lexemes ([' '].intercalate (lexemes.map Lexeme.text ++ behind)) := by
  induction lexemes with
  | nil =>
    have : [' '].intercalate behind = [] := by rcases hbehind with rfl | rfl <;> rfl
    rw [List.map_nil, List.nil_append, this]
    exact .none (.inl rfl)
  | cons l lexemes ih =>
    obtain ⟨hl, hlexemes⟩ := List.forall_mem_cons.1 hspelled
    rcases lexemes with _ | ⟨next, lexemes⟩
    · rcases hbehind with rfl | rfl
      · have := InRow.last hl (.inl rfl)
        simpa using this
      · exact .last hl isEnding_space
    · rw [List.map_cons, List.map_cons, List.cons_append, List.cons_append,
        List.intercalate_cons_cons, List.append_assoc]
      exact .more hl isSeparator_space (ih hlexemes)

theorem exists_laidOut (hspelled : ∀ l ∈ lexemes, l.kind.Spelled l.text) :
    ∃ s : String, LaidOut lexemes s.toList := by
  have hrow := inRow_intercalate (.inl rfl) hspelled
  refine ⟨String.ofList ([' '].intercalate (lexemes.map Lexeme.text)), [], _, ?_, .none, hrow⟩
  rw [List.nil_append, List.append_nil, String.toList_ofList]

end Lexeme

theorem Scans.exists_lexemes {s last : Source} {tiles : List Tile} (h : Scans s tiles last) :
    ∃ lexemes : List Lexeme, (∀ l ∈ lexemes, l.kind.Spelled l.text) ∧
      tiles.map (·.token.unplaced) = lexemes.map (·.toToken .nowhere) := by
  induction h with
  | none => exact ⟨[], by simp, rfl⟩
  | @more _ _ _ l _ _ _ hlongest _ ih =>
    obtain ⟨lexemes, hspelled, htiles⟩ := ih
    refine ⟨l :: lexemes, List.forall_mem_cons.2 ⟨hlongest.spelled, hspelled⟩, ?_⟩
    rw [List.map_cons, htiles]
    rfl

theorem tokenize_spaced {s : String} {tokens row : List Token} (h : tokenize s = .ok tokens)
    (hrow : row = tokens ∨ row = tokens.dropLast) :
    ∃ again, tokenize (" ".intercalate (row.map Token.lexeme)) = .ok again ∧
      again.map Token.unplaced = tokens.map Token.unplaced := by
  obtain ⟨tiles, last, hscans, -, -, rfl⟩ := exists_scans_of_tokenize h
  obtain ⟨lexemes, hspelled, htiles⟩ := hscans.exists_lexemes
  have htexts : tiles.map (·.token.lexeme.toList) = lexemes.map Lexeme.text := by
    have := congrArg (List.map fun t => t.lexeme.toList) htiles
    simpa [Lexeme.toToken, Token.unplaced, Function.comp_def] using this
  have hlaid : Lexeme.LaidOut lexemes (" ".intercalate (row.map Token.lexeme)).toList := by
    refine ⟨[], _, (List.nil_append _).symm, .none, ?_⟩
    rw [String.toList_intercalate]
    rcases hrow with rfl | rfl
    · have := Lexeme.inRow_intercalate (.inr rfl) hspelled
      simpa [← htexts, Function.comp_def, Token.endOfInput] using this
    · have := Lexeme.inRow_intercalate (.inl rfl) hspelled
      simpa [← htexts, Function.comp_def] using this
  obtain ⟨again, hagain, hcontents, -⟩ := hlaid.exists_tokens
  refine ⟨_, hagain, ?_⟩
  rw [List.map_append, hcontents, ← htiles, List.map_append, List.map_map]
  rfl

/-! ## Reading undoes writing -/

/-- A text of lexemes in any layout is read to its end, and its tokens are the lexemes, each with its
kind, text and value, and one that ends the input. So the layout changes nothing but places, and the
lexemes of a text may be written again with single spaces between them. -/
theorem tokenize_laidOut :
    (∀ (lexemes : List Lexeme) (s : String), Lexeme.LaidOut lexemes s.toList →
      ∃ tokens, tokenize s = .ok (tokens ++ [.endOfInput (placeBehind s.toList)]) ∧
        tokens.map Token.unplaced = lexemes.map (·.toToken .nowhere) ∧
        ∀ t ∈ tokens, t.HasLiteral) ∧
      (∀ (lexemes : List Lexeme) (s other : String), Lexeme.LaidOut lexemes s.toList →
        Lexeme.LaidOut lexemes other.toList →
        (tokenize s).map (·.map Token.unplaced) = (tokenize other).map (·.map Token.unplaced)) ∧
      (∀ (s : String) (tokens row : List Token), tokenize s = .ok tokens →
        row = tokens ∨ row = tokens.dropLast →
        ∃ again, tokenize (" ".intercalate (row.map Token.lexeme)) = .ok again ∧
          again.map Token.unplaced = tokens.map Token.unplaced) := by
  refine ⟨fun lexemes s h => h.exists_tokens, fun lexemes s other h hother => ?_,
    fun s tokens row h hrow => tokenize_spaced h hrow⟩
  obtain ⟨tokens, htokens, hcontents, -⟩ := h.exists_tokens
  obtain ⟨others, hothers, hsame, -⟩ := hother.exists_tokens
  have hrows : tokens.map Token.unplaced = others.map Token.unplaced := hcontents.trans hsame.symm
  rw [htokens, hothers]
  simp only [Except.map, List.map_append, hrows]
  rfl

/-- A name, a string of two lines with slashes in it, and a number. -/
def noteLexemes : List Lexeme :=
  [⟨.identifier, ['o', 'r', 'b']⟩, ⟨.string, ['"', '/', '/', '\n', '"']⟩, ⟨.number, ['1', '.', '5']⟩]

/-- A layout with a keyword and a quote in comments, the last of which has no newline. -/
def note : String := "// for\n orb \"//\n\"\t//\"\n1.5\r//"

theorem noteLexemes_spelled : ∀ l ∈ noteLexemes, l.kind.Spelled l.text := by
  have hparts : ∀ d ∈ ['r', 'b'], IsWordPart d := by simp [IsWordPart, IsWordStart, IsDigit]
  have hdigits : IsDigits ['1'] ∧ IsDigits ['5'] := by simp [IsDigits, IsDigit]
  refine List.forall_mem_cons.2 ⟨.identifier ⟨'o', ['r', 'b'], rfl, by decide, hparts⟩ ?_,
    List.forall_mem_cons.2 ⟨.string ⟨['/', '/', '\n'], rfl, by decide⟩,
      List.forall_mem_singleton.2 (.number (.inr ⟨['1'], ['5'], rfl, hdigits⟩))⟩⟩
  intro kind
  cases kind <;> decide

theorem laidOut_note : Lexeme.LaidOut noteLexemes note.toList := by
  obtain ⟨horb, hrest⟩ := List.forall_mem_cons.1 noteLexemes_spelled
  obtain ⟨hslashes, hrest⟩ := List.forall_mem_cons.1 hrest
  have hnumber := List.forall_mem_singleton.1 hrest
  have hgap : IsGap ['/', '/', ' ', 'f', 'o', 'r', '\n', ' '] :=
    show IsGap ('/' :: '/' :: [' ', 'f', 'o', 'r'] ++ '\n' :: [' ']) from
      .comment (by decide) (.blank (.inl rfl) .none)
  have hquote : IsSeparator ['\t', '/', '/', '"', '\n'] :=
    ⟨_, _, rfl, .inr (.inl rfl), show IsGap ('/' :: '/' :: ['"'] ++ '\n' :: []) from
      .comment (by decide) .none⟩
  have hlast : IsEnding ['\r', '/', '/'] :=
    .inr ⟨_, _, rfl, .inr (.inr (.inl rfl)), .comment .none List.not_mem_nil⟩
  refine ⟨_, _, ?_, hgap, .more horb Lexeme.isSeparator_space
    (.more hslashes hquote (.last hnumber hlast))⟩
  decide

theorem tokenize_laidOut_of_note :
    Lexeme.LaidOut noteLexemes note.toList ∧
      (∃ tokens, tokenize note = .ok (tokens ++ [.endOfInput ⟨4, 7⟩]) ∧
        tokens.map Token.unplaced = noteLexemes.map (·.toToken .nowhere)) ∧
      (tokenize note).map (·.map Token.unplaced) =
        (tokenize "orb \"//\n\" 1.5").map (·.map Token.unplaced) ∧
      tokenize remark = .ok remarkTokens ∧
      ∃ again, tokenize "orb \"//\n\" 1.5 . " = .ok again ∧
        again.map Token.unplaced = remarkTokens.map Token.unplaced := by
  obtain ⟨hread, hlayout, hspaced⟩ := tokenize_laidOut
  have hplain : Lexeme.LaidOut noteLexemes "orb \"//\n\" 1.5".toList := by
    have hrow := Lexeme.inRow_intercalate (.inl rfl) noteLexemes_spelled
    exact ⟨[], _, by decide, .none, hrow⟩
  obtain ⟨tokens, htokens, hcontents, -⟩ := hread noteLexemes note laidOut_note
  refine ⟨laidOut_note, ⟨tokens, ?_, hcontents⟩, hlayout _ _ _ laidOut_note hplain, tokenize_remark,
    hspaced remark remarkTokens remarkTokens tokenize_remark (.inl rfl)⟩
  have hplace : placeBehind note.toList = ⟨4, 7⟩ := by decide
  rw [htokens, hplace]

end ScriptSyntax
