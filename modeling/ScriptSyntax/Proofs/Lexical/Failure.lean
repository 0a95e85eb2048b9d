import ScriptSyntax.Proofs.Lexical.Tokens
/-! # Where a text stops being a row of tokens

Reading a text fails at the first place where, behind a gap, no lexeme starts.
-/

namespace ScriptSyntax

variable {c : Char} {text gap rest : List Char} {cause : LexicalCause}

/-! ## Characters that start a token -/

/-- A token of some kind starts with the character. -/
def StartsToken (c : Char) : Prop := ∃ (kind : TokenKind) (rest : List Char), kind.Spelled (c :: rest)

theorem IsWordStart.startsToken (h : IsWordStart c) : StartsToken c :=
  ⟨_, [], Lexeme.ofWord_spelled ⟨c, [], rfl, h, by simp⟩⟩

theorem IsDigit.startsToken (h : IsDigit c) : StartsToken c :=
  ⟨.number, [], .number (.inl ⟨List.cons_ne_nil c [], by simpa using h⟩)⟩

theorem startsToken_quote : StartsToken '"' :=
  ⟨.string, ['"'], .string ⟨[], rfl, List.not_mem_nil⟩⟩

theorem startsToken_iff :
    StartsToken c ↔ c = '"' ∨ IsDigit c ∨ IsWordStart c ∨ ∃ s ∈ TokenKind.symbols, s.1 = [c] := by
  constructor
  · rintro ⟨kind, rest, h⟩
    rcases h.exists_language with h | h | h | h
    · -- What starts a mark of two characters is a mark too.
      have htable : ∀ s ∈ TokenKind.symbols, ∃ t ∈ TokenKind.symbols, t.1 = s.1.take 1 := by decide
      exact .inr (.inr (.inr (htable _ (TokenKind.mem_symbols_iff.2 h))))
    · exact .inr (.inr (.inl h.first))
    · exact .inr (.inl h.first)
    · exact .inl h.first
  · rintro (rfl | h | h | ⟨⟨text, kind⟩, hs, rfl⟩)
    · exact startsToken_quote
    · exact h.startsToken
    · exact h.startsToken
    · exact ⟨kind, [], .mark (TokenKind.mem_symbols_iff.1 hs)⟩

instance (c : Char) : Decidable (StartsToken c) := decidable_of_iff' _ startsToken_iff

theorem Lexeme.frontString?_eq_none (h : '"' ∉ text) : frontString? text = none := by
  have hall : ∀ d ∈ text, (d != '"') = true := fun d hd => by
    have : d ≠ '"' := fun hquote => h (hquote ▸ hd)
    simpa using this
  rw [frontString?, List.dropWhile_eq_nil_iff.2 hall]

namespace Front

theorem of_eq_unexpected_iff : of c text = unexpected ↔ ¬StartsToken c := by
  constructor
  · intro h hstarts
    rcases startsToken_iff.1 hstarts with rfl | hdigit | hword | ⟨⟨s, kind⟩, hs, rfl⟩
    · rw [of, if_pos rfl] at h
      split at h <;> contradiction
    · rw [of_digit hdigit] at h
      contradiction
    · rw [of_wordStart hword] at h
      contradiction
    · have hstands : [c] <+: c :: text := ⟨text, rfl⟩
      obtain ⟨s, kind, -, hof⟩ := exists_of_mark (TokenKind.mem_symbols_iff.1 hs) hstands
      rw [hof] at h
      contradiction
  · intro h
    rcases hof : of c text with l | _ | _
    · obtain ⟨d, rest, htext⟩ := List.exists_cons_of_ne_nil (ne_nil_of_eq_lexeme hof)
      have hlongest := isLongest_of_eq_lexeme hof
      obtain rfl : d = c := (List.cons_prefix_cons.1 (htext ▸ hlongest.stands)).1
      exact absurd ⟨_, rest, htext ▸ hlongest.spelled⟩ h
    · rfl
    · unfold of at hof
      split at hof
      · rename_i hquote
        exact absurd (hquote ▸ startsToken_quote) h
      · repeat' split at hof
        all_goals contradiction

theorem of_eq_unterminated_iff : of c text = unterminated ↔ c = '"' ∧ '"' ∉ text := by
  by_cases hc : c = '"'
  · subst hc
    rw [of, if_pos rfl]
    by_cases hmem : '"' ∈ text
    · obtain ⟨contents, rest, rfl, hcontents⟩ := List.eq_append_cons_of_mem hmem
      rw [Lexeme.frontString?_eq hcontents]
      simp
    · rw [Lexeme.frontString?_eq_none hmem]
      simp [hmem]
  · rw [of, if_neg hc]
    constructor
    · intro h
      repeat' split at h
      all_goals contradiction
    · exact fun h => absurd h.1 hc

end Front

/-! ## Texts that start with no token -/

/-- A text that starts with no gap and no token, and why. -/
inductive StartsNothing : List Char → LexicalCause → Prop where
  | unexpected {c : Char} {rest : List Char} : ¬IsBlank c → ¬StartsToken c →
      StartsNothing (c :: rest) (.unexpectedCharacter c)
  | unterminated {rest : List Char} : '"' ∉ rest → StartsNothing ('"' :: rest) .unterminatedString

/-- How much of such a text counts as read. -/
def LexicalCause.givenUp : LexicalCause → List Char → Nat
  | .unexpectedCharacter _, _ => 1
  | .unterminatedString, text => text.length

namespace Source

theorem tokenize_of_startsNothing (hgap : IsWholeGap gap text) (h : StartsNothing text cause)
    (location : Location) :
    tokenize ⟨location, gap ++ text⟩ = (.error ⟨cause, location.after gap⟩,
      ⟨(location.after gap).after (text.take (cause.givenUp text)),
        text.drop (cause.givenUp text)⟩) := by
  rw [tokenize_eq, skipGap_of_isWholeGap hgap]
  cases h with
  | unexpected hblank hstarts =>
    dsimp only
    rw [Front.of_eq_unexpected_iff.2 hstarts]
    rfl
  | unterminated hrest =>
    dsimp only
    rw [Front.of_eq_unterminated_iff.2 ⟨rfl, hrest⟩, LexicalCause.givenUp, List.take_length,
      List.drop_length]

theorem HasNoLexeme.exists_gap {s : Source} (h : s.HasNoLexeme) :
    IsOpenGap s.text ∨ ∃ gap text cause, s.text = gap ++ text ∧ IsWholeGap gap text ∧
      StartsNothing text cause := by
  obtain ⟨gap, htext, -, hgap⟩ := s.exists_skipGap
  rcases hrest : s.skipGap.text with _ | ⟨c, text⟩
  · rw [hrest, List.append_nil] at htext
    exact .inl (htext ▸ hgap.isOpenGap)
  · rw [hrest] at hgap htext
    have hblank := (startsNoGap_cons_iff.1 hgap.stops).1
    rcases hof : Front.of c text with l | _ | _
    · exact absurd hof (h c text hrest l)
    · exact .inr ⟨gap, _, _, htext, hgap, .unexpected hblank (Front.of_eq_unexpected_iff.1 hof)⟩
    · obtain ⟨rfl, hmem⟩ := Front.of_eq_unterminated_iff.1 hof
      exact .inr ⟨gap, _, _, htext, hgap, .unterminated hmem⟩

end Source

/-! ## Longest tiles are read -/

theorem IsGap.isWholeGap_of_longest (h : IsGap gap)
    (hlongest : ∀ p, IsOpenGap p → p <+: gap ++ rest → p.length ≤ gap.length) :
    IsWholeGap gap rest := by
  refine h.isWholeGap ⟨fun c hc hblank => ?_, fun hslashes => ?_⟩
  · obtain ⟨more, rfl⟩ := List.head?_eq_some_iff.1 hc
    have hlonger : IsOpenGap (gap ++ [c]) := .closed (h.append (.blank hblank .none))
    have hle := hlongest _ hlonger ⟨more, by simp⟩
    rw [List.length_append, List.length_singleton] at hle
    omega
  · obtain ⟨more, rfl⟩ := hslashes
    have hlonger : IsOpenGap (gap ++ ['/', '/']) := .comment h List.not_mem_nil
    have hle := hlongest _ hlonger ⟨more, by simp⟩
    rw [List.length_append] at hle
    exact absurd hle (by simp)

/-- The lexeme of a token. -/
def Token.toLexeme (t : Token) : Lexeme := ⟨t.kind, t.lexeme.toList⟩

variable {tile : Tile} {tiles : List Tile}

theorem Tile.IsLongest.whole
    (h : tile.IsLongest (tile.gap ++ (tile.token.lexeme.toList ++ rest))) :
    IsWholeGap tile.gap (tile.token.toLexeme.text ++ rest) ∧
      tile.token.toLexeme.IsLongest (tile.token.toLexeme.text ++ rest) := by
  refine ⟨h.isGap.isWholeGap_of_longest h.gap_longest, h.spelled, List.prefix_append _ _, ?_⟩
  have hlongest := h.lexeme_longest
  rw [List.drop_left, ← String.length_toList] at hlongest
  exact hlongest

theorem Source.exists_tokenize_tiles (rest : List Char) (location : Location)
    (h : ∀ before tile behind, tiles = before ++ tile :: behind →
      tile.IsLongest ((textOf tiles ++ rest).drop (textOf before).length)) :
    ∃ tokens, tokenize ⟨location, textOf tiles ++ rest⟩ =
      ((tokenize ⟨location.after (textOf tiles), rest⟩).1.map (tokens ++ ·),
        (tokenize ⟨location.after (textOf tiles), rest⟩).2) := by
  induction tiles generalizing location with
  | nil =>
    refine ⟨[], ?_⟩
    show tokenize ⟨location, rest⟩ =
      ((tokenize ⟨location, rest⟩).1.map _, (tokenize ⟨location, rest⟩).2)
    rcases tokenize ⟨location, rest⟩ with ⟨e | ts, last⟩ <;> rfl
  | cons tile tiles ih =>
    have htext : textOf (tile :: tiles) ++ rest =
        tile.gap ++ (tile.token.toLexeme.text ++ (textOf tiles ++ rest)) :=
      textOf_split _ (List.nil_append (tile :: tiles)).symm rest
    have hfirst := h [] tile tiles rfl
    rw [htext] at hfirst
    obtain ⟨hgap, hlongest⟩ := hfirst.whole
    obtain ⟨tokens, htokens⟩ :=
      ih ((location.after tile.gap).after tile.token.toLexeme.text) fun before last behind hsplit => by
        have hlast := h (tile :: before) last behind (by rw [hsplit]; rfl)
        rw [htext] at hlast
        simpa [textOf, Token.toLexeme, ← List.drop_drop] using hlast
    refine ⟨tile.token.toLexeme.toToken (location.after tile.gap) :: tokens, ?_⟩
    rw [htext, tokenize_tile hgap hlongest, htokens]
    have hplace : (location.after tile.gap).after tile.token.toLexeme.text =
        location.after (tile.gap ++ tile.token.lexeme.toList) := (Location.after_append _ _ _).symm
    simp only [hplace, textOf, List.flatMap_cons, ← Location.after_append]
    rcases (tokenize _).1 with e | ts <;> rfl

/-! ## The first failure -/

/-- A text is longest tiles, then the longest gap, and then what starts with no token. There it fails. -/
def Fails (text : List Char) (e : LexicalError) : Prop :=
  ∃ tiles gap rest, text = textOf tiles ++ (gap ++ rest) ∧
    (∀ before tile behind, tiles = before ++ tile :: behind →
      tile.IsLongest (text.drop (textOf before).length)) ∧
    IsGap gap ∧ (∀ p, IsOpenGap p → p <+: gap ++ rest → p.length ≤ gap.length) ∧
    StartsNothing rest e.cause ∧ e.location = placeBehind (textOf tiles ++ gap)

theorem StartsNothing.ne_nil (h : StartsNothing text cause) : text ≠ [] := by
  cases h <;> simp

theorem tokenize_eq_error_iff {s : String} {e : LexicalError} :
    tokenize s = .error e ↔ Fails s.toList e := by
  constructor
  · intro h
    obtain ⟨tiles, last, hscans, hnone, htokenize⟩ := (Source.ofString s).exists_scans
    have herror : last.tokenize.1 = .error e := by
      have : (Source.ofString s).tokenize.1 = .error e := h
      rw [htokenize] at this
      rcases hlast : last.tokenize.1 with e | ts
      · rw [hlast] at this
        exact this
      · rw [hlast] at this
        contradiction
    obtain ⟨location, text⟩ := last
    have hlocation : location = placeBehind (textOf tiles) :=
      hscans.location_eq.trans (after_start_eq _)
    rcases hnone.exists_gap with hopen | ⟨gap, rest, cause, rfl, hgap, hstarts⟩
    · rw [Source.tokenize_openGap hopen] at herror
      contradiction
    · rw [Source.tokenize_of_startsNothing hgap hstarts] at herror
      cases herror
      refine ⟨tiles, gap, rest, hscans.text_eq, ?_, hgap.isGap hstarts.ne_nil,
        fun p => hgap.longest, hstarts, ?_⟩
      · rintro before tile behind rfl
        exact hscans.isLongest
      · rw [hlocation, ← after_start_eq, ← after_start_eq, Location.after_append]
  · rintro ⟨tiles, gap, rest, htext, htiles, hgap, hlongest, hstarts, hlocation⟩
    rw [htext] at htiles
    obtain ⟨tokens, htokens⟩ := Source.exists_tokenize_tiles (gap ++ rest) .start htiles
    have hwhole := hgap.isWholeGap_of_longest hlongest
    rw [tokenize, Source.ofString, htext, htokens, Source.tokenize_of_startsNothing hwhole hstarts,
      ← Location.after_append, after_start_eq, ← hlocation]
    rfl

end ScriptSyntax
