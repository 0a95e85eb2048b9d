import ScriptSyntax.Proofs.Lexical.Front
import ScriptSyntax.Proofs.Lexical.Gap
/-! # A text as a row of tiles

A tile is a token and the gap in front of it. A source is read tile by tile, each with the whole gap and
the longest lexeme, as far as there are lexemes.
-/

namespace ScriptSyntax

/-- A token and the gap in front of it. -/
structure Tile where
  gap : List Char
  token : Token
deriving DecidableEq, Repr

/-- The text of a row of tiles. -/
def textOf (tiles : List Tile) : List Char :=
  tiles.flatMap fun tile => tile.gap ++ tile.token.lexeme.toList

/-- Tiles in front of a source, and the source behind them. -/
inductive Scans : Source → List Tile → Source → Prop where
  | none (s : Source) : Scans s [] s
  | more {location : Location} {gap rest : List Char} {l : Lexeme} {tiles : List Tile}
      {last : Source} :
      IsWholeGap gap (l.text ++ rest) → l.IsLongest (l.text ++ rest) →
      Scans ⟨(location.after gap).after l.text, rest⟩ tiles last →
      Scans ⟨location, gap ++ (l.text ++ rest)⟩ (⟨gap, l.toToken (location.after gap)⟩ :: tiles) last

namespace Scans

variable {s last : Source} {tiles before behind : List Tile} {tile : Tile}

theorem text_eq (h : Scans s tiles last) : s.text = textOf tiles ++ last.text := by
  induction h with
  | none s => rfl
  | more _ _ _ ih =>
    dsimp only at ih
    rw [ih]
    simp [textOf, Lexeme.toToken]

theorem location_eq (h : Scans s tiles last) : last.location = s.location.after (textOf tiles) := by
  induction h with
  | none s => rfl
  | more _ _ _ ih =>
    rw [ih]
    simp [textOf, Lexeme.toToken, Location.after_append]

theorem exists_middle (h : Scans s (before ++ behind) last) :
    ∃ middle, Scans s before middle ∧ Scans middle behind last := by
  induction before generalizing s with
  | nil => exact ⟨s, .none s, h⟩
  | cons tile before ih =>
    rw [List.cons_append] at h
    cases h with
    | more hgap hlongest h =>
      obtain ⟨middle, hbefore, hbehind⟩ := ih h
      exact ⟨middle, .more hgap hlongest hbefore, hbehind⟩

theorem exists_lexeme (h : Scans s (before ++ tile :: behind) last) :
    ∃ l : Lexeme, tile.token = l.toToken (s.location.after (textOf before ++ tile.gap)) ∧
      IsWholeGap tile.gap (l.text ++ (textOf behind ++ last.text)) ∧
      l.IsLongest (l.text ++ (textOf behind ++ last.text)) := by
  obtain ⟨middle, hbefore, hmiddle⟩ := h.exists_middle
  have hlocation := hbefore.location_eq
  cases hmiddle with
  | @more location gap rest l _ _ hgap hlongest h =>
    obtain rfl : rest = textOf behind ++ last.text := h.text_eq
    refine ⟨l, ?_, hgap, hlongest⟩
    rw [Location.after_append, ← hlocation]

end Scans

/-! ## What is read of a source -/

namespace Source

/-- Behind the gap in front of a source there is no lexeme. -/
def HasNoLexeme (s : Source) : Prop :=
  ∀ c text, s.skipGap.text = c :: text → ∀ l, Front.of c text ≠ .lexeme l

theorem exists_first_tile {s : Source} (h : ¬s.HasNoLexeme) :
    ∃ (gap rest : List Char) (l : Lexeme), s.text = gap ++ (l.text ++ rest) ∧
      IsWholeGap gap (l.text ++ rest) ∧ l.IsLongest (l.text ++ rest) ∧
      let others := tokenize ⟨(s.location.after gap).after l.text, rest⟩
      s.tokenize = (others.1.map (l.toToken (s.location.after gap) :: ·), others.2) := by
  obtain ⟨c, text, hrest, l, hl⟩ : ∃ c text, s.skipGap.text = c :: text ∧
      ∃ l, Front.of c text = .lexeme l := by
    simpa [HasNoLexeme] using h
  obtain ⟨gap, htext, hlocation, hgap⟩ := s.exists_skipGap
  have hlongest := Front.isLongest_of_eq_lexeme hl
  obtain ⟨rest, hstands⟩ := hlongest.stands
  have hskip : s.skipGap = ⟨s.location.after gap, c :: text⟩ := by rw [← hlocation, ← hrest]
  rw [hrest, ← hstands] at hgap htext
  rw [← hstands] at hlongest
  refine ⟨gap, rest, l, htext, hgap, hlongest, ?_⟩
  intro others
  rw [tokenize_eq s, hskip]
  dsimp only
  rw [hl, ← hstands]
  dsimp only
  rw [List.drop_left]

/-- Reading a source is reading its tiles, and then what starts with no lexeme. -/
theorem exists_scans (s : Source) :
    ∃ tiles last, Scans s tiles last ∧ last.HasNoLexeme ∧
      s.tokenize = (last.tokenize.1.map (tiles.map Tile.token ++ ·), last.tokenize.2) := by
  induction hlength : s.text.length using Nat.strongRecOn generalizing s with
  | _ length ih =>
  subst hlength
  by_cases hlast : s.HasNoLexeme
  · refine ⟨[], s, .none s, hlast, ?_⟩
    rcases s.tokenize with ⟨e | ts, rest⟩ <;> rfl
  · obtain ⟨location, text⟩ := s
    obtain ⟨gap, rest, l, rfl, hgap, hlongest, htokenize⟩ := exists_first_tile hlast
    have hnonempty := List.length_pos_iff.2 hlongest.spelled.ne_nil
    obtain ⟨tiles, last, hscans, hnone, hothers⟩ :=
      ih rest.length (by simp only [List.length_append]; omega)
        ⟨(location.after gap).after l.text, rest⟩ rfl
    refine ⟨_, last, .more hgap hlongest hscans, hnone, ?_⟩
    rw [htokenize, hothers]
    rcases last.tokenize.1 with e | ts <;> rfl

theorem tokenize_of_hasNoLexeme {s : Source} (h : s.HasNoLexeme) {tokens : List Token}
    (hok : s.tokenize.1 = .ok tokens) :
    IsOpenGap s.text ∧ tokens = [.endOfInput (s.location.after s.text)] := by
  obtain ⟨gap, htext, hlocation, hgap⟩ := s.exists_skipGap
  rcases hrest : s.skipGap.text with _ | ⟨c, text⟩
  · have hskip : s.skipGap = ⟨s.location.after gap, []⟩ := by rw [← hlocation, ← hrest]
    rw [hrest, List.append_nil] at htext
    rw [tokenize_eq, hskip] at hok
    rw [htext]
    exact ⟨hgap.isOpenGap, (Except.ok.inj hok).symm⟩
  · have hskip : s.skipGap = ⟨s.location.after gap, c :: text⟩ := by rw [← hlocation, ← hrest]
    rw [tokenize_eq, hskip] at hok
    dsimp only at hok
    split at hok
    · contradiction
    · contradiction
    · rename_i l hl
      exact absurd hl (h c text hrest l)

theorem exists_tiles {s : Source} {tokens : List Token} (h : s.tokenize.1 = .ok tokens) :
    ∃ tiles last, Scans s tiles last ∧ IsOpenGap last.text ∧
      tokens = tiles.map Tile.token ++ [.endOfInput (s.location.after s.text)] := by
  obtain ⟨tiles, last, hscans, hnone, htokenize⟩ := s.exists_scans
  rw [htokenize] at h
  rcases hlast : last.tokenize.1 with e | ts
  · rw [hlast] at h
    contradiction
  · rw [hlast] at h
    obtain ⟨hopen, rfl⟩ := tokenize_of_hasNoLexeme hnone hlast
    refine ⟨tiles, last, hscans, hopen, ?_⟩
    rw [hscans.text_eq, Location.after_append, ← hscans.location_eq]
    exact (Except.ok.inj h).symm

end Source

/-! ## Tiles are read one by one -/

section read

variable {gap rest : List Char} {l : Lexeme}

theorem Source.tokenize_tile (hgap : IsWholeGap gap (l.text ++ rest))
    (hlongest : l.IsLongest (l.text ++ rest)) (location : Location) :
    let others := tokenize ⟨(location.after gap).after l.text, rest⟩
    tokenize ⟨location, gap ++ (l.text ++ rest)⟩ =
      (others.1.map (l.toToken (location.after gap) :: ·), others.2) := by
  obtain ⟨c, more, hmore⟩ := List.exists_cons_of_ne_nil hlongest.spelled.ne_nil
  have hof : Front.of c (more ++ rest) = .lexeme l :=
    Front.of_eq_lexeme (by rwa [← List.cons_append, ← hmore])
  intro others
  rw [tokenize_eq, skipGap_of_isWholeGap hgap, hmore, List.cons_append]
  dsimp only
  rw [hof, ← List.cons_append, ← hmore]
  dsimp only
  rw [List.drop_left]

theorem Source.tokenize_openGap (h : IsOpenGap gap) (location : Location) :
    (tokenize ⟨location, gap⟩).1 = .ok [.endOfInput (location.after gap)] := by
  rw [tokenize_eq, skipGap_open h]

theorem Scans.tokenize_eq {s last : Source} {tiles : List Tile} (h : Scans s tiles last)
    (hlast : IsOpenGap last.text) :
    s.tokenize.1 = .ok (tiles.map Tile.token ++ [.endOfInput (s.location.after s.text)]) := by
  induction h with
  | none s => exact Source.tokenize_openGap hlast s.location
  | @more location gap rest l tiles last hgap hlongest _ ih =>
    rw [Source.tokenize_tile hgap hlongest]
    dsimp only
    rw [ih hlast, ← Location.after_append, ← Location.after_append]
    rfl

end read

end ScriptSyntax
