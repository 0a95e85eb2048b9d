import ScriptSyntax.Proofs.Lexical.Literals
import ScriptSyntax.Proofs.Lexical.Tiles
/-! # The tokens of a text

Where a text is read to its end, it is its lexemes with gaps between them, and nothing is left out.
Each lexeme is the longest that stands where it starts, and each gap too.
-/

namespace ScriptSyntax

/-! ## Places -/

/-- The place behind a text: one line more than it has newlines, and one column more than it has
characters behind the last of them. -/
def placeBehind (text : List Char) : Location :=
  ⟨1 + text.count '\n', 1 + (text.reverse.takeWhile (· != '\n')).length⟩

theorem placeBehind_concat (text : List Char) (c : Char) :
    placeBehind (text ++ [c]) = (placeBehind text).advance c := by
  unfold placeBehind Location.advance
  by_cases hc : c = '\n'
  · simp [hc, Nat.add_assoc]
  · simp [hc, Nat.add_comm]

theorem after_start_eq (text : List Char) : Location.start.after text = placeBehind text := by
  have h (reversed : List Char) :
      Location.start.after reversed.reverse = placeBehind reversed.reverse := by
    induction reversed with
    | nil => rfl
    | cons c reversed ih =>
      rw [List.reverse_cons, Location.after_append, ih, placeBehind_concat]
      rfl
  simpa using h text.reverse

/-! ## Tiles -/

variable {s : String} {tokens : List Token} {tiles before behind : List Tile} {tile : Tile}

/-- A tile has the longest lexeme and the longest gap of what remains where it starts. -/
structure Tile.IsLongest (tile : Tile) (remaining : List Char) : Prop where
  stands : tile.gap ++ tile.token.lexeme.toList <+: remaining
  isGap : IsGap tile.gap
  gap_longest : ∀ p, IsOpenGap p → p <+: remaining → p.length ≤ tile.gap.length
  spelled : tile.token.kind.Spelled tile.token.lexeme.toList
  lexeme_longest : ∀ (kind : TokenKind) (p : List Char), kind.Spelled p →
    p <+: remaining.drop tile.gap.length → p.length ≤ tile.token.lexeme.length

theorem TokenKind.Spelled.ne_endOfInput {text : List Char} {kind : TokenKind}
    (h : kind.Spelled text) : kind ≠ .endOfInput := by
  rintro rfl
  cases h <;> contradiction

theorem textOf_split (tiles : List Tile) (h : tiles = before ++ tile :: behind) (last : List Char) :
    textOf tiles ++ last = textOf before ++
      (tile.gap ++ (tile.token.lexeme.toList ++ (textOf behind ++ last))) := by
  rw [h]
  simp [textOf]

theorem Tile.IsLongest.not_slash {rest : List Char}
    (h : tile.IsLongest (tile.gap ++ (tile.token.lexeme.toList ++ rest)))
    (hslash : tile.token.kind = .slash) : rest.head? ≠ some '/' := by
  intro hnext
  have hspelled := h.spelled
  rw [hslash] at hspelled
  have hlexeme : tile.token.lexeme.toList = ['/'] := by
    cases hspelled with
    | mark hmark => exact (Option.some.inj hmark).symm
    | keyword hkeyword => contradiction
  obtain ⟨more, rfl⟩ := List.head?_eq_some_iff.1 hnext
  -- Two slashes would be a comment, which belongs to the gap, and the gap is the longest.
  have hcomment : IsOpenGap (tile.gap ++ ['/', '/']) := .comment h.isGap (List.not_mem_nil)
  have hle := h.gap_longest _ hcomment ⟨more, by rw [hlexeme]; simp⟩
  rw [List.length_append] at hle
  exact absurd hle (by simp)

theorem exists_scans_of_tokenize (h : tokenize s = .ok tokens) :
    ∃ tiles last, Scans (.ofString s) tiles last ∧ s.toList = textOf tiles ++ last.text ∧
      IsOpenGap last.text ∧
      tokens = tiles.map Tile.token ++ [.endOfInput (placeBehind s.toList)] := by
  obtain ⟨tiles, last, hscans, hopen, htokens⟩ := Source.exists_tiles h
  refine ⟨tiles, last, hscans, hscans.text_eq, hopen, ?_⟩
  rw [← after_start_eq]
  exact htokens

theorem Scans.isLongest {last : Source} (h : Scans (.ofString s) (before ++ tile :: behind) last) :
    tile.IsLongest (s.toList.drop (textOf before).length) := by
  have htext : s.toList = textOf before ++
      (tile.gap ++ (tile.token.lexeme.toList ++ (textOf behind ++ last.text))) := by
    rw [← textOf_split _ rfl]
    exact h.text_eq
  obtain ⟨l, htoken, hgap, hlongest⟩ := h.exists_lexeme
  have hlexeme : tile.token.lexeme.toList = l.text := by simp [htoken, Lexeme.toToken]
  have hkind : tile.token.kind = l.kind := by rw [htoken]; rfl
  have hlength : tile.token.lexeme.length = l.text.length := by rw [← hlexeme, String.length_toList]
  rw [htext, List.drop_left, hlexeme]
  constructor
  case stands =>
    rw [hlexeme, ← List.append_assoc]
    exact List.prefix_append _ _
  case isGap => exact hgap.isGap (by simp [hlongest.spelled.ne_nil])
  case gap_longest => exact fun p hp => hgap.longest hp
  case spelled =>
    rw [hkind, hlexeme]
    exact hlongest.spelled
  case lexeme_longest =>
    rw [List.drop_left, hlength]
    exact hlongest.longest

theorem Scans.location_of_tile {last : Source}
    (h : Scans (.ofString s) (before ++ tile :: behind) last) :
    tile.token.location = placeBehind (textOf before ++ tile.gap) := by
  obtain ⟨l, htoken, -, -⟩ := h.exists_lexeme
  rw [htoken, ← after_start_eq]
  rfl

theorem Scans.hasLiteral {last : Source}
    (h : Scans (.ofString s) (before ++ tile :: behind) last) : tile.token.HasLiteral := by
  obtain ⟨l, htoken, -, hlongest⟩ := h.exists_lexeme
  rw [htoken]
  exact Lexeme.hasLiteral hlongest.spelled _

/-! ## Nothing is left out -/

/-- A text that is read to its end is the lexemes of its tokens with a gap in front of each and one
behind them, and there is one token more, which ends the input. Each token has its true place and
literal. -/
theorem tokenize_tiles (h : tokenize s = .ok tokens) :
    ∃ tiles last, s.toList = textOf tiles ++ last ∧ IsOpenGap last ∧
      tokens = tiles.map Tile.token ++ [.endOfInput (placeBehind s.toList)] ∧
      ∀ before tile behind, tiles = before ++ tile :: behind →
        IsGap tile.gap ∧ tile.token.lexeme ≠ "" ∧ tile.token.kind ≠ .endOfInput ∧
          tile.token.location = placeBehind (textOf before ++ tile.gap) ∧
          tile.token.HasLiteral := by
  obtain ⟨tiles, last, hscans, htext, hopen, htokens⟩ := exists_scans_of_tokenize h
  refine ⟨tiles, last.text, htext, hopen, htokens, ?_⟩
  rintro before tile behind rfl
  have hlongest := hscans.isLongest
  refine ⟨hlongest.isGap, fun hempty => ?_, hlongest.spelled.ne_endOfInput, hscans.location_of_tile,
    hscans.hasLiteral⟩
  exact hlongest.spelled.ne_nil (by rw [hempty]; rfl)

/-- A name, a comment with a quote in it, a string of two lines with slashes in it, a number and a dot. -/
def remark : String := "orb// \"\n\"//\n\" 1.5."

def remarkTokens : List Token :=
  [⟨.identifier, "orb", none, ⟨1, 1⟩⟩, ⟨.string, "\"//\n\"", some (.text "//\n"), ⟨2, 1⟩⟩,
    ⟨.number, "1.5", some (.number ⟨0x3FF8000000000000⟩), ⟨3, 3⟩⟩, ⟨.dot, ".", none, ⟨3, 6⟩⟩,
    .endOfInput ⟨3, 7⟩]

theorem tokenize_of_toOption (h : (tokenize s).toOption = some tokens) :
    tokenize s = .ok tokens := by
  rcases htokenize : tokenize s with e | found
  · rw [htokenize] at h
    contradiction
  · rw [htokenize] at h
    exact congrArg Except.ok (Option.some.inj h)

theorem tokenize_remark : tokenize remark = .ok remarkTokens :=
  tokenize_of_toOption (by decide +kernel)

theorem tokenize_tiles_of_remark :
    tokenize remark = .ok remarkTokens ∧ ∃ tiles last, remark.toList = textOf tiles ++ last ∧
      IsOpenGap last ∧ tiles.map Tile.token = remarkTokens.dropLast ∧
        placeBehind remark.toList = ⟨3, 7⟩ := by
  obtain ⟨tiles, last, htext, hopen, htokens, -⟩ := tokenize_tiles tokenize_remark
  refine ⟨tokenize_remark, tiles, last, htext, hopen, ?_, by decide⟩
  rw [htokens, List.dropLast_concat]

/-! ## Longest match -/

/-- In a text that is read to its end, each gap and each lexeme is the longest of what remains where it
starts. So no slash is followed by another one. -/
theorem tokenize_longest (h : tokenize s = .ok tokens) :
    ∃ tiles last, s.toList = textOf tiles ++ last ∧ IsOpenGap last ∧
      tokens = tiles.map Tile.token ++ [.endOfInput (placeBehind s.toList)] ∧
      ∀ before tile behind, tiles = before ++ tile :: behind →
        tile.token.location = placeBehind (textOf before ++ tile.gap) ∧
          tile.IsLongest (s.toList.drop (textOf before).length) ∧
          (tile.token.kind = .slash → (textOf behind ++ last).head? ≠ some '/') := by
  obtain ⟨tiles, last, hscans, htext, hopen, htokens⟩ := exists_scans_of_tokenize h
  refine ⟨tiles, last.text, htext, hopen, htokens, ?_⟩
  rintro before tile behind rfl
  have hlongest := hscans.isLongest
  refine ⟨hscans.location_of_tile, hlongest, fun hslash => ?_⟩
  rw [htext, textOf_split _ rfl, List.drop_left] at hlongest
  exact hlongest.not_slash hslash

theorem tokenize_longest_of_remark :
    tokenize remark = .ok remarkTokens ∧
      ∃ tile : Tile, tile.token.lexeme = "orb" ∧ tile.token.kind = .identifier ∧
        tile.IsLongest remark.toList := by
  obtain ⟨tiles, last, -, -, htokens, htiles⟩ := tokenize_longest tokenize_remark
  cases tiles with
  | nil => exact absurd (congrArg List.length htokens) (by decide)
  | cons tile tiles =>
    have htoken : tile.token = ⟨.identifier, "orb", none, ⟨1, 1⟩⟩ := (List.cons.inj htokens).1.symm
    have hlongest := (htiles [] tile tiles rfl).2.1
    exact ⟨tokenize_remark, tile, by rw [htoken], by rw [htoken], hlongest⟩

end ScriptSyntax
