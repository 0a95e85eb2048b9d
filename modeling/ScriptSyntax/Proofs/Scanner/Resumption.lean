import Mathlib.Data.Nat.Find
import Mathlib.Order.Monotone.Basic
import ScriptSyntax.Proofs.Scanner.Reads
/-! # Reading on

What is left of a text can be read on behind an error. Each reading starts where the one before it came
to, and says what the rest of the text on its own would say.
-/

namespace ScriptSyntax

/-! ## Places in a part of a text -/

namespace Location

variable {l origin : Location}

/-- A place as places are counted. -/
def IsCounted (l : Location) : Prop := 1 ≤ l.line ∧ 1 ≤ l.column

/-- Where a place of a text is in a longer text, in which the text starts at the origin. -/
def within (l origin : Location) : Location :=
  if l.line = 1 then ⟨origin.line, origin.column + l.column - 1⟩
  else ⟨origin.line + l.line - 1, l.column⟩

theorem start_isCounted : start.IsCounted := ⟨Nat.le_refl 1, Nat.le_refl 1⟩

theorem start_within (origin : Location) : start.within origin = origin := rfl

theorem IsCounted.advance (h : l.IsCounted) (c : Char) : (l.advance c).IsCounted := by
  obtain ⟨hline, hcolumn⟩ := h
  unfold Location.advance
  split
  · exact ⟨Nat.le_add_left 1 l.line, Nat.le_refl 1⟩
  · exact ⟨hline, Nat.le_add_left 1 l.column⟩

theorem IsCounted.after (h : l.IsCounted) (text : List Char) : (l.after text).IsCounted := by
  induction text generalizing l with
  | nil => exact h
  | cons c text ih => exact ih (h.advance c)

theorem IsCounted.within_advance (h : l.IsCounted) (origin : Location) (c : Char) :
    (l.advance c).within origin = (l.within origin).advance c := by
  obtain ⟨hline, hcolumn⟩ := h
  unfold Location.advance within
  split_ifs <;> simp_all <;> omega

theorem IsCounted.within_after (h : l.IsCounted) (origin : Location) (text : List Char) :
    (l.after text).within origin = (l.within origin).after text := by
  induction text generalizing l with
  | nil => rfl
  | cons c text ih => rw [after_cons, after_cons, ih (h.advance c), h.within_advance]

theorem le_after (l : Location) (text : List Char) : l.line ≤ (l.after text).line ∧
    ((l.after text).line = l.line → l.column + text.length ≤ (l.after text).column) := by
  induction text generalizing l with
  | nil => exact ⟨Nat.le_refl _, fun _ => Nat.le_refl _⟩
  | cons c text ih =>
    obtain ⟨hline, hcolumn⟩ := ih (l.advance c)
    rw [after_cons, List.length_cons]
    by_cases hc : c = '\n'
    · have hnext : (l.advance c).line = l.line + 1 := by rw [Location.advance, if_pos hc]
      exact ⟨by omega, fun h => by omega⟩
    · have hnext : l.advance c = ⟨l.line, l.column + 1⟩ := if_neg hc
      rw [hnext] at hline hcolumn ⊢
      exact ⟨hline, fun h => by have := hcolumn h; dsimp only at this; omega⟩

theorem after_ne {text : List Char} (h : text ≠ []) (l : Location) : l.after text ≠ l := by
  intro hsame
  have hcolumn := (l.le_after text).2
  rw [hsame] at hcolumn
  have hlength := List.length_pos_iff.2 h
  have := hcolumn rfl
  omega

end Location

/-- What a reading says of a text is said of a longer one, in which the text starts at the origin. -/
def placedWithin (origin : Location) :
    Except LexicalError (List Token) → Except LexicalError (List Token)
  | .ok tokens => .ok (tokens.map fun t => { t with location := t.location.within origin })
  | .error e => .error { e with location := e.location.within origin }

namespace Source

/-- Reading does not depend on where a text starts, but for places. -/
theorem tokenize_within {location : Location} (h : location.IsCounted) (origin : Location)
    (text : List Char) :
    tokenize ⟨location.within origin, text⟩ =
      (placedWithin origin (tokenize ⟨location, text⟩).1,
        ⟨(tokenize ⟨location, text⟩).2.location.within origin, (tokenize ⟨location, text⟩).2.text⟩) := by
  induction hlength : text.length using Nat.strongRecOn generalizing location text with
  | _ length ih =>
  subst hlength
  obtain ⟨gap, rest, rfl, hgap⟩ := exists_isWholeGap text
  have hplace := h.after gap
  rw [tokenize_eq ⟨location.within origin, gap ++ rest⟩, tokenize_eq ⟨location, gap ++ rest⟩,
    skipGap_of_isWholeGap hgap, skipGap_of_isWholeGap hgap, ← h.within_after]
  cases rest with
  | nil => rfl
  | cons c rest =>
    dsimp only
    rcases hof : Front.of c rest with l | _ | _
    · have hnonempty := List.length_pos_iff.2 (Front.ne_nil_of_eq_lexeme hof)
      have hless : ((c :: rest).drop l.text.length).length < (gap ++ c :: rest).length := by
        rw [List.length_drop, List.length_append, List.length_cons]
        omega
      dsimp only
      rw [← hplace.within_after, ih _ hless (hplace.after l.text) _ rfl]
      dsimp only
      rcases (tokenize _).1 with e | tokens <;> rfl
    · dsimp only
      rw [← hplace.within_advance]
      rfl
    · dsimp only
      rw [← hplace.within_after]
      rfl

instance (c : Char) : Decidable (IsBlank c) := inferInstanceAs (Decidable (_ ∨ _))

/-! ## One reading -/

theorem tokenize_cases (s : Source) :
    (∃ before c rest, s.text = before ++ c :: rest ∧ ¬IsBlank c ∧ ¬StartsToken c ∧
      s.tokenize = (.error ⟨.unexpectedCharacter c, s.location.after before⟩,
        ⟨s.location.after (before ++ [c]), rest⟩)) ∨
    ((∀ e, s.tokenize.1 = .error e → e.cause = .unterminatedString) ∧
      s.tokenize.2 = ⟨s.location.after s.text, []⟩) := by
  obtain ⟨tiles, ⟨location, text⟩, hscans, hnone, htokenize⟩ := s.exists_scans
  have htext : s.text = textOf tiles ++ text := hscans.text_eq
  obtain rfl : location = s.location.after (textOf tiles) := hscans.location_eq
  rcases hnone.exists_gap with hopen | ⟨gap, rest, cause, rfl, hgap, hstarts⟩
  · have hlast : tokenize ⟨s.location.after (textOf tiles), text⟩ =
        (.ok [.endOfInput (s.location.after s.text)], ⟨s.location.after s.text, []⟩) := by
      rw [tokenize_eq, skipGap_open hopen, htext, Location.after_append]
    rw [htokenize, hlast]
    exact .inr ⟨fun e he => by contradiction, rfl⟩
  · rw [htokenize, tokenize_of_startsNothing hgap hstarts]
    cases hstarts with
    | @unexpected c rest hblank hstarts =>
      refine .inl ⟨textOf tiles ++ gap, c, rest, by rw [htext, List.append_assoc], hblank, hstarts, ?_⟩
      simp only [Location.after_append]
      rfl
    | unterminated =>
      refine .inr ⟨fun e he => ?_, ?_⟩
      · obtain rfl := Except.error.inj he
        rfl
      · rw [htext, Location.after_append, Location.after_append, LexicalCause.givenUp,
          List.take_length, List.drop_length]

/-! ## Readings in a row -/

/-- The source that some readings leave. -/
def afterReadings (s : Source) : Nat → Source
  | 0 => s
  | k + 1 => (s.afterReadings k).tokenize.2

/-- What a reading says when so many have gone before. -/
def answer (s : Source) (k : Nat) : Except LexicalError (List Token) := (s.afterReadings k).tokenize.1

/-- A reading reports a character. -/
def Reports (s : Source) (k : Nat) (c : Char) (location : Location) : Prop :=
  s.answer k = .error ⟨.unexpectedCharacter c, location⟩

variable {s : Source} {k : Nat} {c : Char} {location : Location}

theorem exists_read (s : Source) (k : Nat) :
    ∃ read, (s.afterReadings k).text = read ++ (s.afterReadings (k + 1)).text ∧
      (s.afterReadings (k + 1)).location = (s.afterReadings k).location.after read := by
  show ∃ read, _ = read ++ (s.afterReadings k).tokenize.2.text ∧
    (s.afterReadings k).tokenize.2.location = _
  rcases (s.afterReadings k).tokenize_cases with ⟨before, c, rest, htext, -, -, htokenize⟩ | ⟨-, hend⟩
  · rw [htokenize]
    exact ⟨before ++ [c], by simp [htext], rfl⟩
  · rw [hend]
    exact ⟨_, (List.append_nil _).symm, rfl⟩

theorem exists_front (s : Source) (k : Nat) :
    ∃ front, s.text = front ++ (s.afterReadings k).text ∧
      (s.afterReadings k).location = s.location.after front := by
  induction k with
  | zero => exact ⟨[], rfl, rfl⟩
  | succ k ih =>
    obtain ⟨front, htext, hlocation⟩ := ih
    obtain ⟨read, hread, hplace⟩ := s.exists_read k
    exact ⟨front ++ read, by rw [htext, hread, List.append_assoc],
      by rw [hplace, hlocation, Location.after_append]⟩

theorem Reports.exists_read (h : s.Reports k c location) :
    ∃ before, (s.afterReadings k).text = before ++ c :: (s.afterReadings (k + 1)).text ∧
      location = (s.afterReadings k).location.after before ∧ ¬IsBlank c ∧ ¬StartsToken c := by
  have hanswer : (s.afterReadings k).tokenize.1 = _ := h
  rcases (s.afterReadings k).tokenize_cases with
    ⟨before, d, rest, htext, hblank, hstarts, htokenize⟩ | ⟨hcause, -⟩
  · rw [htokenize] at hanswer
    cases hanswer
    have hrest : (s.afterReadings (k + 1)).text = rest := by rw [afterReadings, htokenize]
    exact ⟨before, by rw [hrest, htext], rfl, hblank, hstarts⟩
  · exact absurd (hcause _ hanswer) (by simp)

theorem afterReadings_of_not_reports (h : ∀ c location, ¬s.Reports k c location) :
    (s.afterReadings (k + 1)).text = [] := by
  rcases (s.afterReadings k).tokenize_cases with ⟨before, c, rest, -, -, -, htokenize⟩ | ⟨-, hend⟩
  · refine absurd ?_ (h c ((s.afterReadings k).location.after before))
    rw [Reports, answer, htokenize]
  · rw [afterReadings, hend]

theorem answer_of_nil (h : (s.afterReadings k).text = []) (more : Nat) :
    s.answer (k + more) = .ok [.endOfInput (s.location.after s.text)] := by
  have hlast : s.afterReadings k = ⟨s.location.after s.text, []⟩ := by
    obtain ⟨front, htext, hlocation⟩ := s.exists_front k
    rw [h, List.append_nil] at htext
    rw [← h, htext, ← hlocation]
  have hread (location : Location) :
      tokenize ⟨location, []⟩ = (.ok [.endOfInput location], ⟨location, []⟩) := tokenize_eq _
  have hstays : s.afterReadings (k + more) = ⟨s.location.after s.text, []⟩ := by
    induction more with
    | zero => exact hlast
    | succ more ih => rw [← Nat.add_assoc, afterReadings, ih, hread]
  rw [answer, hstays, hread]

/-! ## Offsets -/

/-- How many characters some readings leave behind them. -/
def offset (s : Source) (k : Nat) : Nat := s.text.length - (s.afterReadings k).text.length

theorem offset_zero (s : Source) : s.offset 0 = 0 := Nat.sub_self _

theorem offset_le (s : Source) (k : Nat) : s.offset k ≤ s.text.length := Nat.sub_le _ _

theorem offset_monotone (s : Source) : Monotone s.offset :=
  monotone_nat_of_le_succ fun k => by
    obtain ⟨read, hread, -⟩ := s.exists_read k
    unfold offset
    rw [hread, List.length_append]
    omega

theorem afterReadings_eq (s : Source) (k : Nat) : s.afterReadings k =
    ⟨s.location.after (s.text.take (s.offset k)), s.text.drop (s.offset k)⟩ := by
  obtain ⟨front, htext, hlocation⟩ := s.exists_front k
  have hoffset : s.offset k = front.length := by
    rw [offset, htext, List.length_append, Nat.add_sub_cancel]
  have hplace : (s.afterReadings k).location = s.location.after (s.text.take (s.offset k)) := by
    rw [hlocation, hoffset, htext, List.take_left]
  have hrest : (s.afterReadings k).text = s.text.drop (s.offset k) := by
    rw [hoffset, htext, List.drop_left]
  rw [← hplace, ← hrest]

theorem Reports.exists_offset (h : s.Reports k c location) :
    ∃ i, s.offset k ≤ i ∧ s.offset (k + 1) = i + 1 ∧ s.text[i]? = some c ∧
      location = s.location.after (s.text.take i) ∧ ¬IsBlank c ∧ ¬StartsToken c := by
  obtain ⟨front, htext, hlocation⟩ := s.exists_front k
  obtain ⟨before, hread, hplace, hblank, hstarts⟩ := h.exists_read
  rw [hread] at htext
  refine ⟨(front ++ before).length, ?_, ?_, ?_, ?_, hblank, hstarts⟩
  · rw [offset, htext, hread]
    simp only [List.length_append]
    omega
  · rw [offset, htext]
    simp only [List.length_append, List.length_cons]
    omega
  · rw [htext, ← List.append_assoc, List.getElem?_append_right (Nat.le_refl _), Nat.sub_self]
    rfl
  · rw [htext, ← List.append_assoc, List.take_left, Location.after_append, ← hlocation, hplace]

theorem Reports.unique {j : Nat} {d : Char} (h : s.Reports j c location)
    (hagain : s.Reports k d location) : j = k := by
  suffices hless : ∀ {j k : Nat} {c d : Char}, s.Reports j c location → s.Reports k d location →
      ¬j < k by
    have hjk := hless h hagain
    have hkj := hless hagain h
    omega
  -- The later reading is past the character of the earlier one, and characters lead to another place.
  intro j k c d h hagain hjk
  obtain ⟨i, -, hi, -, hplace, -⟩ := h.exists_offset
  obtain ⟨i', hi', -, hchar, hplace', -⟩ := hagain.exists_offset
  have hle : s.offset (j + 1) ≤ s.offset k := s.offset_monotone hjk
  have hlength : i' < s.text.length := (List.getElem?_eq_some_iff.1 hchar).1
  have hsplit : s.text.take i' = s.text.take i ++ (s.text.drop i).take (i' - i) := by
    rw [← List.take_add, Nat.add_sub_cancel' (by omega)]
  have hmore : (s.text.drop i).take (i' - i) ≠ [] := by
    rw [← List.length_pos_iff, List.length_take, List.length_drop]
    omega
  rw [hplace', hsplit, Location.after_append] at hplace
  exact Location.after_ne hmore _ hplace

/-- As many readings report a character as there are characters to report, at most. -/
theorem le_countP_of_reports (h : ∀ j < k, ∃ c location, s.Reports j c location) :
    k ≤ (s.text.take (s.offset k)).countP fun c => ¬IsBlank c ∧ ¬StartsToken c := by
  induction k with
  | zero => exact Nat.zero_le _
  | succ k ih =>
    obtain ⟨c, location, hreports⟩ := h k (Nat.lt_succ_self k)
    obtain ⟨i, hle, hi, hchar, -, hstray⟩ := hreports.exists_offset
    have hcount := ih fun j hj => h j (Nat.lt_succ_of_lt hj)
    have hsublist : (s.text.take (s.offset k)).Sublist (s.text.take i) :=
      (List.take_prefix_take_left hle).sublist
    have hmore := hsublist.countP_le (p := fun c => ¬IsBlank c ∧ ¬StartsToken c)
    rw [hi, List.take_add_one, hchar, List.countP_append, Option.toList_some, List.countP_singleton,
      if_pos (by simpa using hstray)]
    omega

theorem exists_not_reports (s : Source) : ∃ n, ∀ c location, ¬s.Reports n c location := by
  by_contra hnone
  push Not at hnone
  have hcount := s.le_countP_of_reports fun j (_ : j < s.text.length + 1) => hnone j
  have hle := (List.countP_le_length (p := fun c => decide (¬IsBlank c ∧ ¬StartsToken c))
    (l := s.text.take (s.offset (s.text.length + 1))))
  rw [List.length_take] at hle
  omega

theorem exists_last (s : Source) :
    ∃ n ≤ s.text.countP fun c => ¬IsBlank c ∧ ¬StartsToken c,
      (∀ k < n, ∃ c location, s.Reports k c location) ∧ (∀ c location, ¬s.Reports n c location) ∧
      ∀ k, n < k → s.answer k = .ok [.endOfInput (s.location.after s.text)] := by
  classical
  have hreports : ∀ k < Nat.find s.exists_not_reports, ∃ c location, s.Reports k c location :=
    fun k hk => by simpa using Nat.find_min s.exists_not_reports hk
  have hlast := Nat.find_spec s.exists_not_reports
  refine ⟨Nat.find s.exists_not_reports, ?_, hreports, hlast, fun k hk => ?_⟩
  · exact (s.le_countP_of_reports hreports).trans (List.take_sublist _ _).countP_le
  · obtain ⟨more, rfl⟩ := Nat.exists_eq_add_of_lt hk
    have := answer_of_nil (afterReadings_of_not_reports hlast) more
    rwa [Nat.add_right_comm] at this

/-! ## The scanner that is left -/

theorem withNumber_toToken (l : Lexeme) (location : Location) :
    (l.toToken location).withNumber readNearest = l.toToken location := by
  obtain ⟨kind, text⟩ := l
  cases kind <;> simp [Token.withNumber, Lexeme.toToken, Lexeme.literal, readNearest]

theorem withNumber_of_tokenize {tokens : List Token} (h : s.tokenize.1 = .ok tokens) :
    tokens.map (·.withNumber readNearest) = tokens := by
  obtain ⟨tiles, last, hscans, -, rfl⟩ := exists_tiles h
  have hsame : ∀ t ∈ tiles.map Tile.token ++ [.endOfInput (s.location.after s.text)],
      t.withNumber readNearest = t := by
    intro t ht
    rcases List.mem_append.1 ht with ht | ht
    · obtain ⟨tile, htile, rfl⟩ := List.mem_map.1 ht
      obtain ⟨before, behind, rfl⟩ := List.append_of_mem htile
      obtain ⟨l, htoken, -⟩ := hscans.exists_lexeme
      rw [htoken, withNumber_toToken]
    · rw [List.mem_singleton.1 ht]
      rfl
  exact (List.map_congr_left hsame).trans (List.map_id _)

end Source

/-- What a scanner ends with when a source says something. -/
def scanned : Except LexicalError (List Token) → Except ScanError (List Token)
  | .ok tokens => .ok tokens
  | .error e => .error ⟨.ofLexical e.cause, e.location⟩

theorem Scan.run_answer (s : Source) (k : Nat) :
    (Scan.tokenize readNearest).run ((s.afterReadings k).scanner s.text) =
      some (scanned (s.answer k), (s.afterReadings (k + 1)).scanner s.text) := by
  obtain ⟨front, htext, -⟩ := s.exists_front k
  rw [Scan.tokenize, run_moreTokens (fun _ _ => rfl) ⟨front, htext.symm⟩]
  unfold Source.answer
  rcases htokenize : (s.afterReadings k).tokenize.1 with e | tokens
  · rfl
  · dsimp only
    rw [Source.withNumber_of_tokenize htokenize]
    rfl

/-! ## All readings of a text -/

theorem tokenize_behind (front rest : List Char) :
    (Source.tokenize ⟨placeBehind front, rest⟩).1 =
      placedWithin (placeBehind front) (tokenize (String.ofList rest)) := by
  have hfresh := Source.tokenize_within Location.start_isCounted (placeBehind front) rest
  rw [Location.start_within] at hfresh
  rw [hfresh, tokenize, Source.ofString, String.toList_ofList]

/-- Readings of a text, one behind the other, start at offsets that never go back. Each says what a
first reading says of the text from its offset on, with the places it has in the whole text, and so
does a scanner, which comes to the next offset. Behind a reading that reports a character the offset is
right behind that character, and behind any other it is the end of the text, where there is nothing but
the end to say. So no character is reported twice, and the readings say the same from the second on
that reports none. -/
theorem tokenize_resumes (s : String) :
    let answer := (Source.ofString s).answer
    ∃ offset : Nat → Nat, offset 0 = 0 ∧ Monotone offset ∧ (∀ k, offset k ≤ s.toList.length) ∧
      (∀ k, answer k = placedWithin (placeBehind (s.toList.take (offset k)))
        (tokenize (String.ofList (s.toList.drop (offset k))))) ∧
      (∀ k, (Scan.tokenize readNearest).run
          ⟨s.toList, offset k, placeBehind (s.toList.take (offset k))⟩ =
        some (scanned (answer k),
          ⟨s.toList, offset (k + 1), placeBehind (s.toList.take (offset (k + 1)))⟩)) ∧
      (∀ k c location, answer k = .error ⟨.unexpectedCharacter c, location⟩ →
        ∃ i, offset k ≤ i ∧ offset (k + 1) = i + 1 ∧ s.toList[i]? = some c ∧
          location = placeBehind (s.toList.take i)) ∧
      (∀ k tokens, answer k = .ok tokens → offset (k + 1) = s.toList.length) ∧
      (∀ k location, answer k = .error ⟨.unterminatedString, location⟩ →
        offset (k + 1) = s.toList.length) ∧
      (∀ k, offset k = s.toList.length →
        ∀ more, answer (k + more) = .ok [.endOfInput (placeBehind s.toList)]) ∧
      (∀ j k c d location, answer j = .error ⟨.unexpectedCharacter c, location⟩ →
        answer k = .error ⟨.unexpectedCharacter d, location⟩ → j = k) ∧
      ∃ n ≤ s.toList.countP fun c => ¬IsBlank c ∧ ¬StartsToken c,
        (∀ k < n, ∃ c location, answer k = .error ⟨.unexpectedCharacter c, location⟩) ∧
        (∀ c location, answer n ≠ .error ⟨.unexpectedCharacter c, location⟩) ∧
        ∀ k, n < k → answer k = .ok [.endOfInput (placeBehind s.toList)] := by
  intro answer
  have hplace (text : List Char) : (Source.ofString s).location.after text = placeBehind text :=
    after_start_eq text
  have hend {k : Nat} (h : ∀ c location, ¬(Source.ofString s).Reports k c location) :
      (Source.ofString s).offset (k + 1) = s.toList.length := by
    rw [Source.offset, Source.afterReadings_of_not_reports h]
    rfl
  refine ⟨(Source.ofString s).offset, Source.offset_zero _, Source.offset_monotone _,
    Source.offset_le _, fun k => ?_, fun k => ?_, fun k c location h => ?_, fun k tokens h => ?_,
    fun k location h => ?_, fun k h more => ?_, fun j k c d location h hagain => ?_, ?_⟩
  · show ((Source.ofString s).afterReadings k).tokenize.1 = _
    rw [Source.afterReadings_eq, hplace]
    exact tokenize_behind _ _
  · have hscanner (k : Nat) : ((Source.ofString s).afterReadings k).scanner s.toList =
        ⟨s.toList, (Source.ofString s).offset k,
          placeBehind (s.toList.take ((Source.ofString s).offset k))⟩ := by
      rw [← hplace]
      have := congrArg Source.location ((Source.ofString s).afterReadings_eq k)
      exact congrArg (Scanner.mk s.toList _) this
    rw [← hscanner, ← hscanner]
    exact Scan.run_answer (Source.ofString s) k
  · obtain ⟨i, hle, hi, hchar, hlocation, -⟩ := Source.Reports.exists_offset h
    exact ⟨i, hle, hi, hchar, hlocation.trans (hplace _)⟩
  · exact hend fun c location hreports => absurd (h.symm.trans hreports) (by simp)
  · exact hend fun c place hreports => absurd (h.symm.trans hreports) (by simp)
  · have hnil : ((Source.ofString s).afterReadings k).text = [] := by
      rw [Source.afterReadings_eq, h]
      exact List.drop_length
    rw [← hplace]
    exact Source.answer_of_nil hnil more
  · exact Source.Reports.unique h hagain
  · obtain ⟨n, hn, hreports, hlast, hconstant⟩ := (Source.ofString s).exists_last
    refine ⟨n, hn, hreports, hlast, fun k hk => ?_⟩
    rw [← hplace]
    exact hconstant k hk

/-- The first reading gives up behind the stray character, the second reads on and tells the true
places, and the third finds the end. -/
example : (Source.ofString "a @\nb").answer 0 = .error ⟨.unexpectedCharacter '@', ⟨1, 3⟩⟩ ∧
    (Source.ofString "a @\nb").answer 1 =
      .ok [⟨.identifier, "b", none, ⟨2, 1⟩⟩, .endOfInput ⟨2, 2⟩] ∧
    (Source.ofString "a @\nb").answer 2 = .ok [.endOfInput ⟨2, 2⟩] := by
  decide +kernel

end ScriptSyntax
