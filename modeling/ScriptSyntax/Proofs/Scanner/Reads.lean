import ScriptSyntax.Proofs.Lexical.Failure
import ScriptSyntax.Proofs.Scanner.Steps
/-! # A scanner reads what a source reads

A scanner that moves along a text ends with the same tokens, errors and places as the source that is
left of the text. It never finds itself at the end where it looks for a token, and never doubts a
number.
-/

namespace ScriptSyntax

variable {α β : Type} {whole text rest gap body : List Char} {location : Location}
  {readNumber : List Char → Option Binary64} {c : Char}

/-- The scanner that has read all of a text but a source. -/
def Source.scanner (s : Source) (whole : List Char) : Scanner :=
  ⟨whole, whole.length - s.text.length, s.location⟩

/-- What becomes of what stops a source. -/
def ScanCause.ofLexical : LexicalCause → ScanCause
  | .unexpectedCharacter c => .unexpectedCharacter c
  | .unterminatedString => .unterminatedString

/-- A token with what is read of a number as its value. -/
def Token.withNumber (readNumber : List Char → Option Binary64) (t : Token) : Token :=
  if t.kind = .number then { t with literal := (readNumber t.lexeme.toList).map .number } else t

theorem Lexeme.withNumber_plain {l : Lexeme} (h : l.kind.Spelled l.text)
    (htext : l.text = c :: rest) (hquote : c ≠ '"') (hdigit : ¬IsDigit c) (location : Location) :
    (l.toToken location).withNumber readNumber =
      ⟨l.kind, String.ofList l.text, none, location⟩ := by
  obtain ⟨kind, text⟩ := l
  cases h with
  | mark h => cases kind <;> cases h <;> rfl
  | keyword h => cases kind <;> cases h <;> rfl
  | identifier => rfl
  | number h => exact absurd (htext ▸ h).first hdigit
  | string h => exact absurd (htext ▸ h).first hquote

namespace Scan

/-! ## Ends -/

variable {scanner scanner' : Scanner}

@[simp] theorem run_pure (a : α) (scanner : Scanner) :
    (pure a : Scan α).run scanner = some (.ok a, scanner) := rfl

@[simp] theorem run_throw (e : ScanError) (scanner : Scanner) :
    (throw e : Scan α).run scanner = some (.error e, scanner) := rfl

theorem run_bind_of_ok {scan : Scan α} {f : α → Scan β} {a : α}
    (h : scan.run scanner = some (.ok a, scanner')) :
    (scan >>= f).run scanner = (f a).run scanner' := by
  unfold run at *
  show (scan scanner >>= _) = _
  rw [h]
  rfl

theorem run_bind_of_error {scan : Scan α} {f : α → Scan β} {e : ScanError}
    (h : scan.run scanner = some (.error e, scanner')) :
    (scan >>= f).run scanner = some (.error e, scanner') := by
  unfold run at *
  show (scan scanner >>= _) = _
  rw [h]
  rfl

theorem run_behind_of_ok {loop : Loop α} {round : Scan α} {a : α}
    (h : round.run scanner = some (.ok a, scanner')) :
    (loop.behind round).run scanner = (loop a).run scanner' :=
  run_bind_of_ok h

theorem run_get (f : Scanner → Scan α) (scanner : Scanner) :
    (get >>= f).run scanner = (f scanner).run scanner := rfl

/-! ## Characters -/

theorem getElem?_offset (h : text <:+ whole) (n : Nat) :
    whole[whole.length - text.length + n]? = text[n]? := by
  obtain ⟨front, rfl⟩ := h
  rw [List.getElem?_append_right (by simp)]
  congr 1
  rw [List.length_append]
  omega

theorem run_peekAhead (h : text <:+ whole) (n : Nat) (location : Location) :
    (peekAhead n).run (Source.scanner ⟨location, text⟩ whole) =
      some (.ok text[n]?, Source.scanner ⟨location, text⟩ whole) := by
  rw [← getElem?_offset h]
  rfl

theorem run_peek (h : text <:+ whole) (location : Location) :
    peek.run (Source.scanner ⟨location, text⟩ whole) =
      some (.ok text.head?, Source.scanner ⟨location, text⟩ whole) := by
  rw [List.head?_eq_getElem?]
  exact run_peekAhead h 0 location

theorem run_advance (h : c :: text <:+ whole) (location : Location) :
    advance.run (Source.scanner ⟨location, c :: text⟩ whole) =
      some (.ok (some c), Source.scanner ⟨location.advance c, text⟩ whole) := by
  have hc := getElem?_offset h 0
  have hle := h.length_le
  rw [advance, run_get]
  dsimp only [Source.scanner] at hc ⊢
  rw [Nat.add_zero] at hc
  rw [hc]
  have hoffset : whole.length - (c :: text).length + 1 = whole.length - text.length := by
    rw [List.length_cons] at *
    omega
  rw [← hoffset]
  rfl

theorem run_advance_nil (location : Location) :
    advance.run (Source.scanner ⟨location, []⟩ whole) =
      some (.ok none, Source.scanner ⟨location, []⟩ whole) := by
  have hc := getElem?_offset (show [] <:+ whole from List.nil_suffix) 0
  rw [advance, run_get]
  dsimp only [Source.scanner] at hc ⊢
  rw [Nat.add_zero] at hc
  rw [hc]
  rfl

theorem run_behind_advance (h : c :: text <:+ whole) (scan : Scan α) (location : Location) :
    (scan.behind advance).run (Source.scanner ⟨location, c :: text⟩ whole) =
      scan.run (Source.scanner ⟨location.advance c, text⟩ whole) :=
  run_bind_of_ok (run_advance h location)

theorem run_atEnd (h : text <:+ whole) (location : Location) :
    atEnd.run (Source.scanner ⟨location, text⟩ whole) =
      some (.ok text.isEmpty, Source.scanner ⟨location, text⟩ whole) := by
  have hle := h.length_le
  have hend : decide (whole.length ≤ whole.length - text.length) = text.isEmpty := by
    cases text with
    | nil => simp
    | cons c text =>
      rw [List.length_cons] at *
      simp
      omega
  rw [← hend]
  rfl

theorem run_lexemeFrom {lexeme : List Char} (hcut : lexeme ++ rest = text) (h : text <:+ whole)
    (location : Location) :
    (lexemeFrom (whole.length - text.length)).run (Source.scanner ⟨location, rest⟩ whole) =
      some (.ok lexeme, Source.scanner ⟨location, rest⟩ whole) := by
  subst hcut
  have hle := h.length_le
  rw [List.length_append] at *
  obtain ⟨front, rfl⟩ := h
  have hslice : ((front ++ (lexeme ++ rest)).drop front.length).take lexeme.length =
      lexeme := by
    rw [List.drop_left, List.take_left]
  have hstart : (front ++ (lexeme ++ rest)).length - (lexeme.length + rest.length) = front.length := by
    rw [List.length_append, List.length_append, Nat.add_sub_cancel]
  have hend : (front ++ (lexeme ++ rest)).length - rest.length - front.length = lexeme.length := by
    simp only [List.length_append]
    omega
  rw [lexemeFrom, run_get, hstart]
  show (if front.length ≤ (front ++ (lexeme ++ rest)).length - rest.length ∧
      (front ++ (lexeme ++ rest)).length - rest.length ≤ (front ++ (lexeme ++ rest)).length then
    (pure (((front ++ (lexeme ++ rest)).drop front.length).take
      ((front ++ (lexeme ++ rest)).length - rest.length - front.length)) : Scan (List Char))
    else lost).run _ = _
  rw [if_pos (by simp only [List.length_append]; omega), hend, hslice]
  rfl

theorem drop_of_cut {lexeme : List Char} (hcut : lexeme ++ rest = text) :
    text.drop lexeme.length = rest := by
  rw [← hcut, List.drop_left]

theorem run_skipWhile {p : Char → Bool} (h : text <:+ whole) (location : Location) :
    (skipWhile p).run (Source.scanner ⟨location, text⟩ whole) =
      some (.ok (), Source.scanner ⟨location.after (text.takeWhile p), text.dropWhile p⟩ whole) := by
  induction text generalizing location with
  | nil =>
    rw [skipWhile, run_bind_of_ok (run_peek h location)]
    rfl
  | cons c text ih =>
    rw [skipWhile, run_bind_of_ok (run_peek h location)]
    rcases hc : p c
    · simp [hc]
    · simp only [List.head?_cons, Option.any_some, hc, if_true, List.takeWhile_cons,
        List.dropWhile_cons, Location.after_cons]
      rw [run_behind_advance h]
      exact ih ((List.suffix_cons c text).trans h) _

/-! ## Gaps -/

theorem run_skipLine_behind (h : c :: text <:+ whole) (scan : Scan α) (location : Location) :
    (scan.behind skipLine).run (Source.scanner ⟨location, c :: text⟩ whole) =
      (if c != '\n' then scan.behind skipLine else scan).run
        (Source.scanner ⟨location.advance c, text⟩ whole) := by
  unfold behind
  conv => lhs; rw [skipLine]
  rw [bind_assoc, run_bind_of_ok (run_peek h location)]
  dsimp only [List.head?_cons]
  by_cases hc : c = '\n'
  · rw [if_pos hc, bind_assoc, run_bind_of_ok (run_advance h location)]
    simp [hc]
  · rw [if_neg hc, bind_assoc, run_bind_of_ok (run_advance h location)]
    simp [hc]

theorem run_skipGap_go (inComment : Bool) (h : text <:+ whole) (location : Location) :
    (if inComment then skipGap.behind skipLine else skipGap).run
        (Source.scanner ⟨location, text⟩ whole) =
      some (.ok (), (Source.skipGap.go inComment location text).scanner whole) := by
  fun_induction Source.skipGap.go inComment location text with
  | case1 inComment location =>
    have hgap : skipGap.run (Source.scanner ⟨location, []⟩ whole) =
        some (.ok (), Source.scanner ⟨location, []⟩ whole) := by
      rw [skipGap, run_bind_of_ok (run_peek h location)]
      rfl
    cases inComment
    · exact hgap
    · have hline : skipLine.run (Source.scanner ⟨location, []⟩ whole) =
          some (.ok (), Source.scanner ⟨location, []⟩ whole) := by
        rw [skipLine, run_bind_of_ok (run_peek h location)]
        rfl
      rw [if_pos rfl, run_bind_of_ok hline]
      exact hgap
  | case2 location c rest ih =>
    rw [if_pos rfl, run_skipLine_behind h]
    exact ih ((List.suffix_cons c rest).trans h)
  | case3 inComment location c rest hcomment hblank ih =>
    rw [if_neg hcomment, skipGap, run_bind_of_ok (run_peek h location)]
    dsimp only [List.head?_cons]
    rw [if_pos hblank, run_behind_advance h]
    exact ih ((List.suffix_cons c rest).trans h)
  | case4 inComment location c rest hcomment hblank hslashes ih =>
    have hslash : c ≠ '\n' := by
      rintro rfl
      simp at hslashes
    rw [if_neg hcomment, skipGap, run_bind_of_ok (run_peek h location)]
    dsimp only [List.head?_cons]
    rw [if_neg hblank, run_bind_of_ok (run_peekAhead h 1 location)]
    have hnext : (c :: rest)[1]? = rest.head? := by cases rest <;> rfl
    rw [hnext, if_pos (by simpa using hslashes), run_skipLine_behind h]
    simpa [hslash] using ih ((List.suffix_cons c rest).trans h)
  | case5 inComment location c rest hcomment hblank hslashes =>
    rw [if_neg hcomment, skipGap, run_bind_of_ok (run_peek h location)]
    dsimp only [List.head?_cons]
    rw [if_neg hblank, run_bind_of_ok (run_peekAhead h 1 location)]
    have hnext : (c :: rest)[1]? = rest.head? := by cases rest <;> rfl
    rw [hnext, if_neg (by simpa using hslashes), run_pure]

theorem run_skipGap {s : Source} (h : s.text <:+ whole) :
    skipGap.run (s.scanner whole) = some (.ok (), s.skipGap.scanner whole) :=
  run_skipGap_go false h s.location

/-! ## Lexemes -/

theorem run_stringContents {contents : List Char} (hcontents : '"' ∉ contents)
    (h : contents ++ '"' :: rest <:+ whole) (start location : Location) (earlier : List Char) :
    (stringContents start earlier).run (Source.scanner ⟨location, contents ++ '"' :: rest⟩ whole) =
      some (.ok (earlier ++ contents),
        Source.scanner ⟨location.after (contents ++ ['"']), rest⟩ whole) := by
  induction contents generalizing location earlier with
  | nil =>
    rw [stringContents, List.nil_append, run_bind_of_ok (run_advance h location),
      List.append_nil]
    rfl
  | cons c contents ih =>
    have hc : c ≠ '"' := (List.ne_of_not_mem_cons hcontents).symm
    rw [List.cons_append] at h ⊢
    rw [stringContents, run_bind_of_ok (run_advance h location)]
    dsimp only
    rw [if_neg hc, run_behind_of_ok (run_pure _ _), ih (List.not_mem_of_not_mem_cons hcontents)
      ((List.suffix_cons c _).trans h), List.append_assoc]
    rfl

theorem run_stringContents_unterminated (hrest : '"' ∉ text) (h : text <:+ whole)
    (start location : Location) (earlier : List Char) :
    (stringContents start earlier).run (Source.scanner ⟨location, text⟩ whole) =
      some (.error ⟨.unterminatedString, start⟩,
        Source.scanner ⟨location.after text, []⟩ whole) := by
  induction text generalizing location earlier with
  | nil =>
    rw [stringContents, run_bind_of_ok (run_advance_nil location)]
    rfl
  | cons c text ih =>
    have hc : c ≠ '"' := (List.ne_of_not_mem_cons hrest).symm
    rw [stringContents, run_bind_of_ok (run_advance h location)]
    dsimp only
    rw [if_neg hc, run_behind_of_ok (run_pure _ _),
      ih (List.not_mem_of_not_mem_cons hrest) ((List.suffix_cons c text).trans h)]
    rfl

/-- A point and the digits behind it, if there is one. -/
def frontPlaces (text : List Char) : List Char :=
  if text.head? = some '.' && text[1]?.any Char.isDigit then
    '.' :: text.tail.takeWhile Char.isDigit
  else []

theorem frontNumber_eq (text : List Char) : Lexeme.frontNumber text =
    text.takeWhile Char.isDigit ++ frontPlaces (text.dropWhile Char.isDigit) := by
  unfold Lexeme.frontNumber frontPlaces
  dsimp only
  split
  · rename_i d tail hdrop
    rw [hdrop]
    by_cases hd : d.isDigit <;> simp [hd]
  · rename_i hdrop
    rw [if_neg, List.append_nil]
    intro hplaces
    rw [Bool.and_eq_true, decide_eq_true_eq] at hplaces
    obtain ⟨_ | ⟨d, tail⟩, htext⟩ := List.head?_eq_some_iff.1 hplaces.1
    · rw [htext] at hplaces
      simp at hplaces
    · exact hdrop d tail htext

theorem frontPlaces_append (text : List Char) :
    frontPlaces text ++ text.drop (frontPlaces text).length = text := by
  refine List.prefix_iff_eq_append.1 ?_
  unfold frontPlaces
  split
  · rename_i hplaces
    rw [Bool.and_eq_true, decide_eq_true_eq] at hplaces
    obtain ⟨tail, rfl⟩ := List.head?_eq_some_iff.1 hplaces.1
    exact List.cons_prefix_cons.2 ⟨rfl, List.takeWhile_prefix _⟩
  · exact List.nil_prefix

theorem run_skipPlaces (h : text <:+ whole) (location : Location) :
    skipPlaces.run (Source.scanner ⟨location, text⟩ whole) = some (.ok (),
      Source.scanner ⟨location.after (frontPlaces text), text.drop (frontPlaces text).length⟩
        whole) := by
  rw [skipPlaces, run_bind_of_ok (run_peek h location), run_bind_of_ok (run_peekAhead h 1 location),
    frontPlaces]
  by_cases hplaces : (text.head? = some '.' && text[1]?.any Char.isDigit) = true
  · rw [if_pos hplaces, if_pos hplaces]
    rw [Bool.and_eq_true, decide_eq_true_eq] at hplaces
    obtain ⟨tail, rfl⟩ := List.head?_eq_some_iff.1 hplaces.1
    rw [run_behind_advance h, run_skipWhile ((List.suffix_cons _ tail).trans h),
      List.length_cons, List.drop_succ_cons, List.tail_cons,
      drop_of_cut List.takeWhile_append_dropWhile]
    rfl
  · rw [if_neg hplaces, if_neg hplaces]
    rfl

theorem run_either (next : Char) (matched single : TokenKind) (h : text <:+ whole)
    (location : Location) :
    (either next matched single).run (Source.scanner ⟨location, text⟩ whole) =
      if text.head? = some next then
        some (.ok matched, Source.scanner ⟨location.advance next, text.tail⟩ whole)
      else some (.ok single, Source.scanner ⟨location, text⟩ whole) := by
  rw [either, run_bind_of_ok (run_peek h location)]
  by_cases hnext : text.head? = some next
  · obtain ⟨tail, rfl⟩ := List.head?_eq_some_iff.1 hnext
    rw [if_pos hnext, if_pos hnext, run_behind_advance h]
    rfl
  · rw [if_neg hnext, if_neg hnext]
    rfl

theorem run_markKind (c : Char) (start : Location) (h : text <:+ whole) (location : Location) :
    (markKind c start).run (Source.scanner ⟨location, text⟩ whole) =
      match Lexeme.frontSymbol? (c :: text) with
      | some (s, kind) => some (.ok kind,
          Source.scanner ⟨location.after s.tail, text.drop (s.length - 1)⟩ whole)
      | none => some (.error ⟨.unexpectedCharacter c, start⟩,
          Source.scanner ⟨location, text⟩ whole) := by
  unfold markKind
  split
  case h_12 | h_13 | h_14 | h_15 =>
    rw [run_either _ _ _ h]
    rcases text with _ | ⟨d, text⟩
    · rfl
    · by_cases hd : d = '='
      · subst hd
        rfl
      · simp [Lexeme.frontSymbol?, TokenKind.symbols, hd, Ne.symm hd]
  case h_16 =>
    rename_i hparen hclose hbrace hend hcomma hdot hsemicolon hminus hplus hslash hstar hbang hequal
      hgreater hless
    have hnone : Lexeme.frontSymbol? (c :: text) = none := by
      simp [Lexeme.frontSymbol?, TokenKind.symbols, Ne.symm hparen, Ne.symm hclose, Ne.symm hbrace,
        Ne.symm hend, Ne.symm hcomma, Ne.symm hdot, Ne.symm hsemicolon, Ne.symm hminus,
        Ne.symm hplus, Ne.symm hslash, Ne.symm hstar, Ne.symm hbang, Ne.symm hequal,
        Ne.symm hgreater, Ne.symm hless]
    rw [hnone]
    rfl
  all_goals rfl

/-! ## Tokens -/

theorem run_string (h : '"' :: text <:+ whole) (location : Location) :
    (string (whole.length - ('"' :: text).length) location).run
        (Source.scanner ⟨location.advance '"', text⟩ whole) =
      match Lexeme.frontString? text with
      | none => some (.error ⟨.unterminatedString, location⟩,
          Source.scanner ⟨location.after ('"' :: text), []⟩ whole)
      | some s => some (.ok (Lexeme.toToken ⟨.string, s⟩ location),
          Source.scanner ⟨location.after s, ('"' :: text).drop s.length⟩ whole) := by
  have htext := (List.suffix_cons '"' text).trans h
  by_cases hmem : '"' ∈ text
  · obtain ⟨contents, rest, rfl, hcontents⟩ := List.eq_append_cons_of_mem hmem
    have hcut : ('"' :: contents ++ ['"']) ++ rest = '"' :: (contents ++ '"' :: rest) := by simp
    rw [Lexeme.frontString?_eq hcontents, string,
      run_bind_of_ok (run_stringContents hcontents htext _ _ _),
      run_bind_of_ok (run_lexemeFrom hcut h _)]
    dsimp only
    rw [drop_of_cut hcut]
    simp [Lexeme.toToken, Lexeme.literal]
  · rw [Lexeme.frontString?_eq_none hmem, string,
      run_bind_of_error (run_stringContents_unterminated hmem htext _ _ _)]
    rfl

theorem run_word (hc : Lexeme.continuesWord c = true) (h : c :: text <:+ whole)
    (location : Location) :
    (word (whole.length - (c :: text).length) location).run
        (Source.scanner ⟨location.advance c, text⟩ whole) =
      let lexeme := Lexeme.frontWord (c :: text)
      some (.ok ⟨.ofWord lexeme, String.ofList lexeme, none, location⟩,
        Source.scanner ⟨location.after lexeme, (c :: text).drop lexeme.length⟩ whole) := by
  have hword : Lexeme.frontWord (c :: text) = c :: text.takeWhile Lexeme.continuesWord :=
    List.takeWhile_cons_of_pos hc
  have hcut : c :: text.takeWhile Lexeme.continuesWord ++ text.dropWhile Lexeme.continuesWord =
      c :: text := by rw [List.cons_append, List.takeWhile_append_dropWhile]
  rw [word, run_bind_of_ok (run_skipWhile ((List.suffix_cons c text).trans h) _),
    run_bind_of_ok (run_lexemeFrom hcut h _)]
  dsimp only
  rw [hword, drop_of_cut hcut]
  rfl

theorem run_number (hc : IsDigit c) (h : c :: text <:+ whole) (location : Location) :
    (number readNumber (whole.length - (c :: text).length) location).run
        (Source.scanner ⟨location.advance c, text⟩ whole) =
      let lexeme := Lexeme.frontNumber (c :: text)
      match readNumber lexeme with
      | none => some (.error ⟨.invalidNumber lexeme, location⟩,
          Source.scanner ⟨location.after lexeme, (c :: text).drop lexeme.length⟩ whole)
      | some value =>
        some (.ok ⟨.number, String.ofList lexeme, some (.number value), location⟩,
          Source.scanner ⟨location.after lexeme, (c :: text).drop lexeme.length⟩ whole) := by
  have hnumber : Lexeme.frontNumber (c :: text) =
      c :: (text.takeWhile Char.isDigit ++ frontPlaces (text.dropWhile Char.isDigit)) := by
    rw [frontNumber_eq, List.takeWhile_cons_of_pos (isDigit_iff.2 hc),
      List.dropWhile_cons_of_pos (isDigit_iff.2 hc), List.cons_append]
  have hrest := (List.suffix_cons c text).trans h
  have hcut : Lexeme.frontNumber (c :: text) ++ (text.dropWhile Char.isDigit).drop
      (frontPlaces (text.dropWhile Char.isDigit)).length = c :: text := by
    rw [hnumber, List.cons_append, List.append_assoc, frontPlaces_append,
      List.takeWhile_append_dropWhile]
  have hplace : ((location.advance c).after (text.takeWhile Char.isDigit)).after
      (frontPlaces (text.dropWhile Char.isDigit)) =
        location.after (Lexeme.frontNumber (c :: text)) := by
    rw [hnumber, Location.after_cons, Location.after_append]
  rw [number, run_bind_of_ok (run_skipWhile hrest _),
    run_bind_of_ok (run_skipPlaces ((List.dropWhile_suffix _).trans hrest) _),
    run_bind_of_ok (run_lexemeFrom hcut h _), hplace]
  dsimp only
  rw [drop_of_cut hcut]
  rcases readNumber (Lexeme.frontNumber (c :: text)) with _ | value <;> rfl

theorem run_mark (h : c :: text <:+ whole) (location : Location) :
    (mark c (whole.length - (c :: text).length) location).run
        (Source.scanner ⟨location.advance c, text⟩ whole) =
      match Lexeme.frontSymbol? (c :: text) with
      | none => some (.error ⟨.unexpectedCharacter c, location⟩,
          Source.scanner ⟨location.advance c, text⟩ whole)
      | some (s, kind) => some (.ok ⟨kind, String.ofList s, none, location⟩,
          Source.scanner ⟨location.after s, (c :: text).drop s.length⟩ whole) := by
  have hkind := run_markKind c location ((List.suffix_cons c text).trans h) (location.advance c)
  rcases hsymbol : Lexeme.frontSymbol? (c :: text) with _ | ⟨s, kind⟩
  · rw [hsymbol] at hkind
    rw [mark, run_bind_of_error hkind]
  · rw [hsymbol] at hkind
    obtain ⟨d, tail, hs⟩ :=
      List.exists_cons_of_ne_nil (TokenKind.Spelled.mark (Lexeme.frontSymbol?_mark hsymbol)).ne_nil
    obtain ⟨rest, hcut⟩ := Lexeme.frontSymbol?_prefix hsymbol
    dsimp only at hs hcut hkind
    subst hs
    obtain ⟨rfl, htail⟩ := List.cons.inj hcut
    rw [List.tail_cons, List.length_cons, Nat.add_sub_cancel, drop_of_cut htail] at hkind
    rw [mark, run_bind_of_ok hkind, run_bind_of_ok (run_lexemeFrom hcut h _)]
    dsimp only
    rw [drop_of_cut hcut]
    rfl

theorem run_nextToken (haccepts : ∀ text, IsNumber text → (readNumber text).isSome)
    (h : c :: text <:+ whole) (location : Location) :
    (nextToken readNumber).run (Source.scanner ⟨location, c :: text⟩ whole) =
      match Front.of c text with
      | .unexpected => some (.error ⟨.unexpectedCharacter c, location⟩,
          Source.scanner ⟨location.advance c, text⟩ whole)
      | .unterminated => some (.error ⟨.unterminatedString, location⟩,
          Source.scanner ⟨location.after (c :: text), []⟩ whole)
      | .lexeme l => some (.ok ((l.toToken location).withNumber readNumber),
          Source.scanner ⟨location.after l.text, (c :: text).drop l.text.length⟩ whole) := by
  have hstart : (Source.scanner ⟨location, c :: text⟩ whole).offset =
    whole.length - (c :: text).length := rfl
  have hplace : (Source.scanner ⟨location, c :: text⟩ whole).location = location := rfl
  rw [nextToken, run_get, run_bind_of_ok (run_advance h location)]
  dsimp only
  rw [hstart, hplace]
  unfold Front.of
  split
  · rename_i hquote
    subst hquote
    rw [run_string h]
    rcases Lexeme.frontString? text with _ | s <;> rfl
  rename_i hquote
  split
  · rename_i hdigit
    have hdigit := isDigit_iff.1 hdigit
    obtain ⟨value, hvalue⟩ :=
      Option.isSome_iff_exists.1 (haccepts _ (Lexeme.frontNumber_isNumber hdigit text))
    rw [run_number hdigit h]
    dsimp only
    rw [hvalue]
    simp [Token.withNumber, Lexeme.toToken, hvalue]
  rename_i hdigit
  have hdigit : ¬IsDigit c := fun hd => hdigit (isDigit_iff.2 hd)
  split
  · rename_i hword
    have hstarts := startsWord_iff.1 hword
    have hpart : Lexeme.continuesWord c = true := continuesWord_iff.2 (.inl hstarts)
    have hspelled := Lexeme.ofWord_spelled (Lexeme.frontWord_isWord hstarts text)
    rw [run_word hpart h]
    dsimp only
    rw [Lexeme.withNumber_plain hspelled (List.takeWhile_cons_of_pos hpart) hquote hdigit]
  · rw [run_mark h]
    rcases hsymbol : Lexeme.frontSymbol? (c :: text) with _ | ⟨s, kind⟩
    · rfl
    · have hspelled := TokenKind.Spelled.mark (Lexeme.frontSymbol?_mark hsymbol)
      obtain ⟨d, tail, hs⟩ := List.exists_cons_of_ne_nil hspelled.ne_nil
      have hd : d = c :=
        (List.cons_prefix_cons.1 (hs ▸ Lexeme.frontSymbol?_prefix hsymbol)).1
      subst hd
      dsimp only
      rw [Lexeme.withNumber_plain hspelled hs hquote hdigit]

/-! ## Texts -/

theorem run_moreTokens (haccepts : ∀ text, IsNumber text → (readNumber text).isSome) {s : Source}
    (h : s.text <:+ whole) (earlier : List Token) :
    (moreTokens readNumber earlier).run (s.scanner whole) =
      some (match s.tokenize.1 with
        | .ok tokens => .ok (earlier ++ tokens.map (·.withNumber readNumber))
        | .error e => .error ⟨.ofLexical e.cause, e.location⟩, s.tokenize.2.scanner whole) := by
  induction hlength : s.text.length using Nat.strongRecOn generalizing s earlier with
  | _ length ih =>
  subst hlength
  obtain ⟨gap, hgap, -⟩ := s.skipGap_eq
  have hrest : s.skipGap.text <:+ whole := .trans ⟨gap, hgap.symm⟩ h
  have hle := s.length_skipGap_le
  rw [moreTokens, run_bind_of_ok (run_skipGap h), Source.tokenize_eq]
  rcases hskip : s.skipGap with ⟨location, _ | ⟨c, text⟩⟩
  · rw [run_bind_of_ok (run_atEnd List.nil_suffix location)]
    rfl
  · rw [hskip] at hrest hle
    rw [run_bind_of_ok (run_atEnd hrest location)]
    have hnext := run_nextToken haccepts hrest location
    dsimp only
    rw [if_neg (by simp)]
    rcases hof : Front.of c text with l | _ | _
    · rw [hof] at hnext
      have hnonempty := List.length_pos_iff.2 (Front.ne_nil_of_eq_lexeme hof)
      have hless : ((c :: text).drop l.text.length).length < s.text.length := by
        rw [List.length_drop]
        dsimp only [List.length_cons] at hle ⊢
        omega
      rw [run_behind_of_ok (run_bind_of_ok hnext),
        ih _ hless ((List.drop_suffix _ _).trans hrest) _ rfl]
      dsimp only
      rcases (Source.tokenize _).1 with e | tokens <;> simp [Except.map]
    · rw [hof] at hnext
      rw [run_bind_of_error (run_bind_of_error hnext)]
      rfl
    · rw [hof] at hnext
      rw [run_bind_of_error (run_bind_of_error hnext)]
      rfl

end Scan

/-! ## The first failure -/

theorem ScanCause.message_ofLexical (cause : LexicalCause) :
    (ofLexical cause).message = cause.message := by
  cases cause <;> rfl

theorem LexicalCause.message_ne_endOfText (cause : LexicalCause) :
    cause.message ≠ "Unexpected end of file" := by
  have hend : "Unexpected end of file".length = 22 := by decide +kernel
  have hlength : cause.message.length ≠ 22 := by
    cases cause with
    | unexpectedCharacter c =>
      have hstart : "Unexpected character: ".length = 22 := by decide +kernel
      show ("Unexpected character: " ++ String.singleton c).length ≠ 22
      rw [String.length_append, hstart, String.length_singleton]
      exact Nat.succ_ne_self 22
    | unterminatedString => decide +kernel
  exact fun h => hlength (h ▸ hend)

theorem LexicalCause.message_ne_invalidNumber (cause : LexicalCause) (text : String) :
    cause.message ≠ "Invalid number literal: " ++ text := by
  have hinvalid : ("Invalid number literal: " ++ text).toList.head? = some 'I' := by
    have hstart : "Invalid number literal: ".toList.head? = some 'I' := by decide +kernel
    rw [String.toList_append, List.head?_append, hstart]
    rfl
  have hfirst : cause.message.toList.head? = some 'U' := by
    cases cause with
    | unexpectedCharacter c =>
      have hstart : "Unexpected character: ".toList.head? = some 'U' := by decide +kernel
      show ("Unexpected character: " ++ String.singleton c).toList.head? = some 'U'
      rw [String.toList_append, List.head?_append, hstart]
      rfl
    | unterminatedString => decide +kernel
  intro h
  rw [h, hinvalid] at hfirst
  exact absurd hfirst (by decide)

theorem Scan.run_tokenize (haccepts : ∀ text, IsNumber text → (readNumber text).isSome)
    (s : String) :
    ∃ last, (Scan.tokenize readNumber).run (.ofString s) =
      some (match ScriptSyntax.tokenize s with
        | .ok tokens => .ok (tokens.map (·.withNumber readNumber))
        | .error e => .error ⟨.ofLexical e.cause, e.location⟩, last) := by
  have hstart : Scanner.ofString s = (Source.ofString s).scanner s.toList := by
    simp [Scanner.ofString, Source.scanner, Source.ofString]
  refine ⟨(Source.ofString s).tokenize.2.scanner s.toList, ?_⟩
  rw [hstart]
  exact run_moreTokens haccepts List.suffix_rfl []

/-- Reading a text fails if, behind longest tokens and gaps in turn, a character stands that starts
neither a gap nor a token, or a quote with no other quote behind it, and only then. The message names
just that character, or an open string, and the place is that of the character or the quote. A scanner
stops for the same reason at the same place. As long as it reads all that is a number, it never
complains about the end of the text or about a number. -/
theorem tokenize_fails_iff (haccepts : ∀ text, IsNumber text → (readNumber text).isSome)
    (s : String) :
    (∀ e, tokenize s = .error e ↔ Fails s.toList e) ∧
      (∀ c, (LexicalCause.unexpectedCharacter c).message =
        "Unexpected character: " ++ String.ofList [c]) ∧
      LexicalCause.unterminatedString.message = "Unterminated string." ∧
      ∃ result last, (Scan.tokenize readNumber).run (.ofString s) = some (result, last) ∧
        (∀ found, result = .error found ↔
          ∃ e, Fails s.toList e ∧ found = ⟨.ofLexical e.cause, e.location⟩) ∧
        ∀ found, result = .error found →
          (∃ e, Fails s.toList e ∧ found.cause.message = e.cause.message) ∧
            found.cause.message ≠ "Unexpected end of file" ∧
            ∀ text, found.cause.message ≠ "Invalid number literal: " ++ text := by
  have hfails (e : LexicalError) : tokenize s = .error e ↔ Fails s.toList e := tokenize_eq_error_iff
  obtain ⟨last, hrun⟩ := Scan.run_tokenize haccepts s
  have hresult (found : ScanError) : (match tokenize s with
        | .ok tokens => .ok (tokens.map (·.withNumber readNumber))
        | .error e => .error ⟨.ofLexical e.cause, e.location⟩ : Except ScanError (List Token)) =
      .error found ↔ ∃ e, Fails s.toList e ∧ found = ⟨.ofLexical e.cause, e.location⟩ := by
    rcases htokenize : tokenize s with e | tokens
    · constructor
      · intro h
        exact ⟨e, (hfails e).1 htokenize, (Except.error.inj h).symm⟩
      · rintro ⟨other, hother, rfl⟩
        obtain rfl := Except.error.inj (htokenize.symm.trans ((hfails other).2 hother))
        rfl
    · constructor
      · intro h
        contradiction
      · rintro ⟨other, hother, -⟩
        rw [(hfails other).2 hother] at htokenize
        contradiction
  refine ⟨hfails, fun c => rfl, rfl, _, last, hrun, hresult, fun found hfound => ?_⟩
  obtain ⟨e, he, rfl⟩ := (hresult found).1 hfound
  rw [ScanCause.message_ofLexical]
  exact ⟨⟨e, he, rfl⟩, e.cause.message_ne_endOfText, e.cause.message_ne_invalidNumber⟩

/-- The number nearest to a text. -/
def readNearest (text : List Char) : Option Binary64 := some (Decimal.ofText text).nearest

/-- A number, a comment with a character in it that starts no token, and an open string. -/
def openRemark : String := "1.5 // \"@\n.\"@"

theorem tokenize_fails_iff_of_openRemark :
    Fails openRemark.toList ⟨.unterminatedString, ⟨2, 2⟩⟩ ∧
      (∀ text, IsNumber text → (readNearest text).isSome) ∧
      ∃ last, (Scan.tokenize readNearest).run (.ofString openRemark) =
        some (.error ⟨.unterminatedString, ⟨2, 2⟩⟩, last) := by
  have hreads : ∀ text, IsNumber text → (readNearest text).isSome := fun _ _ => rfl
  obtain ⟨hfails, -, -, result, last, hrun, hresult, -⟩ := tokenize_fails_iff hreads openRemark
  have herror : tokenize openRemark = .error ⟨.unterminatedString, ⟨2, 2⟩⟩ := by decide +kernel
  have hopen := (hfails _).1 herror
  rw [(hresult _).2 ⟨_, hopen, rfl⟩] at hrun
  exact ⟨hopen, hreads, last, hrun⟩

end ScriptSyntax
