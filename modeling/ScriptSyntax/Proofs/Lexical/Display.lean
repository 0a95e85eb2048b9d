import ScriptSyntax.Proofs.Lexical.Layout
import ScriptSyntax.Proofs.Lexical.Literals
/-! # The text that shows a number is read as the number

A finite number without a sign is shown by a decimal fraction, and the nearest number to that is the
number itself. So no two numbers are shown by one text.
-/

namespace ScriptSyntax

/-! ## Decimal fractions as texts -/

namespace Decimal

variable {d : Decimal}

theorem readDigits_toDigits (n : Nat) : readDigits 0 (Nat.toDigits 10 n) = n := by
  rw [readDigits, ← Nat.ofDigitChars_eq_foldl]
  exact Nat.ofDigitChars_ten_toDigits

theorem readDigits_leftpad (places n : Nat) :
    readDigits 0 ((Nat.toDigits 10 n).leftpad places '0') = n := by
  rw [readDigits, ← Nat.ofDigitChars_eq_foldl, List.leftpad, Nat.ofDigitChars_append,
    Nat.ofDigitChars_replicate_zero, Nat.mul_zero]
  exact Nat.ofDigitChars_ten_toDigits

theorem ofText_text (h : 0 < d.places) : ofText d.text = d := by
  obtain ⟨digits, places⟩ := d
  have hpow : 0 < 10 ^ places := Nat.pow_pos (by decide)
  have hlength : ((Nat.toDigits 10 (digits % 10 ^ places)).leftpad places '0').length = places := by
    have hle := (Nat.length_toDigits_le_iff (by decide) h).2 (Nat.mod_lt digits hpow)
    rw [List.length_leftpad, Nat.max_eq_left hle]
  unfold text
  simp only [Nat.pow_eq]
  rw [ofText_fraction (isDigits_toDigits _), hlength]
  have hdigitsValue (text : List Char) : digitsValue text = readDigits 0 text := by
    simp [readDigits_eq]
  rw [hdigitsValue, hdigitsValue, readDigits_toDigits, readDigits_leftpad, Nat.div_add_mod']

end Decimal

/-! ## Numbers that decimal fractions stand for -/

namespace Binary64

variable {x y : Binary64}

theorem toNat_bits (h : x.isNegative = false) : x.bits.toNat = x.magnitude := by
  have hlt : x.bits.toNat < Nat.pow 2 63 := by simpa [isNegative] using h
  exact (Nat.mod_eq_of_lt hlt).symm

theorem eq_of_magnitude_eq (hx : x.isNegative = false) (hy : y.isNegative = false)
    (h : x.magnitude = y.magnitude) : x = y := by
  rw [← toNat_bits hx, ← toNat_bits hy] at h
  obtain ⟨x⟩ := x
  obtain ⟨y⟩ := y
  exact congrArg Binary64.mk (UInt64.toNat_inj.1 h)

theorem abs_eq_self (h : x.isNegative = false) : x.abs = x := by
  rw [abs, ofMagnitude, ← toNat_bits h, UInt64.ofNat_toNat]

theorem IsNearest.eq_of_value {q : ℚ} (h : x.IsNearest q) (hnumber : y.isNaN = false)
    (hsign : y.isNegative = false) (hvalue : y.value = q) : x = y := by
  have hclosest := h.closest y hnumber
  rw [hvalue, sub_self, abs_zero] at hclosest
  have hsame : x.value = y.value :=
    (sub_eq_zero.1 (abs_eq_zero.1 (hclosest.antisymm (abs_nonneg _)))).trans hvalue.symm
  rw [value_of_not_negative h.isNegative_eq, value_of_not_negative hsign,
    div_left_inj' unitsPerOne_pos.ne', Nat.cast_inj] at hsame
  exact eq_of_magnitude_eq h.isNegative_eq hsign (unitsOfMagnitude_strictMono.injective hsame)

theorem isNaN_of_isFinite (h : x.isFinite = true) : x.isNaN = false :=
  isNaN_eq_false_iff.2 (of_decide_eq_true h).le

theorem nearest_of_value {d : Decimal} (hfinite : x.isFinite = true) (hsign : x.isNegative = false)
    (h : x.value = d.digits / 10 ^ d.places) : d.nearest = x :=
  d.nearest_isNearest.eq_of_value (isNaN_of_isFinite hfinite) hsign h

/-! ## What shows a number -/

theorem value_of_isIntegral (hsign : x.isNegative = false) (h : x.isIntegral = true) :
    x.value = (x.units / unitsPerOne : Nat) := by
  obtain ⟨ones, hones⟩ := Nat.dvd_of_mod_eq_zero (of_decide_eq_true h)
  have hpos := unitsPerOne_pos
  have hunits : (unitsOfMagnitude x.magnitude : ℚ) = unitsPerOne * ones := by
    exact_mod_cast hones
  rw [value_of_not_negative hsign, hunits, hones, mul_div_cancel_left₀ _ hpos.ne',
    Nat.mul_div_cancel_left _ (Nat.cast_pos.1 hpos)]

theorem value_exactDecimal (hsign : x.isNegative = false) :
    x.value = x.exactDecimal.digits / 10 ^ x.exactDecimal.places := by
  rw [value_of_not_negative hsign]
  unfold exactDecimal unitsPerOne
  dsimp only
  change (x.units : ℚ) / _ = _
  generalize 1074 = k
  simp only [Nat.pow_eq]
  push_cast
  rw [show (10 : ℚ) = 2 * 5 by norm_num, mul_pow]
  have hfive : (5 ^ k : ℚ) ≠ 0 := by positivity
  rw [mul_div_mul_right _ _ hfive]

theorem decimalAt?_readsBack {places : Nat} {d : Decimal} (h : x.decimalAt? places = some d) :
    d.places = places ∧ d.nearest = x.abs := by
  have hmem := List.mem_of_find?_eq_some h
  obtain ⟨digits, -, rfl⟩ := List.mem_map.1 hmem
  have hnearest := List.find?_some h
  exact ⟨rfl, of_decide_eq_true hnearest⟩

theorem shortestDecimal_readsBack (hfinite : x.isFinite = true) (hsign : x.isNegative = false) :
    0 < x.shortestDecimal.places ∧ x.shortestDecimal.nearest = x := by
  unfold shortestDecimal
  rcases hfound : (List.range' 1 1074).findSome? x.decimalAt? with _ | d
  · exact ⟨Nat.succ_pos 1073, nearest_of_value hfinite hsign (value_exactDecimal hsign)⟩
  · obtain ⟨places, hplaces, hd⟩ := List.exists_of_findSome?_eq_some hfound
    obtain ⟨rfl, hnearest⟩ := decimalAt?_readsBack hd
    rw [abs_eq_self hsign] at hnearest
    exact ⟨(List.mem_range'_1.1 hplaces).1, hnearest⟩

/-- The decimal fraction that shows a number is read as that number. -/
theorem toDecimal_readsBack (hfinite : x.isFinite = true) (hsign : x.isNegative = false) :
    0 < x.toDecimal.places ∧ x.toDecimal.nearest = x := by
  unfold toDecimal
  split
  · rename_i hintegral
    refine ⟨Nat.one_pos, nearest_of_value hfinite hsign ?_⟩
    rw [value_of_isIntegral hsign hintegral]
    dsimp only
    push_cast
    ring
  · exact shortestDecimal_readsBack hfinite hsign

theorem text_eq_toDecimal (hfinite : x.isFinite = true) (hsign : x.isNegative = false) :
    x.text = x.toDecimal.text := by
  simp [text, isNaN_of_isFinite hfinite, hfinite, hsign]

theorem ofText_text (hfinite : x.isFinite = true) (hsign : x.isNegative = false) :
    (Decimal.ofText x.text).nearest = x := by
  obtain ⟨hplaces, hnearest⟩ := toDecimal_readsBack hfinite hsign
  rw [text_eq_toDecimal hfinite hsign, Decimal.ofText_text hplaces, hnearest]

end Binary64

/-! ## A number that is shown is read -/

theorem tokenize_of_spelled {l : Lexeme} (h : l.kind.Spelled l.text) :
    tokenize (String.ofList l.text) =
      .ok [l.toToken .start, .endOfInput (placeBehind l.text)] := by
  have hempty : StartsBlank [] := by simp [StartsBlank]
  have hscans : Scans ⟨.start, [] ++ (l.text ++ [])⟩ _ _ :=
    .more (Lexeme.isWholeGap_of_startsBlank h hempty .none)
      (Lexeme.isLongest_of_startsBlank h hempty) (.none _)
  have htokens := hscans.tokenize_eq (.closed .none)
  rw [List.nil_append, List.append_nil] at htokens
  rw [tokenize, Source.ofString, String.toList_ofList, ← after_start_eq]
  exact htokens

theorem tokenize_display {x : Binary64} (hfinite : x.isFinite = true)
    (hsign : x.isNegative = false) :
    let text := (Literal.number x).display
    (∃ whole places, text.toList = whole ++ '.' :: places ∧ IsDigits whole ∧ IsDigits places) ∧
      tokenize text = .ok [⟨.number, text, some (.number x), .start⟩,
        .endOfInput (placeBehind text.toList)] := by
  obtain ⟨whole, places, htext, hwhole, hplaces⟩ := x.toDecimal.exists_text
  rw [← Binary64.text_eq_toDecimal hfinite hsign] at htext
  have hspelled : TokenKind.number.Spelled x.text := .number (.inr ⟨_, _, htext, hwhole, hplaces⟩)
  have htokens := tokenize_of_spelled (l := ⟨.number, x.text⟩) hspelled
  have htoken : (Lexeme.mk .number x.text).toToken .start =
      ⟨.number, String.ofList x.text, some (.number x), .start⟩ := by
    simp [Lexeme.toToken, Lexeme.literal, Binary64.ofText_text hfinite hsign]
  rw [htoken] at htokens
  intro text
  have hlist : text.toList = x.text := String.toList_ofList
  rw [hlist]
  exact ⟨⟨whole, places, htext, hwhole, hplaces⟩, htokens⟩

theorem isNegative_of_tokenize {s : String} {tokens : List Token} {t : Token} {x : Binary64}
    (h : tokenize s = .ok tokens) (ht : t ∈ tokens) (hx : t.literal = some (.number x)) :
    x.isNegative = false := by
  obtain ⟨tiles, last, hscans, -, -, rfl⟩ := exists_scans_of_tokenize h
  rcases List.mem_append.1 ht with ht | ht
  · obtain ⟨tile, htile, rfl⟩ := List.mem_map.1 ht
    obtain ⟨before, behind, rfl⟩ := List.append_of_mem htile
    have hliteral := hscans.hasLiteral
    unfold Token.HasLiteral at hliteral
    split at hliteral
    · obtain ⟨contents, -, hcontents⟩ := hliteral
      rw [hx] at hcontents
      cases hcontents
    · obtain ⟨q, y, -, hnearest, hy⟩ := hliteral
      rw [hx] at hy
      cases hy
      exact hnearest.isNegative_eq
    · rw [hx] at hliteral
      contradiction
  · obtain rfl := List.mem_singleton.1 ht
    contradiction

/-- A finite number without a sign is shown by digits on both sides of a point, and that text is read
as just this number. So no two finite numbers that stand in texts are shown by one text. -/
theorem display_readsBack :
    (∀ x : Binary64, x.isFinite = true → x.isNegative = false →
      let text := (Literal.number x).display
      (∃ whole places, text.toList = whole ++ '.' :: places ∧ IsDigits whole ∧ IsDigits places) ∧
        tokenize text = .ok [⟨.number, text, some (.number x), .start⟩,
          .endOfInput (placeBehind text.toList)]) ∧
    ∀ (s s' : String) (tokens tokens' : List Token) (t t' : Token) (x y : Binary64),
      tokenize s = .ok tokens → tokenize s' = .ok tokens' → t ∈ tokens → t' ∈ tokens' →
      t.literal = some (.number x) → t'.literal = some (.number y) →
      x.isFinite = true → y.isFinite = true →
      (Literal.number x).display = (Literal.number y).display → x = y := by
  refine ⟨fun x hfinite hsign => tokenize_display hfinite hsign, ?_⟩
  intro s s' tokens tokens' t t' x y hs hs' ht ht' hx hy hxfinite hyfinite hsame
  have hread := (tokenize_display hxfinite (isNegative_of_tokenize hs ht hx)).2
  have hread' := (tokenize_display hyfinite (isNegative_of_tokenize hs' ht' hy)).2
  rw [hsame, hread'] at hread
  simpa using hread.symm

/-- The numbers nearest to a tenth and to a fifth. -/
def tenth : Binary64 := ⟨0x3FB999999999999A⟩

def fifth : Binary64 := ⟨0x3FC999999999999A⟩

def numberTokens (text : String) (x : Binary64) : List Token :=
  [⟨.number, text, some (.number x), .start⟩, .endOfInput ⟨1, text.length + 1⟩]

theorem display_readsBack_of_tenth :
    tenth.isFinite = true ∧ tenth.isNegative = false ∧ (Literal.number tenth).display = "0.1" ∧
      tokenize "0.1" = .ok (numberTokens "0.1" tenth) ∧
      tokenize "0.10" = .ok (numberTokens "0.10" tenth) ∧
      tokenize "00.2" = .ok (numberTokens "00.2" fifth) ∧
      (Literal.number tenth).display ≠ (Literal.number fifth).display := by
  have hdisplay : (Literal.number tenth).display = "0.1" := by decide +kernel
  have hread := (display_readsBack.1 tenth (by decide) (by decide)).2
  rw [hdisplay] at hread
  have htenth : tokenize "0.10" = .ok (numberTokens "0.10" tenth) :=
    tokenize_of_toOption (by decide +kernel)
  have hfifth : tokenize "00.2" = .ok (numberTokens "00.2" fifth) :=
    tokenize_of_toOption (by decide +kernel)
  refine ⟨by decide, by decide, hdisplay, hread, htenth, hfifth, fun hsame => ?_⟩
  have heq := display_readsBack.2 _ _ _ _ _ _ tenth fifth htenth hfifth List.mem_cons_self
    List.mem_cons_self rfl rfl (by decide) (by decide) hsame
  exact absurd heq (by decide)

end ScriptSyntax
