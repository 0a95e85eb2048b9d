import Mathlib.Data.List.TakeWhile
import Mathlib.Data.Nat.Digits.Defs
import ScriptSyntax.Proofs.Lexical.Front
import ScriptSyntax.Proofs.Lexical.Rounding
/-! # What literals stand for -/

namespace ScriptSyntax

/-- The value of digits in base ten. -/
def digitsValue (digits : List Char) : Nat :=
  Nat.ofDigits 10 (digits.reverse.map fun c => c.toNat - '0'.toNat)

/-- The value of a number as it is written. -/
inductive IsDecimal : List Char → ℚ → Prop where
  | whole {digits : List Char} : IsDigits digits → IsDecimal digits (digitsValue digits)
  | fraction {whole places : List Char} : IsDigits whole → IsDigits places →
      IsDecimal (whole ++ '.' :: places)
        (digitsValue whole + digitsValue places / 10 ^ places.length)

/-- A string stands for what is between its quotes, a number for the nearest number to its value, and
other tokens for nothing. -/
def Token.HasLiteral (t : Token) : Prop :=
  match t.kind with
  | .string => ∃ contents, t.lexeme.toList = '"' :: contents ++ ['"'] ∧
      t.literal = some (.text (String.ofList contents))
  | .number => ∃ q x, IsDecimal t.lexeme.toList q ∧ x.IsNearest q ∧ t.literal = some (.number x)
  | _ => t.literal = none

/-! ## Numbers -/

theorem digitsValue_cons (c : Char) (digits : List Char) :
    digitsValue (c :: digits) = (c.toNat - '0'.toNat) * 10 ^ digits.length + digitsValue digits := by
  unfold digitsValue
  rw [List.reverse_cons, List.map_append, Nat.ofDigits_append]
  simp
  ring

namespace Decimal

theorem readDigits_eq (n : Nat) (digits : List Char) :
    readDigits n digits = n * 10 ^ digits.length + digitsValue digits := by
  induction digits generalizing n with
  | nil => simp [readDigits, digitsValue]
  | cons c digits ih =>
    have hstep : readDigits n (c :: digits) =
        readDigits (10 * n + (c.toNat - '0'.toNat)) digits := rfl
    rw [hstep, ih, digitsValue_cons, List.length_cons]
    ring

theorem nearest_isNearest (d : Decimal) : d.nearest.IsNearest (d.digits / 10 ^ d.places : ℚ) := by
  have h := Binary64.ofRatio_isNearest d.digits (Nat.pow_pos (n := d.places) (Nat.succ_pos 9))
  rwa [Nat.cast_pow] at h

theorem ofText_whole {digits : List Char} (h : IsDigits digits) :
    ofText digits = ⟨digitsValue digits, 0⟩ := by
  have hall := Lexeme.all_isDigit h
  have htake : digits.takeWhile Char.isDigit = digits := List.takeWhile_eq_self_iff.2 hall
  have hdrop : digits.dropWhile Char.isDigit = [] := List.dropWhile_eq_nil_iff.2 hall
  unfold ofText
  rw [htake, hdrop]
  simp [readDigits_eq, digitsValue]

theorem ofText_fraction {whole : List Char} (h : IsDigits whole) (places : List Char) :
    ofText (whole ++ '.' :: places) =
      ⟨digitsValue whole * 10 ^ places.length + digitsValue places, places.length⟩ := by
  have hall := Lexeme.all_isDigit h
  unfold ofText
  rw [Lexeme.takeWhile_append_cons hall rfl, Lexeme.dropWhile_append_cons hall rfl]
  simp [readDigits_eq]

theorem isDigits_toDigits (n : Nat) : IsDigits (Nat.toDigits 10 n) :=
  ⟨Nat.toDigits_ne_nil, fun _ hc =>
    isDigit_iff.1 (Nat.isDigit_of_mem_toDigits (by decide) (by decide) hc)⟩

theorem exists_text (d : Decimal) :
    ∃ whole places, d.text = whole ++ '.' :: places ∧ IsDigits whole ∧ IsDigits places := by
  refine ⟨_, _, rfl, isDigits_toDigits _, by simp [List.leftpad], fun c hc => ?_⟩
  rcases List.mem_append.1 hc with hc | hc
  · obtain rfl := List.eq_of_mem_replicate hc
    decide
  · exact (isDigits_toDigits _).2 c hc

end Decimal

theorem exists_isDecimal {text : List Char} (h : IsNumber text) :
    ∃ q, IsDecimal text q ∧ (Decimal.ofText text).nearest.IsNearest q := by
  have hnearest := (Decimal.ofText text).nearest_isNearest
  rcases h with h | ⟨whole, places, rfl, hwhole, hplaces⟩
  · refine ⟨_, .whole h, ?_⟩
    rw [Decimal.ofText_whole h] at hnearest ⊢
    simpa using hnearest
  · refine ⟨_, .fraction hwhole hplaces, ?_⟩
    rw [Decimal.ofText_fraction hwhole] at hnearest ⊢
    have hpos : (10 ^ places.length : ℚ) ≠ 0 := by positivity
    dsimp only at hnearest
    push_cast at hnearest
    rwa [add_div, mul_div_cancel_right₀ _ hpos] at hnearest

/-! ## Lexemes -/

theorem Lexeme.hasLiteral {l : Lexeme} (h : l.kind.Spelled l.text) (location : Location) :
    (l.toToken location).HasLiteral := by
  obtain ⟨kind, text⟩ := l
  cases h with
  | mark h => cases kind <;> cases h <;> rfl
  | keyword h => cases kind <;> cases h <;> rfl
  | identifier => rfl
  | number h =>
    obtain ⟨q, hq, hnearest⟩ := exists_isDecimal h
    exact ⟨q, _, by simpa [Lexeme.toToken] using hq, hnearest, rfl⟩
  | string h =>
    obtain ⟨contents, rfl, -⟩ := h
    exact ⟨contents, by simp [Lexeme.toToken], by simp [Lexeme.toToken, literal]⟩

end ScriptSyntax
