import Mathlib.Algebra.Order.Field.Rat
import Mathlib.Data.Nat.Log
import Mathlib.Tactic.FieldSimp
import Mathlib.Tactic.Linarith
import Mathlib.Tactic.Positivity
import Mathlib.Tactic.Ring
import ScriptSyntax.Binary64.Basic
/-! # Rounding to double precision

The number that a ratio is rounded to is the nearest one. Of two that are equally near it is the one
with the even magnitude.
-/

namespace ScriptSyntax.Binary64

/-! ## The order of sizes -/

/-- From `k * 2 ^ 52` on, each step of the magnitude is one of `2 ^ k` units, up to where the steps
grow. -/
theorem unitsOfMagnitude_spaced {k r : Nat} (hlow : k = 0 ∨ 2 ^ 52 ≤ r) (hhigh : r ≤ 2 ^ 53) :
    unitsOfMagnitude (k * 2 ^ 52 + r) = r * 2 ^ k := by
  unfold unitsOfMagnitude
  simp only [Nat.pow_eq]
  by_cases hsmall : r < 2 ^ 52
  · obtain rfl : k = 0 := by omega
    have hexponent : (0 * 2 ^ 52 + r) / 2 ^ 52 = 0 := by omega
    have hfraction : (0 * 2 ^ 52 + r) % 2 ^ 52 = r := by omega
    rw [hexponent, hfraction, if_pos rfl, Nat.pow_zero, Nat.mul_one]
  by_cases hnormal : r < 2 ^ 53
  · have hexponent : (k * 2 ^ 52 + r) / 2 ^ 52 = k + 1 := by omega
    have hfraction : (k * 2 ^ 52 + r) % 2 ^ 52 = r - 2 ^ 52 := by omega
    have hrest : 2 ^ 52 + (r - 2 ^ 52) = r := by omega
    rw [hexponent, hfraction, if_neg (Nat.succ_ne_zero k), hrest, Nat.add_sub_cancel]
  · obtain rfl : r = 2 ^ 53 := by omega
    have hexponent : (k * 2 ^ 52 + 2 ^ 53) / 2 ^ 52 = k + 2 := by omega
    have hfraction : (k * 2 ^ 52 + 2 ^ 53) % 2 ^ 52 = 0 := by omega
    rw [hexponent, hfraction, if_neg (Nat.succ_ne_zero _), Nat.add_zero, Nat.add_succ_sub_one]
    ring

theorem exists_spaced (m : Nat) :
    ∃ k r, m = k * 2 ^ 52 + r ∧ (k = 0 ∨ 2 ^ 52 ≤ r) ∧ r < 2 ^ 53 := by
  by_cases hsmall : m < 2 ^ 52
  · exact ⟨0, m, by omega, .inl rfl, by omega⟩
  · exact ⟨m / 2 ^ 52 - 1, m % 2 ^ 52 + 2 ^ 52, by omega, .inr (by omega), by omega⟩

theorem unitsOfMagnitude_strictMono : StrictMono unitsOfMagnitude := by
  apply strictMono_nat_of_lt_succ
  intro m
  obtain ⟨k, r, rfl, hlow, hhigh⟩ := exists_spaced m
  rw [Nat.add_assoc, unitsOfMagnitude_spaced hlow (by omega),
    unitsOfMagnitude_spaced (hlow.imp_right fun h => by omega) (by omega)]
  exact Nat.mul_lt_mul_of_pos_right (Nat.lt_succ_self r) (Nat.two_pow_pos k)

/-! ## The nearest magnitude -/

/-- No size of a magnitude up to infinity is nearer to `q`, and if another one is equally near this
magnitude is even. -/
structure IsNearestMagnitude (magnitude : Nat) (q : ℚ) : Prop where
  le : magnitude ≤ infinite
  closest : ∀ m ≤ infinite, |(unitsOfMagnitude magnitude : ℚ) - q| ≤ |(unitsOfMagnitude m : ℚ) - q|
  even : ∀ m ≤ infinite, m ≠ magnitude →
    |(unitsOfMagnitude m : ℚ) - q| = |(unitsOfMagnitude magnitude : ℚ) - q| → magnitude % 2 = 0

section between

variable {a c m : Nat} {q : ℚ} (hlow : (unitsOfMagnitude a : ℚ) ≤ q)
  (hhigh : q ≤ unitsOfMagnitude (a + 1))

include hlow in
theorem distance_of_le (hm : m ≤ a) :
    |(unitsOfMagnitude m : ℚ) - q| = q - unitsOfMagnitude m := by
  have hle : (unitsOfMagnitude m : ℚ) ≤ unitsOfMagnitude a :=
    Nat.cast_le.2 (unitsOfMagnitude_strictMono.monotone hm)
  rw [abs_sub_comm, abs_of_nonneg (by linarith)]

include hhigh in
theorem distance_of_gt (hm : a < m) :
    |(unitsOfMagnitude m : ℚ) - q| = unitsOfMagnitude m - q := by
  have hle : (unitsOfMagnitude (a + 1) : ℚ) ≤ unitsOfMagnitude m :=
    Nat.cast_le.2 (unitsOfMagnitude_strictMono.monotone hm)
  rw [abs_of_nonneg (by linarith)]

include hlow in
theorem le_distance_of_le (hm : m ≤ a) :
    q - unitsOfMagnitude a ≤ |(unitsOfMagnitude m : ℚ) - q| := by
  have hle : (unitsOfMagnitude m : ℚ) ≤ unitsOfMagnitude a :=
    Nat.cast_le.2 (unitsOfMagnitude_strictMono.monotone hm)
  rw [distance_of_le hlow hm]
  linarith

include hhigh in
theorem le_distance_of_gt (hm : a < m) :
    unitsOfMagnitude (a + 1) - q ≤ |(unitsOfMagnitude m : ℚ) - q| := by
  have hle : (unitsOfMagnitude (a + 1) : ℚ) ≤ unitsOfMagnitude m :=
    Nat.cast_le.2 (unitsOfMagnitude_strictMono.monotone hm)
  rw [distance_of_gt hhigh hm]
  linarith

include hlow hhigh

theorem isNearestMagnitude_of_lt (ha : a < infinite)
    (h : q - unitsOfMagnitude a < unitsOfMagnitude (a + 1) - q) : IsNearestMagnitude a q := by
  have hself := distance_of_le hlow (Nat.le_refl a)
  refine ⟨ha.le, fun m _ => ?_, fun m _ hne hm => ?_⟩
  · rw [hself]
    rcases Nat.lt_or_ge a m with hm | hm
    · exact h.le.trans (le_distance_of_gt hhigh hm)
    · exact le_distance_of_le hlow hm
  · rw [hself] at hm
    rcases Nat.lt_or_gt_of_ne hne with hlt | hgt
    · have hless : (unitsOfMagnitude m : ℚ) < unitsOfMagnitude a :=
        Nat.cast_lt.2 (unitsOfMagnitude_strictMono hlt)
      rw [distance_of_le hlow hlt.le] at hm
      linarith
    · have := le_distance_of_gt hhigh hgt
      linarith

theorem isNearestMagnitude_of_gt (ha : a < infinite)
    (h : unitsOfMagnitude (a + 1) - q < q - unitsOfMagnitude a) :
    IsNearestMagnitude (a + 1) q := by
  have hself := distance_of_gt hhigh (Nat.lt_succ_self a)
  refine ⟨ha, fun m _ => ?_, fun m _ hne hm => ?_⟩
  · rw [hself]
    rcases Nat.lt_or_ge a m with hm | hm
    · exact le_distance_of_gt hhigh hm
    · exact h.le.trans (le_distance_of_le hlow hm)
  · rw [hself] at hm
    rcases Nat.lt_or_ge a m with hgt | hle
    · have hmore : (unitsOfMagnitude (a + 1) : ℚ) < unitsOfMagnitude m :=
        Nat.cast_lt.2 (unitsOfMagnitude_strictMono (by omega))
      rw [distance_of_gt hhigh hgt] at hm
      linarith
    · have := le_distance_of_le hlow hle
      linarith

theorem isNearestMagnitude_of_eq (ha : a < infinite) (hc : c = a ∨ c = a + 1) (heven : c % 2 = 0)
    (h : q - unitsOfMagnitude a = unitsOfMagnitude (a + 1) - q) : IsNearestMagnitude c q := by
  have hself : |(unitsOfMagnitude c : ℚ) - q| = q - unitsOfMagnitude a := by
    rcases hc with rfl | rfl
    · exact distance_of_le hlow (Nat.le_refl _)
    · rw [distance_of_gt hhigh (Nat.lt_succ_self a), h]
  refine ⟨by omega, fun m _ => ?_, fun _ _ _ _ => heven⟩
  rw [hself]
  rcases Nat.lt_or_ge a m with hm | hm
  · exact h.le.trans (le_distance_of_gt hhigh hm)
  · exact le_distance_of_le hlow hm

end between

theorem isNearestMagnitude_infinite {q : ℚ} (h : (unitsOfMagnitude infinite : ℚ) ≤ q) :
    IsNearestMagnitude infinite q := by
  refine ⟨Nat.le_refl _, fun m hm => ?_, fun _ _ _ _ => rfl⟩
  have hle : (unitsOfMagnitude m : ℚ) ≤ unitsOfMagnitude infinite :=
    Nat.cast_le.2 (unitsOfMagnitude_strictMono.monotone hm)
  rw [distance_of_le h (Nat.le_refl _), distance_of_le h hm]
  linarith

/-! ## Rounding a ratio -/

theorem spacing_bounds {n d k : Nat} (hk : (n / d).log2 - 52 = k) :
    (k = 0 ∨ 2 ^ 52 ≤ n / (d * 2 ^ k)) ∧ n / (d * 2 ^ k) < 2 ^ 53 := by
  rw [← Nat.div_div_eq_div_mul]
  generalize n / d = v at hk ⊢
  have hlt : v < 2 ^ (v.log2 + 1) := Nat.lt_log2_self
  have hpow : 2 ^ (v.log2 + 1) ≤ 2 ^ 53 * 2 ^ k := by
    rw [← Nat.pow_add]
    exact Nat.pow_le_pow_right Nat.two_pos (by omega)
  refine ⟨?_, (Nat.div_lt_iff_lt_mul (Nat.two_pow_pos k)).2 (hlt.trans_le hpow)⟩
  rcases Nat.eq_zero_or_pos k with hzero | hpos
  · exact .inl hzero
  · have hne : v ≠ 0 := by
      rintro rfl
      rw [Nat.log2_zero] at hk
      omega
    have hle : 2 ^ 52 * 2 ^ k ≤ v := by
      rw [← Nat.pow_add, show 52 + k = v.log2 by omega]
      exact Nat.log2_self_le hne
    exact .inr ((Nat.le_div_iff_mul_le (Nat.two_pow_pos k)).2 hle)

section steps

variable {low rest d k c : Nat} (hnormal : k = 0 ∨ 2 ^ 52 ≤ low) (hsmall : low < 2 ^ 53)

include hnormal hsmall

theorem size_of_steps : (unitsOfMagnitude (k * 2 ^ 52 + low) : ℚ) = low * 2 ^ k := by
  rw [unitsOfMagnitude_spaced hnormal hsmall.le]
  push_cast
  rfl

theorem size_of_next_step :
    (unitsOfMagnitude (k * 2 ^ 52 + low + 1) : ℚ) = (low + 1) * 2 ^ k := by
  rw [Nat.add_assoc, unitsOfMagnitude_spaced (hnormal.imp_right Nat.le_succ_of_le) hsmall]
  push_cast
  rfl

omit hnormal hsmall in
theorem twice_rest_lt_iff (hd : 0 < d) :
    2 * rest < d * 2 ^ k ↔ (rest / d : ℚ) + rest / d < 2 ^ k := by
  rw [← add_div, div_lt_iff₀ (Nat.cast_pos.2 hd), mul_comm (2 ^ k : ℚ), ← two_mul]
  exact_mod_cast Iff.rfl

omit hnormal hsmall in
theorem lt_twice_rest_iff (hd : 0 < d) :
    d * 2 ^ k < 2 * rest ↔ (2 ^ k : ℚ) < rest / d + rest / d := by
  rw [← add_div, lt_div_iff₀ (Nat.cast_pos.2 hd), mul_comm (2 ^ k : ℚ), ← two_mul]
  exact_mod_cast Iff.rfl

variable (hd : 0 < d) (hrest : rest < d * 2 ^ k)
  (hc : c = if 2 * rest < d * 2 ^ k then low
    else if d * 2 ^ k < 2 * rest then low + 1 else low + low % 2)

include hd

theorem size_le : (unitsOfMagnitude (k * 2 ^ 52 + low) : ℚ) ≤ low * 2 ^ k + rest / d := by
  have hnonneg : (0 : ℚ) ≤ rest / d := by positivity
  rw [size_of_steps hnormal hsmall]
  linarith

include hrest

theorem le_size_of_next :
    (low * 2 ^ k + rest / d : ℚ) ≤ unitsOfMagnitude (k * 2 ^ 52 + low + 1) := by
  have hfraction : (rest / d : ℚ) < 2 ^ k := by
    rw [div_lt_iff₀ (Nat.cast_pos.2 hd), mul_comm]
    exact_mod_cast hrest
  rw [size_of_next_step hnormal hsmall]
  linarith

include hc

theorem isNearestMagnitude_of_finite (hfinite : k * 2 ^ 52 + low < infinite) :
    IsNearestMagnitude (k * 2 ^ 52 + c) (low * 2 ^ k + rest / d : ℚ) := by
  have hlow : (unitsOfMagnitude (k * 2 ^ 52 + low) : ℚ) ≤ low * 2 ^ k + rest / d :=
    size_le hnormal hsmall hd
  have hhigh := le_size_of_next hnormal hsmall hd hrest
  have hbelow := size_of_steps hnormal hsmall
  have habove := size_of_next_step hnormal hsmall
  split at hc
  · rename_i hless
    rw [hc]
    refine isNearestMagnitude_of_lt hlow hhigh hfinite ?_
    rw [hbelow, habove]
    linarith [(twice_rest_lt_iff hd).1 hless]
  · rename_i hless
    split at hc
    · rename_i hmore
      rw [hc, ← Nat.add_assoc]
      refine isNearestMagnitude_of_gt hlow hhigh hfinite ?_
      rw [hbelow, habove]
      linarith [(lt_twice_rest_iff hd).1 hmore]
    · rename_i hmore
      refine isNearestMagnitude_of_eq hlow hhigh hfinite (by omega) (by omega) ?_
      rw [hbelow, habove]
      linarith [not_lt.1 (mt (twice_rest_lt_iff hd).2 hless),
        not_lt.1 (mt (lt_twice_rest_iff hd).2 hmore)]

/-- A size of `low` steps of `2 ^ k` units, and less than one step more, is rounded to a whole number
of steps, but to no more than infinity. -/
theorem isNearestMagnitude_steps :
    IsNearestMagnitude (min infinite (k * 2 ^ 52 + c)) (low * 2 ^ k + rest / d : ℚ) := by
  have hcle : low ≤ c ∧ c ≤ low + 1 := by
    rw [hc]
    split
    · omega
    · split <;> omega
  rcases Nat.lt_or_ge (k * 2 ^ 52 + low) infinite with hfinite | hlarge
  · rw [Nat.min_eq_right (by omega)]
    exact isNearestMagnitude_of_finite hnormal hsmall hd hrest hc hfinite
  · rw [Nat.min_eq_left (by omega)]
    refine isNearestMagnitude_infinite (le_trans ?_ (size_le hnormal hsmall hd))
    exact Nat.cast_le.2 (unitsOfMagnitude_strictMono.monotone hlarge)

end steps

theorem infinite_lt : infinite < 2 ^ 63 := by decide

theorem toNat_ofMagnitude {m : Nat} (h : m ≤ infinite) : (ofMagnitude m).bits.toNat = m := by
  have := infinite_lt
  exact UInt64.toNat_ofNat_of_lt' (by unfold UInt64.size; omega)

theorem magnitude_ofMagnitude {m : Nat} (h : m ≤ infinite) : (ofMagnitude m).magnitude = m := by
  rw [magnitude, toNat_ofMagnitude h]
  exact Nat.mod_eq_of_lt (h.trans_lt infinite_lt)

theorem isNegative_ofMagnitude {m : Nat} (h : m ≤ infinite) :
    (ofMagnitude m).isNegative = false := by
  rw [isNegative, toNat_ofMagnitude h]
  exact decide_eq_false (Nat.not_le.2 (h.trans_lt infinite_lt))

theorem ofRatio_eq (n d : Nat) : ∃ m ≤ infinite, ofRatio n d = ofMagnitude m := by
  unfold ofRatio
  exact ⟨_, Nat.min_le_left _ _, rfl⟩

theorem isNearestMagnitude_ofRatio (n : Nat) {d : Nat} (hd : 0 < d) :
    IsNearestMagnitude (ofRatio n d).magnitude ((n * unitsPerOne : Nat) / d : ℚ) := by
  unfold ofRatio
  rw [magnitude_ofMagnitude (Nat.min_le_left _ _)]
  generalize n * unitsPerOne = units
  obtain ⟨k, hk⟩ : ∃ k, (units / d).log2 - 52 = k := ⟨_, rfl⟩
  obtain ⟨hnormal, hsmall⟩ := spacing_bounds hk
  have hrest := Nat.mod_lt units (Nat.mul_pos hd (Nat.two_pow_pos k))
  have hsize : (units / d : ℚ) =
      (units / (d * 2 ^ k) : Nat) * 2 ^ k + (units % (d * 2 ^ k) : Nat) / d := by
    have hdivision :
        ((d * 2 ^ k * (units / (d * 2 ^ k)) + units % (d * 2 ^ k) : Nat) : ℚ) = units := by
      rw [Nat.div_add_mod]
    have hpositive : (d : ℚ) ≠ 0 := Nat.cast_ne_zero.2 hd.ne'
    rw [← hdivision, Nat.cast_add, Nat.cast_mul, Nat.cast_mul, Nat.cast_pow]
    field_simp
    push_cast
    ring
  rw [hk, hsize]
  exact isNearestMagnitude_steps hnormal hsmall hd hrest rfl

/-! ## The nearest number -/

/-- The value of a number. Infinity has that of the power of two behind the largest finite number. -/
def value (x : Binary64) : ℚ :=
  (if x.isNegative then -1 else 1) * (unitsOfMagnitude x.magnitude / unitsPerOne)

/-- A number without a sign than which no other is nearer to `q`, with an even magnitude if another one
is equally near. -/
structure IsNearest (x : Binary64) (q : ℚ) : Prop where
  isNaN_eq : x.isNaN = false
  isNegative_eq : x.isNegative = false
  closest : ∀ y : Binary64, y.isNaN = false → |x.value - q| ≤ |y.value - q|
  even : ∀ y : Binary64, y.isNaN = false → y.value ≠ x.value →
    |y.value - q| = |x.value - q| → x.magnitude % 2 = 0

theorem unitsPerOne_pos : (0 : ℚ) < unitsPerOne := by
  unfold unitsPerOne
  generalize 1074 = k
  exact Nat.cast_pos.2 (Nat.two_pow_pos k)

theorem size_nonneg (m : Nat) : (0 : ℚ) ≤ unitsOfMagnitude m / unitsPerOne :=
  div_nonneg (Nat.cast_nonneg _) (Nat.cast_nonneg _)

theorem isNaN_eq_false_iff {x : Binary64} : x.isNaN = false ↔ x.magnitude ≤ infinite := by
  simp [isNaN]

theorem value_of_not_negative {x : Binary64} (h : x.isNegative = false) :
    x.value = unitsOfMagnitude x.magnitude / unitsPerOne := by
  rw [value, h, if_neg Bool.false_ne_true, one_mul]

theorem value_of_negative {x : Binary64} (h : x.isNegative = true) :
    x.value = -(unitsOfMagnitude x.magnitude / unitsPerOne) := by
  rw [value, h, if_pos rfl, neg_one_mul]

theorem IsNearestMagnitude.isNearest {x : Binary64} {q : ℚ} (hq : 0 ≤ q)
    (hsign : x.isNegative = false) (h : IsNearestMagnitude x.magnitude (q * unitsPerOne)) :
    x.IsNearest q := by
  have hpos := unitsPerOne_pos
  have hdistance (m : Nat) : |(unitsOfMagnitude m / unitsPerOne : ℚ) - q| =
      |(unitsOfMagnitude m : ℚ) - q * unitsPerOne| / unitsPerOne := by
    rw [← abs_of_pos hpos, ← abs_div, abs_of_pos hpos, sub_div, mul_div_cancel_right₀ _ hpos.ne']
  have hclosest {m : Nat} (hm : m ≤ infinite) :
      |x.value - q| ≤ |(unitsOfMagnitude m / unitsPerOne : ℚ) - q| := by
    rw [value_of_not_negative hsign, hdistance, hdistance]
    exact div_le_div_of_nonneg_right (h.closest m hm) hpos.le
  have heven {m : Nat} (hm : m ≤ infinite) (hne : (unitsOfMagnitude m / unitsPerOne : ℚ) ≠ x.value)
      (heq : |(unitsOfMagnitude m / unitsPerOne : ℚ) - q| = |x.value - q|) :
      x.magnitude % 2 = 0 := by
    rw [value_of_not_negative hsign] at hne heq
    rw [hdistance, hdistance, div_left_inj' hpos.ne'] at heq
    exact h.even m hm (fun hmagnitude => hne (by rw [hmagnitude])) heq
  -- A number with a sign is no nearer than zero.
  have hzero : |x.value - q| ≤ q := by
    have := hclosest (Nat.zero_le infinite)
    rwa [show unitsOfMagnitude 0 = 0 from rfl, Nat.cast_zero, zero_div, zero_sub, abs_neg,
      abs_of_nonneg hq] at this
  have hnegative {y : Binary64} (hy : y.isNegative = true) :
      |y.value - q| = unitsOfMagnitude y.magnitude / unitsPerOne + q := by
    have := size_nonneg y.magnitude
    rw [value_of_negative hy, ← abs_neg, abs_of_nonneg (by linarith)]
    ring
  refine ⟨isNaN_eq_false_iff.2 h.le, hsign, fun y hy => ?_, fun y hy hne heq => ?_⟩
  · have hle := isNaN_eq_false_iff.1 hy
    cases hysign : y.isNegative with
    | false =>
      rw [value_of_not_negative hysign]
      exact hclosest hle
    | true =>
      rw [hnegative hysign]
      linarith [size_nonneg y.magnitude]
  · have hle := isNaN_eq_false_iff.1 hy
    cases hysign : y.isNegative with
    | false =>
      rw [value_of_not_negative hysign] at hne heq
      exact heven hle hne heq
    | true =>
      have hnone : (unitsOfMagnitude y.magnitude / unitsPerOne : ℚ) = 0 := by
        rw [hnegative hysign] at heq
        linarith [size_nonneg y.magnitude]
      have hvalue : y.value = unitsOfMagnitude y.magnitude / unitsPerOne := by
        rw [value_of_negative hysign, hnone, neg_zero]
      rw [hvalue] at hne heq
      exact heven hle hne heq

theorem ofRatio_isNearest (n : Nat) {d : Nat} (hd : 0 < d) :
    (ofRatio n d).IsNearest (n / d : ℚ) := by
  obtain ⟨m, hm, heq⟩ := ofRatio_eq n d
  have hsign : (ofRatio n d).isNegative = false := by rw [heq, isNegative_ofMagnitude hm]
  have hnearest := isNearestMagnitude_ofRatio n hd
  rw [Nat.cast_mul, mul_div_right_comm] at hnearest
  exact hnearest.isNearest (by positivity) hsign

end ScriptSyntax.Binary64
