import Mathlib.Algebra.Order.Field.Basic
import Mathlib.Algebra.Order.Field.Power
import Mathlib.Data.Rat.Cast.Order
import Mathlib.Tactic.FieldSimp
import Mathlib.Tactic.Linarith
import Mathlib.Tactic.NormNum
import Mathlib.Tactic.Ring
import SuiteDriver.Number.Binary64

/-!
# Rounding is to the nearest

Rounding takes a quotient to the grid of an exponent and there to the nearest whole number of steps.
What comes out is said without either: among all numbers of the format, however large, none is
nearer, and of two that are equally near it is the one with the even significand. There is one such
number, so whatever is known of where rounding lands is known of the nearest.

* `RoundsTo`, `roundsTo_roundDiv`: the nearest whole number;
* `Magnitude.fits_exponentFor`: the exponent that is chosen leaves the significand its 53 bits;
* `Magnitude.isNearest_nearest`, `Magnitude.isNearest_add`: a quotient and a sum are rounded to the
  nearest number of the format;
* `Magnitude.IsNearest.unique`, `Magnitude.IsNearest.mono`: there is one nearest, and it keeps the
  order;
* `Magnitude.IsNearest.abs_sub_le`: how far a number is moved at most.
-/

namespace SuiteDriver.Number

/-! ## 1. The nearest whole number -/

/-- **A whole number is the nearest** to a number, and of two that are it is the even one. -/
structure RoundsTo (q : ℚ) (n : ℕ) : Prop where
  near : |(n : ℚ) - q| ≤ 1 / 2
  even : |(n : ℚ) - q| = 1 / 2 → n % 2 = 0

section RoundsTo

variable {q r : ℚ} {k m n : ℕ}

/-- **Rounding keeps the order.** -/
theorem RoundsTo.mono (hq : RoundsTo q m) (hr : RoundsTo r n) (h : q ≤ r) : m ≤ n := by
  by_contra hlt
  have hstep : (n : ℚ) + 1 ≤ m := by exact_mod_cast Nat.lt_of_not_le hlt
  have hm := abs_le.mp hq.near
  have hn := abs_le.mp hr.near
  -- each is half a step from its number, so both are even, and they are neighbours
  have hmhalf : (m : ℚ) - q = 1 / 2 := by linarith
  have hnhalf : (n : ℚ) - r = -(1 / 2) := by linarith
  have hnext : (m : ℚ) = (n + 1 : ℕ) := by
    push_cast
    linarith
  have hmeven := hq.even (by rw [hmhalf]; norm_num)
  have hneven := hr.even (by rw [hnhalf]; norm_num)
  have hnext' : m = n + 1 := by exact_mod_cast hnext
  omega

theorem RoundsTo.unique (hm : RoundsTo q m) (hn : RoundsTo q n) : m = n :=
  Nat.le_antisymm (hm.mono hn le_rfl) (hn.mono hm le_rfl)

/-- A whole number is the nearest to itself. -/
theorem roundsTo_natCast (n : ℕ) : RoundsTo n n :=
  ⟨by norm_num, by norm_num⟩

/-- Two whole numbers are a step apart. -/
theorem one_le_abs_add_abs (h : k ≠ n) : 1 ≤ |(k : ℚ) - q| + |(n : ℚ) - q| := by
  have hstep : (1 : ℚ) ≤ |(k : ℚ) - n| := by
    exact_mod_cast Int.one_le_abs (show (k : ℤ) - n ≠ 0 by omega)
  have htriangle := abs_sub_le (k : ℚ) q n
  rw [abs_sub_comm q] at htriangle
  exact hstep.trans htriangle

/-- No whole number is nearer. -/
theorem RoundsTo.near_all (h : RoundsTo q n) (k : ℕ) : |(n : ℚ) - q| ≤ |(k : ℚ) - q| := by
  by_cases hk : k = n
  · rw [hk]
  · have hstep := one_le_abs_add_abs (q := q) hk
    have hnear := h.near
    linarith

/-- **Of two whole numbers that are equally near the even one is taken**, and the other is odd. -/
theorem RoundsTo.odd_of_equal (h : RoundsTo q n) (hk : k ≠ n)
    (hequal : |(k : ℚ) - q| = |(n : ℚ) - q|) : n % 2 = 0 ∧ k % 2 = 1 := by
  have hstep := one_le_abs_add_abs (q := q) hk
  have hnear := h.near
  have hhalf : |(n : ℚ) - q| = 1 / 2 := by linarith
  have heven := h.even hhalf
  -- they lie a half to each side, so they are neighbours
  have hn := abs_le.mp hnear
  have hk' := abs_le.mp (hequal.trans_le hnear)
  have hup : (k : ℚ) ≤ (n + 1 : ℕ) := by
    push_cast
    linarith
  have hdown : (n : ℚ) ≤ (k + 1 : ℕ) := by
    push_cast
    linarith
  have hup' : k ≤ n + 1 := by exact_mod_cast hup
  have hdown' : n ≤ k + 1 := by exact_mod_cast hdown
  omega

/-- A quotient is a whole number and a rest. -/
theorem div_eq_add_rest (num : ℕ) {den : ℕ} (hden : 0 < den) :
    (num : ℚ) / den = (num / den : ℕ) + ((num % den : ℕ) : ℚ) / den := by
  have hd : (den : ℚ) ≠ 0 := by exact_mod_cast hden.ne'
  have hsplit : (num : ℚ) = den * (num / den : ℕ) + (num % den : ℕ) := by
    exact_mod_cast (Nat.div_add_mod num den).symm
  field_simp
  exact hsplit

/-- A rest of at most a half is left out, a half only after an even number. -/
theorem roundsTo_down {f : ℚ} (hnonneg : 0 ≤ f) (hf : f ≤ 1 / 2) (heven : f = 1 / 2 → n % 2 = 0) :
    RoundsTo (n + f) n := by
  have hdist : |(n : ℚ) - (n + f)| = f := by
    rw [abs_sub_comm, add_sub_cancel_left, abs_of_nonneg hnonneg]
  exact ⟨hdist.trans_le hf, fun h => heven (hdist.symm.trans h)⟩

/-- A rest of at least a half makes it one more, a half only after an odd number. -/
theorem roundsTo_up {f : ℚ} (hf : 1 / 2 ≤ f) (hle : f ≤ 1) (hodd : f = 1 / 2 → n % 2 = 1) :
    RoundsTo (n + f) (n + 1 : ℕ) := by
  have hdist : |((n + 1 : ℕ) : ℚ) - (n + f)| = 1 - f := by
    push_cast
    rw [add_sub_add_left_eq_sub, abs_of_nonneg (by linarith)]
  refine ⟨by linarith, fun h => ?_⟩
  have := hodd (by linarith)
  omega

/-- **Rounding a quotient gives the nearest whole number.** -/
theorem roundsTo_roundDiv (num : ℕ) {den : ℕ} (hden : 0 < den) :
    RoundsTo (num / den) (roundDiv num den) := by
  have hd : (0 : ℚ) < den := by exact_mod_cast hden
  have hnonneg : 0 ≤ ((num % den : ℕ) : ℚ) / den := by positivity
  have hlt : ((num % den : ℕ) : ℚ) / den < 1 := by
    rw [div_lt_one hd]
    exact_mod_cast Nat.mod_lt num hden
  have hless : ((num % den : ℕ) : ℚ) / den < 1 / 2 ↔ 2 * (num % den) < den := by
    rw [div_lt_div_iff₀ hd (by norm_num), one_mul, mul_comm]
    exact_mod_cast Iff.rfl
  have hmore : 1 / 2 < ((num % den : ℕ) : ℚ) / den ↔ den < 2 * (num % den) := by
    rw [div_lt_div_iff₀ (by norm_num) hd, one_mul, mul_comm]
    exact_mod_cast Iff.rfl
  rw [div_eq_add_rest num hden]
  generalize ((num % den : ℕ) : ℚ) / den = f at *
  simp only [roundDiv]
  by_cases hbelow : 2 * (num % den) < den
  · rw [if_pos hbelow]
    have hf := hless.mpr hbelow
    exact roundsTo_down hnonneg hf.le fun h => absurd h hf.ne
  · rw [if_neg hbelow]
    have hge : 1 / 2 ≤ f := not_lt.mp (mt hless.mp hbelow)
    by_cases habove : den < 2 * (num % den)
    · rw [if_pos habove]
      have hf := hmore.mpr habove
      exact roundsTo_up hge hlt.le fun h => absurd h hf.ne'
    · rw [if_neg habove]
      have hle : f ≤ 1 / 2 := not_lt.mp (mt hmore.mp habove)
      by_cases heven : num / den % 2 = 0
      · rw [if_pos heven]
        exact roundsTo_down hnonneg hle fun _ => heven
      · rw [if_neg heven]
        exact roundsTo_up hge hlt.le fun _ => by omega

end RoundsTo

/-! ## 2. Magnitudes -/

/-- A power of two as a quotient of whole powers. -/
theorem two_zpow_eq (e : ℤ) : (2 : ℚ) ^ e = 2 ^ e.toNat / 2 ^ (-e).toNat := by
  obtain ⟨n, rfl | rfl⟩ := e.eq_nat_or_neg <;> simp

theorem two_zpow_pos (e : ℤ) : (0 : ℚ) < 2 ^ e := zpow_pos (by norm_num) e

theorem two_zpow_mono {d e : ℤ} (h : d ≤ e) : (2 : ℚ) ^ d ≤ 2 ^ e :=
  zpow_le_zpow_right₀ (by norm_num) h

theorem two_zpow_add (d e : ℤ) : (2 : ℚ) ^ (d + e) = 2 ^ d * 2 ^ e :=
  zpow_add₀ (by norm_num) d e

/-- A power of two as a number of steps. -/
theorem two_pow_steps (k : ℕ) (e : ℤ) : ((2 ^ k : ℕ) : ℚ) * 2 ^ e = 2 ^ (e + k) := by
  rw [two_zpow_add, mul_comm, zpow_natCast, Nat.cast_pow, Nat.cast_ofNat]

/-- How far a number of steps is from a number. -/
theorem abs_steps_sub (q : ℚ) (e : ℤ) (k : ℕ) :
    |(k : ℚ) * 2 ^ e - q| = |(k : ℚ) - q / 2 ^ e| * 2 ^ e := by
  have hpos := two_zpow_pos e
  rw [← abs_of_pos hpos, ← abs_mul, abs_of_pos hpos, sub_mul, div_mul_cancel₀ _ hpos.ne']

namespace Magnitude

/-- The value of a magnitude. -/
def value (x : Magnitude) : ℚ := x.significand * 2 ^ x.exponent

/-- **A number of the format**, however large: its significand has 53 bits, or fewer at the least
    exponent. -/
structure InFormat (x : Magnitude) : Prop where
  below : x.significand < 2 ^ 53
  least : leastExponent ≤ x.exponent
  full : leastExponent < x.exponent → 2 ^ 52 ≤ x.significand

variable {x y : Magnitude} {q r : ℚ} {e : ℤ} {m num den : ℕ}

theorem value_eq_toQuotient (x : Magnitude) :
    (x.toQuotient.1 : ℚ) / x.toQuotient.2 = x.value := by
  have hquotient : x.toQuotient =
      (x.significand * 2 ^ x.exponent.toNat, 2 ^ (-x.exponent).toNat) := rfl
  rw [hquotient, value, two_zpow_eq]
  push_cast
  exact mul_div_assoc _ _ _

theorem toQuotient_pos (x : Magnitude) : 0 < x.toQuotient.2 := Nat.two_pow_pos _

theorem value_nonneg (x : Magnitude) : 0 ≤ x.value :=
  mul_nonneg (Nat.cast_nonneg _) (two_zpow_pos _).le

/-- On a grid that is not coarser than its own a magnitude is a whole number of steps, and an even
    significand makes it an even one. -/
theorem exists_steps (h : e ≤ x.exponent) :
    ∃ k : ℕ, x.value = k * 2 ^ e ∧ (x.significand % 2 = 0 → k % 2 = 0) := by
  refine ⟨x.significand * 2 ^ (x.exponent - e).toNat, ?_, fun heven => ?_⟩
  · have hsplit : (2 : ℚ) ^ x.exponent = 2 ^ (x.exponent - e).toNat * 2 ^ e := by
      rw [← zpow_natCast, Int.toNat_of_nonneg (by omega), ← two_zpow_add, Int.sub_add_cancel]
    rw [value, hsplit]
    push_cast
    ring
  · rw [Nat.mul_mod, heven, Nat.zero_mul, Nat.zero_mod]

/-- Below the exponent a number of the format has less than 52 bits of it. -/
theorem InFormat.value_lt (hx : x.InFormat) (h : x.exponent < e) : x.value < 2 ^ (e + 52) := by
  have hbelow : (x.significand : ℚ) < 2 ^ (53 : ℤ) := by
    exact_mod_cast hx.below
  calc x.value < 2 ^ (53 : ℤ) * 2 ^ x.exponent :=
        mul_lt_mul_of_pos_right hbelow (two_zpow_pos _)
    _ = 2 ^ (53 + x.exponent) := (two_zpow_add _ _).symm
    _ ≤ 2 ^ (e + 52) := two_zpow_mono (by omega)

theorem InFormat.le_value (hx : x.InFormat) (h : leastExponent < x.exponent) :
    2 ^ (x.exponent + 52) ≤ x.value := by
  have hfull : (2 : ℚ) ^ (52 : ℤ) ≤ x.significand := by
    exact_mod_cast hx.full h
  calc (2 : ℚ) ^ (x.exponent + 52) = 2 ^ (52 : ℤ) * 2 ^ x.exponent := by
        rw [two_zpow_add, mul_comm]
    _ ≤ x.value := mul_le_mul_of_nonneg_right hfull (two_zpow_pos _).le

/-- A greater value has no lesser exponent. -/
theorem InFormat.exponent_le (hx : x.InFormat) (hy : y.InFormat) (h : x.value ≤ y.value) :
    x.exponent ≤ y.exponent := by
  by_contra hlt
  have hleast := hy.least
  have hxlow := hx.le_value (by omega)
  have hyhigh := hy.value_lt (e := x.exponent) (by omega)
  linarith

/-- **A value is written in one way.** -/
theorem InFormat.eq_of_value_eq (hx : x.InFormat) (hy : y.InFormat) (h : x.value = y.value) :
    x = y := by
  have hexponent : x.exponent = y.exponent :=
    le_antisymm (hx.exponent_le hy h.le) (hy.exponent_le hx h.ge)
  have hsignificand : (x.significand : ℚ) = y.significand := by
    rw [value, value, hexponent] at h
    exact mul_right_cancel₀ (two_zpow_pos _).ne' h
  obtain ⟨s, d⟩ := x
  obtain ⟨t, e⟩ := y
  obtain rfl : d = e := hexponent
  obtain rfl : s = t := by exact_mod_cast hsignificand
  rfl

/-! ## 3. Exponents -/

/-- **The exponent for a number**: with it the significand has 53 bits, or fewer if it is the least
    exponent. -/
structure Fits (q : ℚ) (e : ℤ) : Prop where
  least : leastExponent ≤ e
  below : q < 2 ^ (e + 53)
  full : leastExponent < e → 2 ^ (e + 52) ≤ q

theorem fits_max (hlow : 2 ^ (e + 52) ≤ q) (hhigh : q < 2 ^ (e + 53)) :
    Fits q (max leastExponent e) := by
  by_cases h : leastExponent ≤ e
  · rw [max_eq_right h]
    exact ⟨h, hhigh, fun _ => hlow⟩
  · rw [max_eq_left (by omega)]
    exact ⟨le_rfl, hhigh.trans_le (two_zpow_mono (by omega)), fun hlt => absurd hlt (lt_irrefl _)⟩

/-- A number is at least the power of two of its bits, and below the next. -/
theorem two_zpow_log2 (h : 0 < num) :
    (2 : ℚ) ^ (num.log2 : ℤ) ≤ num ∧ (num : ℚ) < 2 ^ ((num.log2 : ℤ) + 1) := by
  constructor
  · exact_mod_cast Nat.log2_self_le h.ne'
  · exact_mod_cast Nat.lt_log2_self

/-- The bits of a quotient are those of its parts, or one less. -/
theorem two_zpow_log2_sub (hnum : 0 < num) (hden : 0 < den) :
    (2 : ℚ) ^ ((num.log2 : ℤ) - den.log2 - 1) ≤ num / den ∧
      (num / den : ℚ) < 2 ^ ((num.log2 : ℤ) - den.log2 + 1) := by
  have hd : (0 : ℚ) < den := by exact_mod_cast hden
  obtain ⟨hnumlow, hnumhigh⟩ := two_zpow_log2 hnum
  obtain ⟨hdenlow, hdenhigh⟩ := two_zpow_log2 hden
  constructor
  · rw [le_div_iff₀ hd]
    calc (2 : ℚ) ^ ((num.log2 : ℤ) - den.log2 - 1) * den
        ≤ 2 ^ ((num.log2 : ℤ) - den.log2 - 1) * 2 ^ ((den.log2 : ℤ) + 1) :=
          mul_le_mul_of_nonneg_left hdenhigh.le (two_zpow_pos _).le
      _ = 2 ^ (num.log2 : ℤ) := by
          rw [← two_zpow_add]
          congr 1
          omega
      _ ≤ num := hnumlow
  · rw [div_lt_iff₀ hd]
    calc (num : ℚ) < 2 ^ ((num.log2 : ℤ) + 1) := hnumhigh
      _ = 2 ^ ((num.log2 : ℤ) - den.log2 + 1) * 2 ^ (den.log2 : ℤ) := by
          rw [← two_zpow_add]
          congr 1
          omega
      _ ≤ 2 ^ ((num.log2 : ℤ) - den.log2 + 1) * den :=
          mul_le_mul_of_nonneg_left hdenlow (two_zpow_pos _).le

/-- A quotient is compared with a power of two in whole numbers. -/
theorem two_zpow_le_div_iff (k : ℤ) (hden : 0 < den) :
    den * 2 ^ k.toNat ≤ num * 2 ^ (-k).toNat ↔ (2 : ℚ) ^ k ≤ num / den := by
  have hd : (0 : ℚ) < den := by exact_mod_cast hden
  rw [two_zpow_eq, div_le_div_iff₀ (by positivity) hd, mul_comm den]
  exact_mod_cast Iff.rfl

/-- **The exponent that is chosen fits.** -/
theorem fits_exponentFor (hnum : 0 < num) (hden : 0 < den) :
    Fits (num / den) (exponentFor num den) := by
  obtain ⟨hlow, hhigh⟩ := two_zpow_log2_sub hnum hden
  generalize hk : (num.log2 : ℤ) - den.log2 = k at hlow hhigh
  have hchosen : exponentFor num den =
      max leastExponent
        (if den * 2 ^ k.toNat ≤ num * 2 ^ (-k).toNat then k - 52 else k - 53) := by
    simp [exponentFor, hk]
  rw [hchosen]
  by_cases hle : den * 2 ^ k.toNat ≤ num * 2 ^ (-k).toNat
  · rw [if_pos hle]
    refine fits_max ?_ (hhigh.trans_eq ?_)
    · rw [Int.sub_add_cancel]
      exact (two_zpow_le_div_iff k hden).mp hle
    · congr 1
      omega
  · rw [if_neg hle]
    have hlt : (num / den : ℚ) < 2 ^ k := not_le.mp (mt (two_zpow_le_div_iff k hden).mpr hle)
    refine fits_max (hlow.trans_eq' ?_) (hlt.trans_eq ?_)
    · congr 1
      omega
    · rw [Int.sub_add_cancel]

/-! ## 4. The nearest magnitude -/

/-- **Where rounding lands**: on the grid of the exponent, at the nearest whole number of steps, and
    one exponent further if that takes one bit more. -/
structure Lands (q : ℚ) (x : Magnitude) (e : ℤ) (m : ℕ) : Prop where
  fits : Fits q e
  rounds : RoundsTo (q / 2 ^ e) m
  carried : x = if m = 2 ^ 53 then ⟨2 ^ 52, e + 1⟩ else ⟨m, e⟩

theorem exists_lands_nearest (num : ℕ) (hden : 0 < den) :
    ∃ e m, Lands (num / den) (nearest num den) e m := by
  by_cases hnum : num = 0
  · subst hnum
    refine ⟨leastExponent, 0, ⟨le_rfl, ?_, fun h => absurd h (lt_irrefl _)⟩, ?_, rfl⟩
    · rw [Nat.cast_zero, zero_div]
      exact two_zpow_pos _
    · rw [Nat.cast_zero, zero_div, zero_div]
      exact_mod_cast roundsTo_natCast 0
  · have hscale : (num / den : ℚ) / 2 ^ exponentFor num den =
        (num * 2 ^ (-exponentFor num den).toNat : ℕ) /
          (den * 2 ^ (exponentFor num den).toNat : ℕ) := by
      rw [two_zpow_eq, div_div_div_eq]
      push_cast
      rfl
    refine ⟨exponentFor num den, _, fits_exponentFor (Nat.pos_of_ne_zero hnum) hden, ?_,
      if_neg hnum⟩
    rw [hscale]
    exact roundsTo_roundDiv _ (Nat.mul_pos hden (Nat.two_pow_pos _))

section Lands

variable (h : Lands q x e m)
include h

theorem Lands.value_eq : x.value = m * 2 ^ e := by
  rw [h.carried]
  by_cases hm : m = 2 ^ 53
  · rw [if_pos hm, hm, value, two_pow_steps, two_pow_steps]
    congr 1
    push_cast
    ring
  · rw [if_neg hm]
    rfl

theorem Lands.le : m ≤ 2 ^ 53 := by
  refine h.rounds.mono (roundsTo_natCast _) ?_
  rw [div_le_iff₀ (two_zpow_pos _)]
  exact h.fits.below.le.trans_eq (two_pow_steps 53 e).symm

theorem Lands.ge (he : leastExponent < e) : 2 ^ 52 ≤ m := by
  refine (roundsTo_natCast _).mono h.rounds ?_
  rw [le_div_iff₀ (two_zpow_pos _)]
  exact (two_pow_steps 52 e).trans_le (h.fits.full he)

theorem Lands.inFormat : x.InFormat := by
  have hle := h.le
  have hleast := h.fits.least
  rw [h.carried]
  by_cases hm : m = 2 ^ 53
  · rw [if_pos hm]
    exact ⟨by norm_num, by simp only; omega, fun _ => le_rfl⟩
  · rw [if_neg hm]
    exact ⟨by simp only; omega, hleast, fun he => h.ge he⟩

/-- No number of steps is nearer. -/
theorem Lands.near_steps (k : ℕ) : |x.value - q| ≤ |(k : ℚ) * 2 ^ e - q| := by
  rw [h.value_eq, abs_steps_sub, abs_steps_sub]
  exact mul_le_mul_of_nonneg_right (h.rounds.near_all k) (two_zpow_pos _).le

/-- A value that is no number of steps is further away. -/
theorem Lands.lt_of_finer (hy : y.InFormat) (hlt : y.exponent < e) :
    |x.value - q| < |y.value - q| := by
  have hleast := hy.least
  have hfull := h.fits.full (by omega)
  have hbelow := hy.value_lt hlt
  -- the least value with as many bits lies between the two
  have hnear : |x.value - q| ≤ |2 ^ (e + 52) - q| :=
    (h.near_steps (2 ^ 52)).trans_eq (by rw [two_pow_steps, Nat.cast_ofNat])
  have hfar : |y.value - q| = q - y.value := by
    rw [abs_sub_comm, abs_of_pos (by linarith)]
  have hedge : |2 ^ (e + 52) - q| = q - 2 ^ (e + 52) := by
    rw [abs_sub_comm, abs_of_nonneg (by linarith)]
  linarith

/-- No value is nearer. -/
theorem Lands.near (hy : y.InFormat) : |x.value - q| ≤ |y.value - q| := by
  by_cases he : e ≤ y.exponent
  · obtain ⟨k, hk, -⟩ := exists_steps he
    rw [hk]
    exact h.near_steps k
  · exact (h.lt_of_finer hy (not_le.mp he)).le

/-- **Of two that are equally near the one with the even significand is taken**, and the other is
    odd. -/
theorem Lands.odd_of_equal (hy : y.InFormat) (hne : y ≠ x)
    (hequal : |y.value - q| = |x.value - q|) :
    x.significand % 2 = 0 ∧ y.significand % 2 = 1 := by
  have he : e ≤ y.exponent := by
    by_contra hlt
    exact (h.lt_of_finer hy (not_le.mp hlt)).ne' hequal
  obtain ⟨k, hk, hkeven⟩ := exists_steps he
  have hkm : k ≠ m := by
    intro hsame
    exact hne (hy.eq_of_value_eq h.inFormat (by rw [hk, h.value_eq, hsame]))
  rw [h.value_eq, hk, abs_steps_sub, abs_steps_sub] at hequal
  obtain ⟨hm, hkodd⟩ :=
    h.rounds.odd_of_equal hkm (mul_right_cancel₀ (two_zpow_pos e).ne' hequal)
  constructor
  · rw [h.carried]
    by_cases hcarry : m = 2 ^ 53
    · rw [if_pos hcarry]
      norm_num
    · rw [if_neg hcarry]
      exact hm
  · by_contra heven
    have := hkeven (by omega)
    omega

end Lands

/-- **A magnitude is the nearest to a number**, and of two that are it is the one with the even
    significand. -/
structure IsNearest (q : ℚ) (x : Magnitude) : Prop where
  inFormat : x.InFormat
  near : ∀ y : Magnitude, y.InFormat → |x.value - q| ≤ |y.value - q|
  even : ∀ y : Magnitude, y.InFormat → y ≠ x → |y.value - q| = |x.value - q| →
    x.significand % 2 = 0

theorem Lands.isNearest (h : Lands q x e m) : IsNearest q x :=
  ⟨h.inFormat, fun _ hy => h.near hy, fun _ hy hne hequal => (h.odd_of_equal hy hne hequal).1⟩

/-- Nothing else is the nearest. -/
theorem Lands.unique (h : Lands q x e m) (hy : IsNearest q y) : y = x := by
  by_contra hne
  have hequal : |y.value - q| = |x.value - q| :=
    le_antisymm (hy.near x h.inFormat) (h.near hy.inFormat)
  have hodd := (h.odd_of_equal hy.inFormat hne hequal).2
  have heven := hy.even x h.inFormat (Ne.symm hne) hequal.symm
  omega

/-- **What is computed is the nearest.** -/
theorem isNearest_nearest (num : ℕ) (hden : 0 < den) : IsNearest (num / den) (nearest num den) := by
  obtain ⟨e, m, h⟩ := exists_lands_nearest num hden
  exact h.isNearest

/-- **A sum is the nearest to the exact sum.** -/
theorem isNearest_add (x y : Magnitude) : IsNearest (x.value + y.value) (x.add y) := by
  have hx := x.toQuotient_pos
  have hy := y.toQuotient_pos
  have hx' : (x.toQuotient.2 : ℚ) ≠ 0 := by exact_mod_cast hx.ne'
  have hy' : (y.toQuotient.2 : ℚ) ≠ 0 := by exact_mod_cast hy.ne'
  have hsum : x.value + y.value =
      (x.toQuotient.1 * y.toQuotient.2 + y.toQuotient.1 * x.toQuotient.2 : ℕ) /
        (x.toQuotient.2 * y.toQuotient.2 : ℕ) := by
    rw [← value_eq_toQuotient, ← value_eq_toQuotient, div_add_div _ _ hx' hy']
    push_cast
    ring
  rw [hsum]
  exact isNearest_nearest _ (Nat.mul_pos hx hy)

/-! ## 5. What follows for the nearest -/

/-- The nearest to a number that is not negative is where rounding lands. -/
theorem IsNearest.lands (h : IsNearest q x) (hq : 0 ≤ q) : ∃ e m, Lands q x e m := by
  have hnum : (q.num.toNat : ℚ) = q.num := by
    exact_mod_cast Int.toNat_of_nonneg (Rat.num_nonneg.mpr hq)
  have hquotient : q = (q.num.toNat : ℚ) / q.den := by
    rw [hnum, Rat.num_div_den]
  obtain ⟨e, m, hlands⟩ := exists_lands_nearest q.num.toNat q.den_pos
  rw [← hquotient] at hlands
  rw [hlands.unique h]
  exact ⟨e, m, hlands⟩

theorem IsNearest.unique (hx : IsNearest q x) (hy : IsNearest q y) (hq : 0 ≤ q) : x = y := by
  obtain ⟨e, m, h⟩ := hy.lands hq
  exact h.unique hx

/-- A magnitude of the format is the nearest to its value. -/
theorem InFormat.isNearest (hx : x.InFormat) : IsNearest x.value x := by
  have hself : |x.value - x.value| = 0 := by rw [sub_self, abs_zero]
  refine ⟨hx, fun y _ => hself.trans_le (abs_nonneg _), fun y hy hne hequal => ?_⟩
  rw [hself, abs_eq_zero, sub_eq_zero] at hequal
  exact absurd (hy.eq_of_value_eq hx hequal) hne

/-- **Rounding keeps the order.** -/
theorem IsNearest.mono (hx : IsNearest q x) (hy : IsNearest r y) (hq : 0 ≤ q) (h : q ≤ r) :
    x.value ≤ y.value := by
  by_cases hqr : q = r
  · subst hqr
    rw [hx.unique hy hq]
  · by_contra hlt
    have hlow := sq_le_sq.mpr (hx.near y hy.inFormat)
    have hhigh := sq_le_sq.mpr (hy.near x hx.inFormat)
    -- crossing the two would bring both nearer
    have hcross : 0 < (x.value - y.value) * (r - q) :=
      mul_pos (sub_pos.mpr (not_le.mp hlt)) (sub_pos.mpr (lt_of_le_of_ne h hqr))
    nlinarith only [hlow, hhigh, hcross]

/-- A number is not rounded to less than a magnitude below it. -/
theorem IsNearest.le (h : IsNearest q x) (hy : y.InFormat) (hle : y.value ≤ q) :
    y.value ≤ x.value :=
  hy.isNearest.mono h y.value_nonneg hle

/-- **A whole number of at most 53 bits is its own nearest.** -/
theorem IsNearest.value_eq_natCast {n : ℕ} (h : IsNearest n x) (hn : n < 2 ^ 53) :
    x.value = n := by
  obtain ⟨e, m, hl⟩ := h.lands (Nat.cast_nonneg n)
  have hn' : (n : ℚ) < 2 ^ (53 : ℤ) := by exact_mod_cast hn
  have he : e ≤ 0 := by
    by_contra hpos
    have hfull := hl.fits.full (by unfold leastExponent; omega)
    have hle : (2 : ℚ) ^ (53 : ℤ) ≤ 2 ^ (e + 52) := two_zpow_mono (by omega)
    linarith
  have hsteps : (n : ℚ) / 2 ^ e = (n * 2 ^ (-e).toNat : ℕ) := by
    rw [two_zpow_eq, Int.toNat_of_nonpos he]
    push_cast
    rw [pow_zero, div_div_eq_mul_div, div_one]
  have hm : m = n * 2 ^ (-e).toNat :=
    hl.rounds.unique (hsteps ▸ roundsTo_natCast _)
  rw [hl.value_eq, hm, ← hsteps, div_mul_cancel₀ _ (two_zpow_pos e).ne']

/-- **Below a power of two rounding moves a number by at most half of its last bit.** -/
theorem IsNearest.abs_sub_le {k : ℤ} (h : IsNearest q x) (hq : 0 ≤ q) (hlt : q < 2 ^ k)
    (hk : leastExponent + 53 ≤ k) : |x.value - q| ≤ 2 ^ (k - 54) := by
  obtain ⟨e, m, hl⟩ := h.lands hq
  have he : e ≤ k - 53 := by
    by_cases hleast : leastExponent < e
    · have hpow : (2 : ℚ) ^ (e + 52) < 2 ^ k := (hl.fits.full hleast).trans_lt hlt
      have := (zpow_lt_zpow_iff_right₀ (by norm_num : (1 : ℚ) < 2)).mp hpow
      omega
    · omega
  rw [hl.value_eq, abs_steps_sub]
  calc |(m : ℚ) - q / 2 ^ e| * 2 ^ e ≤ 1 / 2 * 2 ^ e :=
        mul_le_mul_of_nonneg_right hl.rounds.near (two_zpow_pos e).le
    _ = 2 ^ (e - 1) := by
        rw [zpow_sub_one₀ (by norm_num), mul_comm, one_div]
    _ ≤ 2 ^ (k - 54) := two_zpow_mono (by omega)

/-- **From the whole numbers of 54 bits on every value is even.** -/
theorem InFormat.exists_even (hx : x.InFormat) (h : 2 ^ 53 ≤ x.value) :
    ∃ k : ℕ, x.value = 2 * k := by
  have he : 1 ≤ x.exponent := by
    by_contra hlt
    have hbelow := hx.value_lt (e := 1) (by omega)
    have : (2 : ℚ) ^ ((1 : ℤ) + 52) = 2 ^ 53 := by norm_num
    linarith
  obtain ⟨k, hk, -⟩ := exists_steps he
  exact ⟨k, by rw [hk, zpow_one, mul_comm]⟩

/-- **Less than one more is not seen there.** -/
theorem IsNearest.le_of_add_lt_one {a : Magnitude} {f : ℚ} (h : IsNearest (a.value + f) x)
    (ha : a.InFormat) (hbig : 2 ^ 53 ≤ a.value) (hf : 0 ≤ f) (hlt : f < 1) :
    x.value ≤ a.value := by
  by_contra hmore
  have hnear := h.near a ha
  have hself : |a.value - (a.value + f)| = f := by
    rw [abs_sub_comm, add_sub_cancel_left, abs_of_nonneg hf]
  have hbound := (abs_le.mp (hnear.trans_eq hself)).2
  -- both are even whole numbers, so the greater is at least two greater
  obtain ⟨j, hj⟩ := ha.exists_even hbig
  obtain ⟨k, hk⟩ := h.inFormat.exists_even (hbig.trans (not_le.mp hmore).le)
  have hjk : (j : ℚ) < k := by linarith
  have hstep : (j : ℚ) + 1 ≤ k := by exact_mod_cast hjk
  linarith

/-! ## 6. The range of the format -/

theorem inFormat_zero : zero.InFormat :=
  ⟨by norm_num [zero], le_rfl, fun h => absurd h (lt_irrefl _)⟩

theorem value_zero : zero.value = 0 := by
  rw [value, zero, Nat.cast_zero, zero_mul]

/-- Rounding at most doubles. -/
theorem IsNearest.value_le (h : IsNearest q x) (hq : 0 ≤ q) : x.value ≤ 2 * q := by
  have hnear := h.near zero inFormat_zero
  rw [value_zero, zero_sub, abs_neg, abs_of_nonneg hq] at hnear
  have := (abs_le.mp hnear).2
  linarith

/-- **A value below the end of the format is in its range.** -/
theorem InFormat.isFinite (hx : x.InFormat) (h : x.value < 2 ^ (1024 : ℤ)) :
    x.isFinite = true := by
  refine decide_eq_true ?_
  by_contra hlt
  have hlow := hx.le_value (by unfold leastExponent; omega)
  have hle : (2 : ℚ) ^ (1024 : ℤ) ≤ 2 ^ (x.exponent + 52) := two_zpow_mono (by omega)
  linarith

end Magnitude
end SuiteDriver.Number
