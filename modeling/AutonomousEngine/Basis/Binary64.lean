import AutonomousEngine.Basis.Rounding
import Mathlib.Data.Int.Log

/-!
# Rounding to doubles

A finite double is taken as the rational number it stands for.  What a computation makes
of doubles, and what a literal is read as, is the double next to the exact number, and the
even one of two (`nearest`).  It has 53 binary digits, and no place below `2⁻¹⁰⁷⁴`.

Rounding keeps the order (`nearest_mono`) and is off by no more than half of the last
place.  So a decimal number with few digits can be told from its double
(`roundTo_nearest`).
-/

namespace Basis

/-- The exponent of the last place of the doubles next to a number. -/
def ulpExp (x : ℚ) : ℤ := max (Int.log 2 |x| - 52) (-1074)

/-- The double next to a number. -/
def nearest (x : ℚ) : ℚ := roundHalfEven (x / 2 ^ ulpExp x) * 2 ^ ulpExp x

/-! ## Bounds on the last place -/

section

variable {x y : ℚ}

theorem ulp_pos (x : ℚ) : (0 : ℚ) < 2 ^ ulpExp x := zpow_pos (by norm_num) _

@[simp] theorem ulpExp_neg (x : ℚ) : ulpExp (-x) = ulpExp x := by
  rw [ulpExp, abs_neg, ulpExp]

theorem ulpExp_mono (hx : 0 < x) (h : x ≤ y) : ulpExp x ≤ ulpExp y := by
  have hlog : Int.log 2 |x| ≤ Int.log 2 |y| :=
    Int.log_mono_right (abs_pos.mpr hx.ne') (abs_le_abs_of_nonneg hx.le h)
  exact max_le_max_right _ (by omega)

theorem ulpExp_le {n : ℕ} (h : |x| ≤ 2 ^ n) : ulpExp x ≤ n - 52 := by
  refine max_le ?_ (by omega)
  rcases eq_or_ne x 0 with rfl | hx
  · rw [abs_zero, Int.log_zero_right]
    omega
  · have hpos : 0 < |x| := abs_pos.mpr hx
    have hlog : ((2 : ℕ) : ℚ) ^ Int.log 2 |x| ≤ (2 : ℕ) ^ (n : ℤ) :=
      (Int.zpow_log_le_self one_lt_two hpos).trans (by exact_mod_cast h)
    have hle : Int.log 2 |x| ≤ n := (zpow_le_zpow_iff_right₀ (by norm_num)).mp hlog
    omega

/-- A power of two is a multiple of a smaller one. -/
theorem zpow_eq_mul {u e : ℤ} (h : u ≤ e) :
    (2 : ℚ) ^ e = ((2 ^ (e - u).toNat : ℤ) : ℚ) * 2 ^ u := by
  have hnat : ((e - u).toNat : ℤ) = e - u := Int.toNat_of_nonneg (by omega)
  push_cast
  rw [← zpow_natCast, hnat, ← zpow_add₀ (by norm_num), sub_add_cancel]

/-! ## Rounding -/

@[simp] theorem nearest_neg (x : ℚ) : nearest (-x) = -nearest x := by
  rw [nearest, ulpExp_neg, neg_div, roundHalfEven_neg, nearest]
  push_cast
  ring

@[simp] theorem nearest_zero : nearest 0 = 0 := by simp [nearest, roundHalfEven]

/-- A multiple of the last place is not crossed. -/
theorem le_nearest {m : ℤ} (h : m * 2 ^ ulpExp x ≤ x) : m * 2 ^ ulpExp x ≤ nearest x := by
  have hm : (m : ℚ) ≤ x / 2 ^ ulpExp x := (le_div_iff₀ (ulp_pos x)).mpr h
  exact mul_le_mul_of_nonneg_right (by exact_mod_cast le_roundHalfEven hm) (ulp_pos x).le

theorem nearest_le {m : ℤ} (h : x ≤ m * 2 ^ ulpExp x) : nearest x ≤ m * 2 ^ ulpExp x := by
  have hm : x / 2 ^ ulpExp x ≤ m := (div_le_iff₀ (ulp_pos x)).mpr h
  exact mul_le_mul_of_nonneg_right (by exact_mod_cast roundHalfEven_le hm) (ulp_pos x).le

theorem nearest_nonneg (h : 0 ≤ x) : 0 ≤ nearest x := by
  have hle := le_nearest (x := x) (m := 0) (by simpa using h)
  simpa using hle

/-- The power of two below a number is below its double too. -/
theorem nearest_mono_of_pos (hx : 0 < x) (h : x ≤ y) : nearest x ≤ nearest y := by
  rcases (ulpExp_mono hx h).eq_or_lt with heq | hlt
  · rw [nearest, nearest, heq]
    refine mul_le_mul_of_nonneg_right ?_ (ulp_pos y).le
    exact_mod_cast roundHalfEven_mono (div_le_div_of_nonneg_right h (ulp_pos y).le)
  · -- a power of two lies between them, and both grids have it
    have hy : 0 < y := hx.trans_le h
    have hxabs : |x| = x := abs_of_pos hx
    have hyabs : |y| = y := abs_of_pos hy
    have hlow : Int.log 2 x - 52 ≤ ulpExp x := by
      rw [ulpExp, hxabs]
      exact le_max_left _ _
    have hnormal : -1074 ≤ ulpExp x := le_max_right _ _
    have hexp : ulpExp y = Int.log 2 y - 52 := by
      have hmax : ulpExp y = max (Int.log 2 y - 52) (-1074) := by rw [ulpExp, hyabs]
      rw [hmax] at hlt ⊢
      exact max_eq_left (by omega)
    have hxlt : x ≤ 2 ^ Int.log 2 y := by
      have hsucc := Int.lt_zpow_succ_log_self (b := 2) one_lt_two x
      refine hsucc.le.trans ?_
      exact_mod_cast zpow_le_zpow_right₀ (one_le_two (α := ℚ)) (by omega)
    have hyle : (2 : ℚ) ^ Int.log 2 y ≤ y := by
      exact_mod_cast Int.zpow_log_le_self (b := 2) one_lt_two hy
    calc nearest x ≤ 2 ^ Int.log 2 y := by
          rw [zpow_eq_mul (u := ulpExp x) (by omega)] at hxlt ⊢
          exact nearest_le hxlt
      _ ≤ nearest y := by
          rw [zpow_eq_mul (u := ulpExp y) (by omega)] at hyle ⊢
          exact le_nearest hyle

theorem nearest_mono : Monotone nearest := by
  intro x y h
  rcases lt_trichotomy x 0 with hx | rfl | hx
  · rcases lt_or_ge y 0 with hy | hy
    · have hneg := nearest_mono_of_pos (neg_pos.mpr hy) (neg_le_neg h)
      rw [nearest_neg, nearest_neg] at hneg
      exact neg_le_neg_iff.mp hneg
    · have hneg := nearest_nonneg (neg_nonneg.mpr hx.le)
      rw [nearest_neg] at hneg
      exact (neg_nonneg.mp hneg).trans (nearest_nonneg hy)
  · rw [nearest_zero]
    exact nearest_nonneg h
  · exact nearest_mono_of_pos hx h

/-! ## Doubles -/

/-- A multiple of its last place is a double. -/
theorem nearest_of_mul_eq {m : ℤ} (h : m * 2 ^ ulpExp x = x) : nearest x = x :=
  le_antisymm ((nearest_le h.ge).trans_eq h) (h.symm.trans_le (le_nearest h.le))

/-- What is rounded is a double. -/
@[simp] theorem nearest_nearest (x : ℚ) : nearest (nearest x) = nearest x := by
  rcases eq_or_ne (nearest x) 0 with hzero | hne
  · rw [hzero, nearest_zero]
  have hnormal : -1074 ≤ ulpExp x := le_max_right _ _
  have hbound : |nearest x| ≤ 2 ^ (ulpExp x + 53) := by
    have hpower : (2 : ℚ) ^ (ulpExp x + 53) = ((2 ^ 53 : ℤ) : ℚ) * 2 ^ ulpExp x := by
      rw [zpow_eq_mul (u := ulpExp x) (by omega), add_sub_cancel_left]
      rfl
    have habs : |x| ≤ 2 ^ (ulpExp x + 53) := by
      have hlog : Int.log 2 |x| - 52 ≤ ulpExp x := le_max_left _ _
      refine (Int.lt_zpow_succ_log_self (b := 2) one_lt_two |x|).le.trans ?_
      exact_mod_cast zpow_le_zpow_right₀ (one_le_two (α := ℚ)) (by omega)
    obtain ⟨hlow, hhigh⟩ := abs_le.mp habs
    rw [hpower] at hlow hhigh ⊢
    rw [← neg_mul, ← Int.cast_neg] at hlow
    refine abs_le.mpr ⟨?_, nearest_le hhigh⟩
    rw [← neg_mul, ← Int.cast_neg]
    exact le_nearest hlow
  have hpos : 0 < |nearest x| := abs_pos.mpr hne
  have hself : ((2 : ℕ) : ℚ) ^ Int.log 2 |nearest x| ≤ |nearest x| :=
    Int.zpow_log_le_self one_lt_two hpos
  have hlog : Int.log 2 |nearest x| ≤ ulpExp x + 53 :=
    (zpow_le_zpow_iff_right₀ (by norm_num)).mp (hself.trans (by exact_mod_cast hbound))
  rcases hlog.eq_or_lt with heq | hlt
  · -- rounding has led to the next power of two
    have hulp : ulpExp (nearest x) = ulpExp x + 1 := by
      rw [ulpExp.eq_def (nearest x), heq, max_eq_left (by omega)]
      omega
    have hpower : ((2 ^ 52 : ℤ) : ℚ) * 2 ^ ulpExp (nearest x) = |nearest x| := by
      have hself' : (2 : ℚ) ^ (ulpExp x + 53) ≤ |nearest x| := by exact_mod_cast heq ▸ hself
      have hdigits := zpow_eq_mul (u := ulpExp x + 1) (e := ulpExp x + 53) (by omega)
      rw [add_sub_add_left_eq_sub] at hdigits
      rw [le_antisymm hbound hself', hulp, hdigits]
      rfl
    rcases abs_choice (nearest x) with habs | habs
    · exact nearest_of_mul_eq (hpower.trans habs)
    · refine nearest_of_mul_eq (m := -2 ^ 52) ?_
      rw [habs] at hpower
      rw [Int.cast_neg, neg_mul, hpower, neg_neg]
  · have hulp : ulpExp (nearest x) ≤ ulpExp x := max_le (by omega) hnormal
    refine nearest_of_mul_eq
      (m := roundHalfEven (x / 2 ^ ulpExp x) * 2 ^ (ulpExp x - ulpExp (nearest x)).toNat) ?_
    rw [Int.cast_mul, mul_assoc, ← zpow_eq_mul hulp]
    rfl

theorem nearest_min (x y : ℚ) : nearest (min x y) = min (nearest x) (nearest y) :=
  nearest_mono.map_min

theorem nearest_max (x y : ℚ) : nearest (max x y) = max (nearest x) (nearest y) :=
  nearest_mono.map_max

/-! ## The error of a rounding -/

/-- A double is no more than half of the last place away. -/
theorem abs_nearest_sub_le {n : ℕ} (h : |x| ≤ 2 ^ n) : |nearest x - x| ≤ 2 ^ n / 2 ^ 53 := by
  have hhalf : |(roundHalfEven (x / 2 ^ ulpExp x) : ℚ) - x / 2 ^ ulpExp x| ≤ 1 / 2 := by
    have hlow := sub_half_le_roundHalfEven (x / 2 ^ ulpExp x)
    have hhigh := roundHalfEven_le_add_half (x / 2 ^ ulpExp x)
    exact abs_le.mpr ⟨by linarith, by linarith⟩
  have hscale : nearest x - x =
      ((roundHalfEven (x / 2 ^ ulpExp x) : ℚ) - x / 2 ^ ulpExp x) * 2 ^ ulpExp x := by
    rw [nearest, sub_mul, div_mul_cancel₀ _ (ulp_pos x).ne']
  have hulp : (2 : ℚ) ^ ulpExp x ≤ 2 ^ n / 2 ^ 52 := by
    have hle := zpow_le_zpow_right₀ (one_le_two (α := ℚ)) (ulpExp_le h)
    rw [zpow_sub₀ (by norm_num)] at hle
    exact_mod_cast hle
  rw [hscale, abs_mul, abs_of_pos (ulp_pos x)]
  calc _ ≤ 1 / 2 * (2 ^ n / 2 ^ 52) := mul_le_mul hhalf hulp (ulp_pos x).le (by norm_num)
    _ = 2 ^ n / 2 ^ 53 := by ring

/-- A decimal number with few digits is found again in its double. -/
theorem roundTo_nearest {d n : ℕ} {k : ℤ} (hk : x * 10 ^ d = k) (hx : |x| ≤ 2 ^ n)
    (hn : 2 * 10 ^ d * 2 ^ n < 2 ^ 53) : roundTo d (nearest x) = x := by
  refine roundTo_of_near hk ((abs_nearest_sub_le hx).trans_lt ?_)
  have hn' : (2 : ℚ) * 10 ^ d * 2 ^ n < 2 ^ 53 := by exact_mod_cast hn
  rw [div_div, div_lt_div_iff₀ (by positivity) (by positivity)]
  linarith

/-- Decimal numbers that are found again keep their order. -/
theorem nearest_lt_nearest_iff {d : ℕ} (hx : roundTo d (nearest x) = x)
    (hy : roundTo d (nearest y) = y) : nearest x < nearest y ↔ x < y := by
  refine ⟨fun h => not_le.mp fun hle => absurd (nearest_mono hle) (not_le.mpr h), fun h => ?_⟩
  refine lt_of_le_of_ne (nearest_mono h.le) fun heq => h.ne ?_
  rw [← hx, ← hy, heq]

/-- A whole number of no more than 53 digits is a double. -/
theorem nearest_intCast {m : ℤ} (h : |(m : ℚ)| ≤ 2 ^ 52) : nearest (m : ℚ) = m := by
  have hexp : ulpExp m ≤ 0 := by simpa using ulpExp_le (n := 52) h
  have hwhole : (m : ℚ) / 2 ^ ulpExp m = ((m * 2 ^ (-ulpExp m).toNat : ℤ) : ℚ) := by
    have hnat : ((-ulpExp (m : ℚ)).toNat : ℤ) = -ulpExp (m : ℚ) := Int.toNat_of_nonneg (by omega)
    push_cast
    rw [← zpow_natCast, hnat, zpow_neg, div_eq_mul_inv]
  rw [nearest, hwhole, roundHalfEven_intCast, ← hwhole, div_mul_cancel₀ _ (ulp_pos _).ne']

end

end Basis
