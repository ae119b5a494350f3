import Mathlib.Data.Rat.Floor

/-!
# Rounding to decimal places

What `round(x, n)` does with a rational number: to the nearest multiple of
`10⁻ⁿ`, and to the even one when two are equally near.
-/

namespace Basis

/-- The nearest integer, the even one of two. -/
def roundHalfEven (x : ℚ) : ℤ :=
  if x - ⌊x⌋ < 1 / 2 then ⌊x⌋
  else if 1 / 2 < x - ⌊x⌋ then ⌊x⌋ + 1
  else if ⌊x⌋ % 2 = 0 then ⌊x⌋
  else ⌊x⌋ + 1

/-- Rounded to `n` decimal places. -/
def roundTo (n : ℕ) (x : ℚ) : ℚ := roundHalfEven (x * 10 ^ n) / 10 ^ n

theorem floor_le_roundHalfEven (x : ℚ) : ⌊x⌋ ≤ roundHalfEven x := by
  unfold roundHalfEven
  split_ifs <;> omega

@[simp] theorem roundHalfEven_intCast (k : ℤ) : roundHalfEven k = k := by
  simp [roundHalfEven]

/-- What is at least an integer is not rounded below it. -/
theorem le_roundHalfEven {k : ℤ} {x : ℚ} (h : (k : ℚ) ≤ x) : k ≤ roundHalfEven x :=
  (Int.le_floor.mpr h).trans (floor_le_roundHalfEven x)

/-- A multiple of the last place is left alone. -/
theorem roundTo_of_mul_eq {n : ℕ} {x : ℚ} {k : ℤ} (h : x * 10 ^ n = k) : roundTo n x = x := by
  have hpos : (10 : ℚ) ^ n ≠ 0 := by positivity
  rw [roundTo, h, roundHalfEven_intCast, ← h]
  field_simp

/-- What is at least a multiple of the last place is not rounded below it. -/
theorem le_roundTo {n : ℕ} {x y : ℚ} {k : ℤ} (hk : y * 10 ^ n = k) (h : y ≤ x) :
    y ≤ roundTo n x := by
  have hpos : (0 : ℚ) < 10 ^ n := by positivity
  have hle : (k : ℚ) ≤ roundHalfEven (x * 10 ^ n) := by
    have hx : (k : ℚ) ≤ x * 10 ^ n := hk ▸ mul_le_mul_of_nonneg_right h hpos.le
    exact_mod_cast le_roundHalfEven hx
  rw [roundTo, le_div_iff₀ hpos, hk]
  exact hle

/-! ## Order -/

/-- What is at most an integer is not rounded above it. -/
theorem roundHalfEven_le {k : ℤ} {x : ℚ} (h : x ≤ k) : roundHalfEven x ≤ k := by
  have hfloor : ⌊x⌋ ≤ k := by exact_mod_cast (Int.floor_le x).trans h
  rcases hfloor.lt_or_eq with hlt | heq
  · rw [roundHalfEven]
    split_ifs <;> omega
  · have hx : x = k := le_antisymm h (heq ▸ Int.floor_le x)
    rw [hx, roundHalfEven_intCast]

/-- The rounded number is no more than a half away. -/
theorem sub_half_le_roundHalfEven (x : ℚ) : x - 1 / 2 ≤ roundHalfEven x := by
  have hlt := Int.lt_floor_add_one x
  rw [roundHalfEven]
  split_ifs with h1 h2 h3
  · linarith
  · push_cast
    linarith
  · linarith
  · push_cast
    linarith

theorem roundHalfEven_le_add_half (x : ℚ) : (roundHalfEven x : ℚ) ≤ x + 1 / 2 := by
  have hle := Int.floor_le x
  rw [roundHalfEven]
  split_ifs with h1 h2 h3
  · linarith
  · push_cast
    linarith
  · linarith
  · push_cast
    linarith

theorem roundHalfEven_mono {x y : ℚ} (h : x ≤ y) : roundHalfEven x ≤ roundHalfEven y := by
  have hfloor : ⌊x⌋ ≤ ⌊y⌋ := Int.floor_mono h
  rcases hfloor.lt_or_eq with hlt | heq
  · have hx : roundHalfEven x ≤ ⌊x⌋ + 1 := by
      rw [roundHalfEven]
      split_ifs <;> omega
    exact hx.trans ((Int.add_one_le_iff.mpr hlt).trans (floor_le_roundHalfEven y))
  · rw [roundHalfEven, roundHalfEven, heq]
    split_ifs <;> first | omega | (exfalso; linarith)

theorem roundTo_mono {n : ℕ} {x y : ℚ} (h : x ≤ y) : roundTo n x ≤ roundTo n y := by
  have hpos : (0 : ℚ) < 10 ^ n := by positivity
  have hle : roundHalfEven (x * 10 ^ n) ≤ roundHalfEven (y * 10 ^ n) :=
    roundHalfEven_mono (mul_le_mul_of_nonneg_right h hpos.le)
  rw [roundTo, roundTo, div_le_div_iff_of_pos_right hpos]
  exact_mod_cast hle

theorem roundTo_min (n : ℕ) (x y : ℚ) :
    roundTo n (min x y) = min (roundTo n x) (roundTo n y) :=
  Monotone.map_min fun _ _ => roundTo_mono

theorem roundTo_max (n : ℕ) (x y : ℚ) :
    roundTo n (max x y) = max (roundTo n x) (roundTo n y) :=
  Monotone.map_max fun _ _ => roundTo_mono

/-- Two roundings that differ lie a unit of the last place apart. -/
theorem roundTo_add_le {n : ℕ} {x y : ℚ} (h : roundTo n x < roundTo n y) :
    roundTo n x + 1 / 10 ^ n ≤ roundTo n y := by
  have hpos : (0 : ℚ) < 10 ^ n := by positivity
  rw [roundTo, roundTo, div_lt_div_iff_of_pos_right hpos] at h
  have hlt : roundHalfEven (x * 10 ^ n) + 1 ≤ roundHalfEven (y * 10 ^ n) := by exact_mod_cast h
  rw [roundTo, roundTo, ← add_div, div_le_div_iff_of_pos_right hpos]
  exact_mod_cast hlt

/-- What is at most a multiple of the last place is not rounded above it. -/
theorem roundTo_le {n : ℕ} {x y : ℚ} {k : ℤ} (hk : y * 10 ^ n = k) (h : x ≤ y) :
    roundTo n x ≤ y := by
  have hround := roundTo_mono (n := n) h
  rw [roundTo_of_mul_eq hk] at hround
  exact hround

theorem roundTo_le_add (n : ℕ) (x : ℚ) : roundTo n x ≤ x + 1 / 2 / 10 ^ n := by
  have hpos : (0 : ℚ) < 10 ^ n := by positivity
  have hhalf := roundHalfEven_le_add_half (x * 10 ^ n)
  rw [roundTo, div_le_iff₀ hpos, add_mul, div_mul_cancel₀ _ hpos.ne']
  exact hhalf

theorem sub_le_roundTo (n : ℕ) (x : ℚ) : x - 1 / 2 / 10 ^ n ≤ roundTo n x := by
  have hpos : (0 : ℚ) < 10 ^ n := by positivity
  have hhalf := sub_half_le_roundHalfEven (x * 10 ^ n)
  rw [roundTo, le_div_iff₀ hpos, sub_mul, div_mul_cancel₀ _ hpos.ne']
  exact hhalf

/-- What is rounded once is not changed by rounding again. -/
@[simp] theorem roundTo_roundTo (n : ℕ) (x : ℚ) : roundTo n (roundTo n x) = roundTo n x := by
  have hpos : (10 : ℚ) ^ n ≠ 0 := by positivity
  exact roundTo_of_mul_eq (k := roundHalfEven (x * 10 ^ n)) (by rw [roundTo, div_mul_cancel₀ _ hpos])

/-- What lies close to a whole number is rounded to it. -/
theorem roundHalfEven_of_near {k : ℤ} {x : ℚ} (h : |x - k| < 1 / 2) : roundHalfEven x = k := by
  obtain ⟨hlow, hhigh⟩ := abs_lt.mp h
  have hle : (roundHalfEven x : ℚ) < (k + 1 : ℤ) := by
    push_cast
    linarith [roundHalfEven_le_add_half x]
  have hge : ((k - 1 : ℤ) : ℚ) < roundHalfEven x := by
    push_cast
    linarith [sub_half_le_roundHalfEven x]
  have hle' : roundHalfEven x < k + 1 := by exact_mod_cast hle
  have hge' : k - 1 < roundHalfEven x := by exact_mod_cast hge
  omega

theorem roundTo_of_near {n : ℕ} {x y : ℚ} {k : ℤ} (hk : y * 10 ^ n = k)
    (h : |x - y| < 1 / 2 / 10 ^ n) : roundTo n x = y := by
  have hpos : (0 : ℚ) < 10 ^ n := by positivity
  have hnear : |x * 10 ^ n - k| < 1 / 2 := by
    rw [← hk, ← sub_mul, abs_mul, abs_of_pos hpos]
    exact (lt_div_iff₀ hpos).mp h
  rw [roundTo, roundHalfEven_of_near hnear, ← hk, mul_div_cancel_right₀ _ hpos.ne']

@[simp] theorem roundHalfEven_neg (x : ℚ) : roundHalfEven (-x) = -roundHalfEven x := by
  have hle := Int.floor_le x
  have hlt := Int.lt_floor_add_one x
  rcases hle.eq_or_lt with heq | hfrac
  · rw [← heq, ← Int.cast_neg, roundHalfEven_intCast, roundHalfEven_intCast]
  · have hfloor : ⌊-x⌋ = -⌊x⌋ - 1 := by
      rw [Int.floor_eq_iff]
      push_cast
      exact ⟨by linarith, by linarith⟩
    rw [roundHalfEven, roundHalfEven, hfloor]
    push_cast
    split_ifs <;> first | omega | (exfalso; linarith)

/-! ## Cuts before a rounding -/

section

variable {α : Type*} [LinearOrder α] {f : α → α} (hf : Monotone f) (hff : ∀ x, f (f x) = f x)
include hf hff

/-- A cut from above that is rounded is not changed by the same cut and rounding. -/
theorem round_min_round (x a : α) : f (min (f (min x a)) a) = f (min x a) := by
  have hle : f (min x a) ≤ f a := hf (min_le_right x a)
  rw [hf.map_min, hff, min_eq_left hle]

theorem round_max_round (x a : α) : f (max (f (max x a)) a) = f (max x a) := by
  have hle : f a ≤ f (max x a) := hf (le_max_right x a)
  rw [hf.map_max, hff, max_eq_left hle]

end

end Basis
