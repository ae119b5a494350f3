import Mathlib.Data.Sign.Defs
import Mathlib.Tactic.Linarith

/-!
# Rational numbers with infinities and NaN

The values of a floating point computation without its rounding: the rational
numbers, the two infinities, and NaN.  Sums and products follow IEEE 754.  A
comparison with NaN is false on either side, so `≤` is no preorder and `¬y < x`
does not give `x ≤ y`.  For numbers it does (`le_of_not_lt`).
-/

namespace Basis

inductive ExtRat where
  | nan
  | negInf
  | of (q : ℚ)
  | posInf
deriving DecidableEq, Repr

namespace ExtRat

/-! ## Operations -/

instance : Zero ExtRat := ⟨.of 0⟩

instance : Add ExtRat where
  add
    | .nan, _ | _, .nan => .nan
    | .posInf, .negInf | .negInf, .posInf => .nan
    | .posInf, _ | _, .posInf => .posInf
    | .negInf, _ | _, .negInf => .negInf
    | .of a, .of b => .of (a + b)

/-- The sign, and zero for NaN. -/
def sign : ExtRat → SignType
  | .nan => 0
  | .negInf => -1
  | .of q => SignType.sign q
  | .posInf => 1

/-- The infinity of a sign.  Zero times an infinity is no number. -/
def infOfSign : SignType → ExtRat
  | .neg => .negInf
  | .zero => .nan
  | .pos => .posInf

instance : Mul ExtRat where
  mul
    | .nan, _ | _, .nan => .nan
    | .of a, .of b => .of (a * b)
    | x, y => infOfSign (x.sign * y.sign)

instance : Neg ExtRat where
  neg
    | .nan => .nan
    | .negInf => .posInf
    | .of q => .of (-q)
    | .posInf => .negInf

instance : Sub ExtRat := ⟨fun x y => x + -y⟩

/-- The reciprocal of a number other than zero. -/
def inv : ExtRat → ExtRat
  | .nan => .nan
  | .negInf | .posInf => .of 0
  | .of q => .of q⁻¹

/-- Quotients, for denominators other than zero. -/
instance : Div ExtRat := ⟨fun x y => x * y.inv⟩

def abs : ExtRat → ExtRat
  | .nan => .nan
  | .of q => .of |q|
  | .negInf | .posInf => .posInf

def le : ExtRat → ExtRat → Bool
  | .nan, _ | _, .nan => false
  | .negInf, _ | _, .posInf => true
  | .of a, .of b => decide (a ≤ b)
  | .of _, .negInf | .posInf, .of _ | .posInf, .negInf => false

def lt : ExtRat → ExtRat → Bool
  | .nan, _ | _, .nan => false
  | .negInf, .negInf | .posInf, .posInf => false
  | .negInf, _ | _, .posInf => true
  | .of a, .of b => decide (a < b)
  | .of _, .negInf | .posInf, .of _ | .posInf, .negInf => false

instance : LE ExtRat := ⟨fun x y => x.le y = true⟩

instance : LT ExtRat := ⟨fun x y => x.lt y = true⟩

instance (x y : ExtRat) : Decidable (x ≤ y) := inferInstanceAs (Decidable (x.le y = true))

instance (x y : ExtRat) : Decidable (x < y) := inferInstanceAs (Decidable (x.lt y = true))

theorem le_def {x y : ExtRat} : x ≤ y ↔ x.le y = true := Iff.rfl

theorem zero_def : (0 : ExtRat) = .of 0 := rfl

@[simp] theorem of_le_of {a b : ℚ} : ExtRat.of a ≤ .of b ↔ a ≤ b := decide_eq_true_iff

@[simp] theorem of_lt_of {a b : ℚ} : ExtRat.of a < .of b ↔ a < b := decide_eq_true_iff

@[simp] theorem of_le_zero {a : ℚ} : ExtRat.of a ≤ 0 ↔ a ≤ 0 := of_le_of

@[simp] theorem zero_lt_of {a : ℚ} : 0 < ExtRat.of a ↔ 0 < a := of_lt_of

@[simp] theorem of_add_of (a b : ℚ) : ExtRat.of a + .of b = .of (a + b) := rfl

@[simp] theorem of_mul_of (a b : ℚ) : ExtRat.of a * .of b = .of (a * b) := rfl

@[simp] theorem of_sub_of (a b : ℚ) : ExtRat.of a - .of b = .of (a - b) :=
  congrArg of (sub_eq_add_neg a b).symm

@[simp] theorem of_div_of (a b : ℚ) : ExtRat.of a / .of b = .of (a / b) :=
  congrArg of (div_eq_mul_inv a b).symm

@[simp] theorem abs_of (a : ℚ) : (ExtRat.of a).abs = .of |a| := rfl

@[simp] theorem nan_add (x : ExtRat) : nan + x = nan := rfl

@[simp] theorem add_nan (x : ExtRat) : x + nan = nan := by cases x <;> rfl

@[simp] theorem nan_mul (x : ExtRat) : nan * x = nan := rfl

@[simp] theorem mul_nan (x : ExtRat) : x * nan = nan := by cases x <;> rfl

@[simp] theorem not_nan_le (x : ExtRat) : ¬nan ≤ x := by cases x <;> exact Bool.false_ne_true

@[simp] theorem not_le_nan (x : ExtRat) : ¬x ≤ nan := by cases x <;> exact Bool.false_ne_true

@[simp] theorem not_nan_lt (x : ExtRat) : ¬nan < x := by cases x <;> exact Bool.false_ne_true

@[simp] theorem not_lt_nan (x : ExtRat) : ¬x < nan := by cases x <;> exact Bool.false_ne_true

/-! ## Sums -/

instance : AddCommMonoid ExtRat where
  add_assoc x y z := by
    cases x with
    | of a =>
        cases y with
        | of b =>
            cases z with
            | of c => exact congrArg of (add_assoc a b c)
            | _ => rfl
        | _ => cases z <;> rfl
    | _ => cases y <;> cases z <;> rfl
  zero_add x := by
    cases x with
    | of q => exact congrArg of (zero_add q)
    | _ => rfl
  add_zero x := by
    cases x with
    | of q => exact congrArg of (add_zero q)
    | _ => rfl
  add_comm x y := by
    cases x with
    | of a =>
        cases y with
        | of b => exact congrArg of (add_comm a b)
        | _ => rfl
    | _ => cases y <;> rfl
  nsmul := nsmulRec

/-! ## Order -/

variable {x y z : ExtRat}

theorem ne_nan_of_le (h : x ≤ y) : x ≠ nan ∧ y ≠ nan := by
  refine ⟨?_, ?_⟩
  · rintro rfl
    exact not_nan_le y h
  · rintro rfl
    exact not_le_nan x h

theorem le_trans (h : x ≤ y) (h' : y ≤ z) : x ≤ z := by
  cases x with
  | nan => exact absurd h (not_nan_le y)
  | negInf =>
      cases z with
      | nan => exact absurd h' (not_le_nan y)
      | _ => rfl
  | of a =>
      cases y with
      | of b =>
          cases z with
          | of c => exact of_le_of.mpr ((of_le_of.mp h).trans (of_le_of.mp h'))
          | posInf => rfl
          | _ => cases h'
      | posInf =>
          cases z with
          | posInf => rfl
          | _ => cases h'
      | _ => cases h
  | posInf =>
      cases y with
      | posInf => exact h'
      | _ => cases h

/-- Numbers compare one way or the other. -/
theorem lt_trans (h : x < y) (h' : y < z) : x < z := by
  cases x with
  | nan => exact absurd h (not_nan_lt y)
  | negInf =>
      cases z with
      | nan => exact absurd h' (not_lt_nan y)
      | negInf => cases y <;> cases h'
      | _ => rfl
  | of a =>
      cases y with
      | of b =>
          cases z with
          | of c => exact of_lt_of.mpr ((of_lt_of.mp h).trans (of_lt_of.mp h'))
          | posInf => rfl
          | _ => cases h'
      | posInf => cases z <;> cases h'
      | _ => cases h
  | posInf => cases y <;> cases h

theorem le_of_not_lt (hx : x ≠ nan) (hy : y ≠ nan) (h : ¬y < x) : x ≤ y := by
  cases x with
  | nan => exact absurd rfl hx
  | negInf =>
      cases y with
      | nan => exact absurd rfl hy
      | _ => rfl
  | of a =>
      cases y with
      | nan => exact absurd rfl hy
      | negInf => exact absurd rfl h
      | of b => exact of_le_of.mpr (not_lt.mp fun hlt => h (of_lt_of.mpr hlt))
      | posInf => rfl
  | posInf =>
      cases y with
      | nan => exact absurd rfl hy
      | posInf => rfl
      | _ => exact absurd rfl h

theorem le_of_lt (h : x < y) : x ≤ y := by
  cases x with
  | nan => exact absurd h (not_nan_lt y)
  | negInf =>
      cases y with
      | nan => exact absurd h (not_lt_nan .negInf)
      | _ => rfl
  | of a =>
      cases y with
      | of b => exact of_le_of.mpr (of_lt_of.mp h).le
      | posInf => rfl
      | _ => cases h
  | posInf => cases y <;> cases h

theorem le_total (hx : x ≠ nan) (hy : y ≠ nan) : x ≤ y ∨ y ≤ x := by
  by_cases h : y < x
  · exact .inr (le_of_lt h)
  · exact .inl (le_of_not_lt hx hy h)

theorem le_self (h : x ≠ nan) : x ≤ x := (le_total h h).elim id id

theorem lt_irrefl (x : ExtRat) : ¬x < x := by
  cases x with
  | of q => exact fun h => absurd (of_lt_of.mp h) (not_lt.mpr le_rfl)
  | _ => exact fun h => by cases h

theorem lt_of_le_of_lt (h : x ≤ y) (h' : y < z) : x < z := by
  obtain ⟨hx, hy⟩ := ne_nan_of_le h
  by_cases hlt : x < y
  · exact lt_trans hlt h'
  · have heq : y ≤ x := le_of_not_lt hy hx hlt
    cases x with
    | nan => exact absurd rfl hx
    | negInf =>
        cases y with
        | negInf => exact h'
        | _ => cases heq
    | of a =>
        cases y with
        | of b => rwa [le_antisymm (of_le_of.mp h) (of_le_of.mp heq)]
        | posInf => cases heq
        | _ => cases h
    | posInf =>
        cases y with
        | posInf => exact h'
        | _ => cases h

theorem not_lt_of_le (h : x ≤ y) : ¬y < x := fun hlt => lt_irrefl x (lt_of_le_of_lt h hlt)

theorem lt_of_lt_of_le (h : x < y) (h' : y ≤ z) : x < z := by
  by_contra hn
  have hx : x ≠ nan := (ne_nan_of_le (le_of_lt h)).1
  have hzx : z ≤ x := le_of_not_lt (ne_nan_of_le h').2 hx hn
  exact not_lt_of_le (le_trans h' hzx) h

theorem nonneg_iff : 0 ≤ x ↔ x = posInf ∨ ∃ q, 0 ≤ q ∧ x = of q := by
  cases x with
  | nan => simp
  | negInf => simp [le_def, zero_def, le]
  | of q => simp [zero_def]
  | posInf => simp [le_def, zero_def, le]

theorem add_nonneg (hx : 0 ≤ x) (hy : 0 ≤ y) : 0 ≤ x + y := by
  rcases nonneg_iff.mp hx with rfl | ⟨a, ha, rfl⟩ <;>
    rcases nonneg_iff.mp hy with rfl | ⟨b, hb, rfl⟩
  · rfl
  · rfl
  · rfl
  · rw [of_add_of, zero_def, of_le_of]
    linarith

theorem add_le_add_right (hx : 0 ≤ x) (h : x ≤ y) (hz : 0 ≤ z) : x + z ≤ y + z := by
  have hy : 0 ≤ y := le_trans hx h
  rcases nonneg_iff.mp hx with rfl | ⟨a, -, rfl⟩
  · rcases nonneg_iff.mp hy with rfl | ⟨b, -, rfl⟩
    · rcases nonneg_iff.mp hz with rfl | ⟨c, -, rfl⟩ <;> rfl
    · cases h
  · rcases nonneg_iff.mp hy with rfl | ⟨b, -, rfl⟩
    · rcases nonneg_iff.mp hz with rfl | ⟨c, -, rfl⟩ <;> rfl
    · rcases nonneg_iff.mp hz with rfl | ⟨c, -, rfl⟩
      · rfl
      · rw [of_add_of, of_add_of, of_le_of]
        linarith [of_le_of.mp h]

theorem le_add_of_nonneg (hx : 0 ≤ x) (hy : 0 ≤ y) : x ≤ x + y := by
  have h := add_le_add_right (of_le_of.mpr le_rfl) hy hx
  rwa [← zero_def, zero_add, add_comm] at h

/-! ## The greater and the smaller of two numbers -/

/-- Python's `min` of two numbers. -/
def pyMin (x y : ExtRat) : ExtRat := if y < x then y else x

/-- Python's `max` of two numbers. -/
def pyMax (x y : ExtRat) : ExtRat := if x < y then y else x

/-- The greater of two numbers is the first one or above it, also beside NaN. -/
theorem eq_or_lt_pyMax : x = pyMax x y ∨ x < pyMax x y := by
  unfold pyMax
  split
  next h => exact .inr h
  next => exact .inl rfl

theorem pyMax_zero_left (h : 0 < x) : pyMax 0 x = x := if_pos h

theorem pyMax_of_of (a b : ℚ) : pyMax (.of a) (.of b) = .of (max a b) := by
  rw [pyMax]
  split
  next h => rw [max_eq_right (of_lt_of.mp h).le]
  next h => rw [max_eq_left (not_lt.mp fun hlt => h (of_lt_of.mpr hlt))]

theorem pyMin_of_of (a b : ℚ) : pyMin (.of a) (.of b) = .of (min a b) := by
  rw [pyMin]
  split
  next h => rw [min_eq_right (of_lt_of.mp h).le]
  next h => rw [min_eq_left (not_lt.mp fun hlt => h (of_lt_of.mpr hlt))]

theorem pyMin_cases : pyMin x y = x ∨ pyMin x y = y := by
  unfold pyMin
  split
  next => exact .inr rfl
  next => exact .inl rfl

theorem pyMin_le_left (hx : x ≠ nan) : pyMin x y ≤ x := by
  unfold pyMin
  split
  next h => exact le_of_lt h
  next => exact le_self hx

theorem pyMin_le_right (hx : x ≠ nan) (hy : y ≠ nan) : pyMin x y ≤ y := by
  unfold pyMin
  split
  next => exact le_self hy
  next h => exact le_of_not_lt hx hy h

theorem abs_of_nonneg (h : 0 ≤ x) : x.abs = x := by
  rcases nonneg_iff.mp h with rfl | ⟨q, hq, rfl⟩
  · rfl
  · rw [abs_of, abs_eq_self.mpr hq]

theorem abs_nonneg (h : x ≠ nan) : 0 ≤ x.abs := by
  cases x with
  | nan => exact absurd rfl h
  | of q => exact of_le_of.mpr (by positivity)
  | negInf => rfl
  | posInf => rfl

@[simp] theorem abs_nan : abs nan = nan := rfl

/-! ## Products and differences under a bound -/

theorem posInf_mul (z : ExtRat) : posInf * z = infOfSign z.sign := by
  cases z with
  | nan => rfl
  | _ => exact congrArg infOfSign (one_mul _)

theorem of_mul_posInf {q : ℚ} (h : 0 < q) : of q * posInf = posInf := by
  show infOfSign (SignType.sign q * 1) = posInf
  rw [sign_pos h]
  rfl

theorem of_mul_negInf {q : ℚ} (h : 0 < q) : of q * negInf = negInf := by
  show infOfSign (SignType.sign q * -1) = negInf
  rw [sign_pos h]
  rfl

theorem not_posInf_lt (x : ExtRat) : ¬posInf < x := by
  cases x <;> exact fun h => by cases h

/-- A product with an infinite factor that is below anything has a negative factor. -/
theorem sign_of_posInf_mul_lt {d : ExtRat} (h : posInf * y < d) : y.sign = -1 := by
  rw [posInf_mul] at h
  cases hs : y.sign with
  | neg => rfl
  | zero =>
      rw [hs] at h
      exact absurd h (not_nan_lt d)
  | pos =>
      rw [hs] at h
      exact absurd h (not_posInf_lt d)

theorem sign_of_le (h : x ≤ y) (hy : y.sign = -1) : x.sign = -1 := by
  cases x with
  | nan => exact absurd h (not_nan_le y)
  | negInf => rfl
  | of a =>
      cases y with
      | of b => exact sign_neg ((of_le_of.mp h).trans_lt (sign_eq_neg_one_iff.mp hy))
      | posInf => cases hy
      | _ => cases h
  | posInf =>
      cases y with
      | posInf => cases hy
      | _ => cases h

/-- A positive factor keeps the order below a bound. -/
theorem mul_lt_of_le {c d : ExtRat} (hc : 0 < c) (h : x ≤ y) (hd : c * y < d) : c * x < d := by
  cases c with
  | nan => cases hc
  | negInf => cases hc
  | of q =>
      have hq : 0 < q := zero_lt_of.mp hc
      cases y with
      | nan => exact absurd h (not_le_nan x)
      | posInf =>
          rw [of_mul_posInf hq] at hd
          exact absurd hd (not_posInf_lt d)
      | negInf =>
          cases x with
          | negInf => exact hd
          | _ => cases h
      | of b =>
          cases x with
          | nan => exact absurd h (not_nan_le (.of b))
          | posInf => cases h
          | negInf =>
              rw [of_mul_negInf hq]
              exact lt_of_le_of_lt (y := of (q * b)) rfl hd
          | of a =>
              have hle : of (q * a) ≤ of (q * b) :=
                of_le_of.mpr (mul_le_mul_of_nonneg_left (of_le_of.mp h) hq.le)
              exact lt_of_le_of_lt hle hd
  | posInf =>
      have hy := sign_of_posInf_mul_lt hd
      rw [posInf_mul, hy] at hd
      rwa [posInf_mul, sign_of_le h hy]

/-- A part of a positive number is below a loss that is a greater part of it. -/
theorem mul_lt_sub_of_le_div {c e s : ExtRat} (hc : 0 < c) (hs : 0 < s) (h : s ≤ (c - e) / c)
    (hx : x < s) : c * x < c - e := by
  cases c with
  | nan => cases hc
  | negInf => cases hc
  | posInf =>
      have hnan : (posInf - e) / posInf = nan := by cases e <;> rfl
      rw [hnan] at h
      exact absurd h (not_le_nan s)
  | of q =>
      have hq : 0 < q := zero_lt_of.mp hc
      cases e with
      | nan => exact absurd h (not_le_nan s)
      | posInf =>
          have hbot : (of q - posInf) / of q = negInf := by
            show infOfSign (-1 * SignType.sign q⁻¹) = negInf
            rw [sign_pos (inv_pos.mpr hq)]
            rfl
          rw [hbot] at h
          exact absurd (lt_trans (x := negInf) rfl hs) (not_lt_of_le h)
      | negInf =>
          show of q * x < posInf
          cases x with
          | nan => exact absurd hx (not_nan_lt s)
          | posInf => exact absurd hx (not_posInf_lt s)
          | negInf =>
              rw [of_mul_negInf hq]
              rfl
          | of a => rfl
      | of r =>
          rw [of_sub_of, of_div_of] at h
          rw [of_sub_of]
          cases s with
          | nan => exact absurd hs (not_lt_nan 0)
          | negInf => cases hs
          | posInf => cases h
          | of b =>
              have hb : q * b ≤ q - r := by
                have := (le_div_iff₀ hq).mp (of_le_of.mp h)
                rwa [mul_comm]
              cases x with
              | nan => exact absurd hx (not_nan_lt (.of b))
              | posInf => exact absurd hx (not_posInf_lt (.of b))
              | negInf =>
                  rw [of_mul_negInf hq]
                  rfl
              | of a =>
                  rw [of_mul_of, of_lt_of]
                  exact (mul_lt_mul_of_pos_left (of_lt_of.mp hx) hq).trans_le hb

theorem not_lt_negInf (x : ExtRat) : ¬x < negInf := by
  cases x <;> exact fun h => by cases h

/-- What is below a sum is below that with a greater number. -/
theorem lt_add_of_le {c k z : ExtRat} (h : c ≤ k) (hx : x < c + z) : x < k + z := by
  cases z with
  | nan =>
      rw [add_nan] at hx
      exact absurd hx (not_lt_nan x)
  | negInf =>
      cases c with
      | nan => exact absurd hx (not_lt_nan x)
      | posInf => exact absurd hx (not_lt_nan x)
      | _ => exact absurd hx (not_lt_negInf x)
  | posInf =>
      cases c with
      | nan => exact absurd hx (not_lt_nan x)
      | negInf => exact absurd hx (not_lt_nan x)
      | of a =>
          cases k with
          | of b => exact hx
          | posInf => exact hx
          | _ => cases h
      | posInf =>
          cases k with
          | posInf => exact hx
          | _ => cases h
  | of r =>
      cases c with
      | nan => exact absurd hx (not_lt_nan x)
      | negInf => exact absurd hx (not_lt_negInf x)
      | posInf =>
          cases k with
          | posInf => exact hx
          | _ => cases h
      | of a =>
          cases k with
          | nan => exact absurd h (not_le_nan (.of a))
          | negInf => cases h
          | of b => exact lt_of_lt_of_le hx (of_le_of.mpr (by linarith [of_le_of.mp h]))
          | posInf => exact lt_trans hx (y := of (a + r)) rfl

theorem lt_sub_of_le {c k z : ExtRat} (h : c ≤ k) (hx : x < c - z) : x < k - z :=
  lt_add_of_le h hx

/-! ## The numbers -/

theorem le_antisymm (h : x ≤ y) (h' : y ≤ x) : x = y := by
  cases x with
  | nan => exact absurd h (not_nan_le y)
  | negInf => cases y <;> first | rfl | cases h'
  | posInf => cases y <;> first | rfl | cases h
  | of a =>
      cases y with
      | of b => rw [(of_le_of.mp h).antisymm (of_le_of.mp h')]
      | nan => exact absurd h (not_le_nan _)
      | negInf => cases h
      | posInf => cases h'

theorem lt_iff_le_not_le (hx : x ≠ nan) (hy : y ≠ nan) : x < y ↔ x ≤ y ∧ ¬y ≤ x := by
  constructor
  · exact fun h => ⟨le_of_lt h, fun h' => lt_irrefl _ (lt_of_lt_of_le h h')⟩
  · intro h
    by_contra hlt
    exact h.2 (le_of_not_lt hy hx hlt)

/-- The values but NaN, which are ordered. -/
abbrev Number : Type := {x : ExtRat // x ≠ nan}

instance : LinearOrder Number where
  le x y := x.1 ≤ y.1
  lt x y := x.1 < y.1
  le_refl x := le_self x.2
  le_trans _ _ _ := le_trans
  lt_iff_le_not_ge x y := lt_iff_le_not_le x.2 y.2
  le_antisymm _ _ h h' := Subtype.ext (le_antisymm h h')
  le_total x y := le_total x.2 y.2
  toDecidableLE x y := inferInstanceAs (Decidable (x.1 ≤ y.1))

end ExtRat

end Basis
