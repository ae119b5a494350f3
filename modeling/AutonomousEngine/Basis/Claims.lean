import AutonomousEngine.Basis.Sums
import Mathlib.Algebra.Order.Ring.Abs
import Mathlib.Algebra.BigOperators.Ring.List
import Mathlib.Tactic.Linarith
import Mathlib.Tactic.Ring

/-!
# Claims on places

A place has a capacity, which may be negative.  Claims have amounts of both signs and are
taken one after another, each from one place or from none.  A claim fits a place when it has
the sign of what is left there and is at most twice as large, so that it may take more than
there is and leave a rest of the other sign.

What is left never exceeds the capacity in size (`AllFit.abs_left_le`), and so the amounts
taken add up to at most twice the capacity (`AllFit.abs_taken_le`).  That the sizes of the
amounts do so takes claims with the sign of the capacity (`AllFit.sum_abs_le`).
-/

namespace Basis

variable {K ι φ : Type} [CommRing K] [LinearOrder K] [DecidableEq ι]

/-- An amount has the sign of a rest and is at most twice as large. -/
def Fits (a r : K) : Prop := 0 < a ∧ a ≤ 2 * r ∨ a < 0 ∧ 2 * r ≤ a

/-- What the claims take from a place. -/
def taken (amount : φ → K) (zs : List (φ × Option ι)) (i : ι) : K :=
  sumOver (fun z => z.2 = some i) (fun z => amount z.1) zs

/-- Every claim that is given a place fits what those before it left there. -/
def AllFit (amount : φ → K) (cap : ι → K) (zs : List (φ × Option ι)) : Prop :=
  ∀ vor f i nach, zs = vor ++ (f, some i) :: nach →
    Fits (amount f) (cap i - taken amount vor i)

variable {amount : φ → K} {cap : ι → K} {zs : List (φ × Option ι)}

omit [LinearOrder K] in
@[simp] theorem taken_nil (i : ι) : taken amount [] i = 0 := rfl

omit [LinearOrder K] in
theorem taken_cons (z : φ × Option ι) (i : ι) :
    taken amount (z :: zs) i = (if z.2 = some i then amount z.1 else 0) + taken amount zs i := by
  rw [taken, sumOver_cons, taken]
  simp only [decide_eq_true_eq]

omit [LinearOrder K] in
theorem taken_concat (z : φ × Option ι) (i : ι) :
    taken amount (zs ++ [z]) i = taken amount zs i + if z.2 = some i then amount z.1 else 0 := by
  rw [taken, sumOver_append, ← taken, ← taken, taken_cons, taken_nil, add_zero]

theorem AllFit.init {z : φ × Option ι} (h : AllFit amount cap (zs ++ [z])) :
    AllFit amount cap zs := by
  intro vor f i nach hsplit
  refine h vor f i (nach ++ [z]) ?_
  rw [hsplit, List.append_assoc, List.cons_append]

variable [IsStrictOrderedRing K]

/-- A claim that fits has the sign of the capacity unless the rest has the other one. -/
theorem Fits.pos_mul_iff {a r c : K} (h : Fits a r) (hc : |r| ≤ |c|) :
    0 < a * c ↔ ¬r * c < 0 := by
  rcases h with ⟨hpos, hle⟩ | ⟨hneg, hle⟩
  · have hr : 0 < r := by linarith
    have hne : c ≠ 0 := abs_pos.mp ((abs_pos.mpr hr.ne').trans_le hc)
    rw [mul_pos_iff_of_pos_left hpos, mul_neg_iff, and_iff_right hr, not_or, not_lt,
      and_iff_left fun h => h.1.not_gt hr]
    exact hne.symm.le_iff_lt.symm
  · have hr : r < 0 := by linarith
    have hne : c ≠ 0 := abs_pos.mp ((abs_pos.mpr hr.ne).trans_le hc)
    rw [mul_pos_iff, mul_neg_iff, and_iff_right hr, not_or, and_iff_right fun h => h.1.not_gt hr,
      or_iff_right fun h => h.1.not_gt hneg, and_iff_right hneg, not_lt]
    exact hne.le_iff_lt.symm

/-- A claim that fits leaves no more, in size, than there was. -/
theorem Fits.abs_sub_le {a r : K} (h : Fits a r) : |r - a| ≤ |r| := by
  rcases h with ⟨hpos, hle⟩ | ⟨hneg, hle⟩
  · have hr : 0 < r := by linarith
    rw [abs_of_pos hr, abs_le]
    constructor <;> linarith
  · have hr : r < 0 := by linarith
    rw [abs_of_neg hr, abs_le]
    constructor <;> linarith

theorem AllFit.abs_left_le (h : AllFit amount cap zs) (i : ι) :
    |cap i - taken amount zs i| ≤ |cap i| := by
  induction zs using List.reverseRecOn with
  | nil => rw [taken_nil, sub_zero]
  | append_singleton zs z ih =>
      obtain ⟨f, o⟩ := z
      have hzs := ih h.init
      rw [taken_concat]
      split
      next hplace =>
        obtain rfl : o = some i := hplace
        rw [← sub_sub]
        exact (h zs f i [] rfl).abs_sub_le.trans hzs
      next => rwa [add_zero]

theorem AllFit.abs_taken_le (h : AllFit amount cap zs) (i : ι) :
    |taken amount zs i| ≤ 2 * |cap i| := by
  have hleft := h.abs_left_le i
  have hsplit : taken amount zs i = cap i - (cap i - taken amount zs i) := by ring
  calc |taken amount zs i| = |cap i - (cap i - taken amount zs i)| := by rw [← hsplit]
    _ ≤ |cap i| + |cap i - taken amount zs i| := abs_sub _ _
    _ ≤ 2 * |cap i| := by linarith

/-- Claims with the sign of the capacity take at most twice as much of it, in size. -/
theorem AllFit.sum_abs_le (h : AllFit amount cap zs) {i : ι}
    (hsign : ∀ z ∈ zs, z.2 = some i → 0 < amount z.1 * cap i) :
    sumOver (fun z => z.2 = some i) (fun z => |amount z.1|) zs ≤ 2 * |cap i| := by
  have hsame : sumOver (fun z => z.2 = some i) (fun z => |amount z.1|) zs * |cap i| =
      taken amount zs i * cap i := by
    rw [taken, sumOver, sumOver, ← List.sum_map_mul_right, ← List.sum_map_mul_right]
    refine congrArg List.sum (List.map_congr_left fun z hz => ?_)
    obtain ⟨hz, hplace⟩ := List.mem_filter.mp hz
    rw [← abs_mul, abs_of_pos (hsign z hz (of_decide_eq_true hplace))]
  rcases eq_or_ne (cap i) 0 with hzero | hne
  · have hnone : sumOver (fun z => z.2 = some i) (fun z => |amount z.1|) zs = 0 := by
      refine sumOver_eq_zero fun z hz => decide_eq_false fun hplace => ?_
      have hpos := hsign z hz hplace
      rw [hzero, mul_zero] at hpos
      exact hpos.false
    rw [hnone, hzero, abs_zero, mul_zero]
  · refine le_of_mul_le_mul_right ?_ (abs_pos.mpr hne)
    calc sumOver (fun z => z.2 = some i) (fun z => |amount z.1|) zs * |cap i|
        = taken amount zs i * cap i := hsame
      _ ≤ |taken amount zs i * cap i| := le_abs_self _
      _ = |taken amount zs i| * |cap i| := abs_mul _ _
      _ ≤ 2 * |cap i| * |cap i| :=
          mul_le_mul_of_nonneg_right (h.abs_taken_le i) (abs_nonneg _)

end Basis
