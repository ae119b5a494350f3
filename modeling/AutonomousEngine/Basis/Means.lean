import Mathlib.Algebra.Order.Archimedean.Basic
import Mathlib.Algebra.Order.BigOperators.Group.List
import Mathlib.Data.List.MinMax

/-!
# Means

The mean of some values with weights, as pairs of a value and its weight, and the
shrinking of a value towards a middle from above.

The mean of a list and its sample variance, and how far both are moved by numbers
that are added.  Enough copies of one number pull the mean to it and make the
variance as small as wanted.  As many zeros as ones keep the variance away from
zero.
-/

namespace Basis

section

variable {K : Type} [Field K]

/-- The sum of the values, each times its weight. -/
def weightedSum (ps : List (K × K)) : K := (ps.map fun p => p.1 * p.2).sum

def weightSum (ps : List (K × K)) : K := (ps.map Prod.snd).sum

def weightedMean (ps : List (K × K)) : K := weightedSum ps / weightSum ps

@[simp] theorem weightedSum_cons (p : K × K) (ps : List (K × K)) :
    weightedSum (p :: ps) = p.1 * p.2 + weightedSum ps := List.sum_cons

@[simp] theorem weightSum_cons (p : K × K) (ps : List (K × K)) :
    weightSum (p :: ps) = p.2 + weightSum ps := List.sum_cons

variable [LinearOrder K] [IsStrictOrderedRing K]

theorem weightSum_nonneg {ps : List (K × K)} (h : ∀ p ∈ ps, 0 < p.2) : 0 ≤ weightSum ps := by
  refine List.sum_nonneg fun w hw => ?_
  obtain ⟨p, hp, rfl⟩ := List.mem_map.mp hw
  exact (h p hp).le

theorem weightSum_pos {ps : List (K × K)} (h : ∀ p ∈ ps, 0 < p.2) (hne : ps ≠ []) :
    0 < weightSum ps := by
  cases ps with
  | nil => exact absurd rfl hne
  | cons p ps =>
      rw [weightSum_cons]
      exact add_pos_of_pos_of_nonneg (h p (.head _)) (weightSum_nonneg fun q hq => h q (.tail _ hq))

/-- Larger values with the same weights have the larger sum. -/
theorem weightedSum_mono {ps qs : List (K × K)}
    (h : List.Forall₂ (fun p q => p.1 ≤ q.1 ∧ p.2 = q.2) ps qs) (hpos : ∀ p ∈ ps, 0 < p.2) :
    weightedSum ps ≤ weightedSum qs ∧ weightSum ps = weightSum qs := by
  induction h with
  | nil => exact ⟨le_rfl, rfl⟩
  | @cons p q ps qs hpq _ ih =>
      obtain ⟨hsum, hweight⟩ := ih fun r hr => hpos r (.tail _ hr)
      have hp := mul_le_mul_of_nonneg_right hpq.1 (hpos p (.head _)).le
      rw [weightedSum_cons, weightedSum_cons, weightSum_cons, weightSum_cons, ← hpq.2, hweight]
      exact ⟨add_le_add hp hsum, rfl⟩

theorem weightedMean_mono {ps qs : List (K × K)}
    (h : List.Forall₂ (fun p q => p.1 ≤ q.1 ∧ p.2 = q.2) ps qs) (hpos : ∀ p ∈ ps, 0 < p.2) :
    weightedMean ps ≤ weightedMean qs := by
  obtain ⟨hsum, hweight⟩ := weightedSum_mono h hpos
  rw [weightedMean, weightedMean, ← hweight]
  exact div_le_div_of_nonneg_right hsum (weightSum_nonneg hpos)

theorem mul_weightSum_le {ps : List (K × K)} {lo : K} (hpos : ∀ p ∈ ps, 0 < p.2)
    (h : ∀ p ∈ ps, lo ≤ p.1) : lo * weightSum ps ≤ weightedSum ps := by
  induction ps with
  | nil => exact (mul_zero lo).le
  | cons p ps ih =>
      have hps := ih (fun q hq => hpos q (.tail _ hq)) fun q hq => h q (.tail _ hq)
      have hp := mul_le_mul_of_nonneg_right (h p (.head _)) (hpos p (.head _)).le
      rw [weightedSum_cons, weightSum_cons, mul_add]
      exact add_le_add hp hps

theorem le_mul_weightSum {ps : List (K × K)} {hi : K} (hpos : ∀ p ∈ ps, 0 < p.2)
    (h : ∀ p ∈ ps, p.1 ≤ hi) : weightedSum ps ≤ hi * weightSum ps := by
  induction ps with
  | nil => exact (mul_zero hi).ge
  | cons p ps ih =>
      have hps := ih (fun q hq => hpos q (.tail _ hq)) fun q hq => h q (.tail _ hq)
      have hp := mul_le_mul_of_nonneg_right (h p (.head _)) (hpos p (.head _)).le
      rw [weightedSum_cons, weightSum_cons, mul_add]
      exact add_le_add hp hps

/-- The mean is not below the smallest value. -/
theorem exists_least_le_weightedMean {ps : List (K × K)} (hpos : ∀ p ∈ ps, 0 < p.2)
    (hne : ps ≠ []) : ∃ p ∈ ps, (∀ q ∈ ps, p.1 ≤ q.1) ∧ p.1 ≤ weightedMean ps := by
  obtain ⟨p, hp⟩ := Option.ne_none_iff_exists'.mp
    ((List.argmin_eq_none (f := Prod.fst)).not.mpr hne)
  have hleast : ∀ q ∈ ps, p.1 ≤ q.1 := fun q hq => List.le_of_mem_argmin hq hp
  refine ⟨p, List.argmin_mem hp, hleast, ?_⟩
  rw [weightedMean, le_div_iff₀ (weightSum_pos hpos hne)]
  exact mul_weightSum_le hpos hleast

/-- The mean is not above the largest value. -/
theorem exists_weightedMean_le_greatest {ps : List (K × K)} (hpos : ∀ p ∈ ps, 0 < p.2)
    (hne : ps ≠ []) : ∃ p ∈ ps, (∀ q ∈ ps, q.1 ≤ p.1) ∧ weightedMean ps ≤ p.1 := by
  obtain ⟨p, hp⟩ := Option.ne_none_iff_exists'.mp
    ((List.argmax_eq_none (f := Prod.fst)).not.mpr hne)
  have hgreatest : ∀ q ∈ ps, q.1 ≤ p.1 := fun q hq => List.le_of_mem_argmax hq hp
  refine ⟨p, List.argmax_mem hp, hgreatest, ?_⟩
  rw [weightedMean, div_le_iff₀ (weightSum_pos hpos hne)]
  exact le_mul_weightSum hpos hgreatest

/-! ## Shrinking -/

/-- Moves a value above the middle towards it. -/
def shrink (mid f x : K) : K := if mid < x then mid + f * (x - mid) else x

section

variable {mid f g x y : K}

omit [IsStrictOrderedRing K] in
theorem shrink_of_le (h : x ≤ mid) : shrink mid f x = x := if_neg (not_lt.mpr h)

omit [IsStrictOrderedRing K] in
theorem shrink_of_lt (h : mid < x) : shrink mid f x = mid + f * (x - mid) := if_pos h

omit [IsStrictOrderedRing K] in
theorem shrink_one (mid x : K) : shrink mid 1 x = x := by
  rw [shrink]
  split
  next => rw [one_mul, add_sub_cancel]
  next => rfl

theorem shrink_le (hf : f ≤ 1) : shrink mid f x ≤ x := by
  rcases le_or_gt x mid with h | h
  · exact (shrink_of_le h).le
  · have hmul := mul_le_mul_of_nonneg_right hf (sub_nonneg.mpr h.le)
    rw [shrink_of_lt h]
    linarith

theorem mid_le_shrink (hf : 0 ≤ f) (h : mid < x) : mid ≤ shrink mid f x := by
  have hmul := mul_nonneg hf (sub_nonneg.mpr h.le)
  rw [shrink_of_lt h]
  linarith

theorem shrink_mono (hf : 0 ≤ f) (h : x ≤ y) : shrink mid f x ≤ shrink mid f y := by
  rcases le_or_gt y mid with hy | hy
  · rw [shrink_of_le hy, shrink_of_le (h.trans hy)]
    exact h
  · rcases le_or_gt x mid with hx | hx
    · rw [shrink_of_le hx]
      exact hx.trans (mid_le_shrink hf hy)
    · have hmul := mul_le_mul_of_nonneg_left (sub_le_sub_right h mid) hf
      rw [shrink_of_lt hx, shrink_of_lt hy]
      linarith

theorem shrink_le_shrink (h : f ≤ g) : shrink mid f x ≤ shrink mid g x := by
  rcases le_or_gt x mid with hx | hx
  · rw [shrink_of_le hx, shrink_of_le hx]
  · have hmul := mul_le_mul_of_nonneg_right h (sub_nonneg.mpr hx.le)
    rw [shrink_of_lt hx, shrink_of_lt hx]
    linarith

end

end

/-! ## Mean and sample variance -/

section

/-- The mean of a list, zero for the empty one. -/
def mean (xs : List ℚ) : ℚ := xs.sum / xs.length

/-- The sum of the squared distances from a number. -/
def deviation (a : ℚ) (xs : List ℚ) : ℚ := (xs.map fun x => (x - a) ^ 2).sum

/-- The sample variance. -/
def variance (xs : List ℚ) : ℚ := deviation (mean xs) xs / (xs.length - 1)

variable {a : ℚ} {xs ys : List ℚ}

@[simp] theorem deviation_nil : deviation a [] = 0 := rfl

@[simp] theorem deviation_cons {x : ℚ} :
    deviation a (x :: xs) = (x - a) ^ 2 + deviation a xs := rfl

@[simp] theorem deviation_append :
    deviation a (xs ++ ys) = deviation a xs + deviation a ys := by
  unfold deviation
  rw [List.map_append, List.sum_append]

@[simp] theorem deviation_replicate (n : ℕ) (x : ℚ) :
    deviation a (List.replicate n x) = n * (x - a) ^ 2 := by
  unfold deviation
  rw [List.map_replicate, List.sum_replicate, nsmul_eq_mul]

theorem deviation_nonneg : 0 ≤ deviation a xs := by
  induction xs with
  | nil => exact le_rfl
  | cons x xs ih =>
      rw [deviation_cons]
      exact add_nonneg (sq_nonneg _) ih

/-- Numbers at most one away from `a`. -/
theorem deviation_le_length (h : ∀ x ∈ xs, (x - a) ^ 2 ≤ 1) : deviation a xs ≤ xs.length := by
  induction xs with
  | nil => exact le_rfl
  | cons x xs ih =>
      have hx := h x (.head _)
      have hxs := ih fun y hy => h y (.tail _ hy)
      rw [deviation_cons, List.length_cons]
      push_cast
      linarith

/-- The distances from two numbers. -/
theorem deviation_eq (a b : ℚ) (xs : List ℚ) :
    deviation b xs = deviation a xs + 2 * (a - b) * (xs.sum - xs.length * a) +
      xs.length * (a - b) ^ 2 := by
  induction xs with
  | nil => simp
  | cons x xs ih =>
      rw [deviation_cons, deviation_cons, ih, List.sum_cons, List.length_cons]
      push_cast
      ring

/-- No number is nearer to the list than its mean. -/
theorem deviation_mean_le (a : ℚ) (xs : List ℚ) : deviation (mean xs) xs ≤ deviation a xs := by
  cases xs with
  | nil => exact le_rfl
  | cons x xs =>
      have hlen : ((x :: xs).length : ℚ) ≠ 0 := by
        rw [List.length_cons]
        positivity
      have hsum : (x :: xs).sum - (x :: xs).length * mean (x :: xs) = 0 := by
        unfold mean
        field_simp
        ring
      rw [deviation_eq (mean (x :: xs)) a (x :: xs), hsum, mul_zero, add_zero]
      have := mul_nonneg (Nat.cast_nonneg (α := ℚ) (x :: xs).length)
        (sq_nonneg (mean (x :: xs) - a))
      linarith

/-- Enough ones behind a list of numbers between zero and one: the mean is above any
number below one, and the variance below any positive one. -/
theorem exists_ones {t v : ℚ} (ht : t < 1) (hv : 0 < v) (h : ∀ x ∈ xs, 0 ≤ x ∧ x ≤ 1) :
    ∃ n : ℕ, 3 ≤ n ∧ t < mean (xs ++ List.replicate n 1) ∧
      variance (xs ++ List.replicate n 1) < v := by
  have ht' : 0 < 1 - t := sub_pos.mpr ht
  obtain ⟨n, hn⟩ := exists_nat_gt (3 + |t| * xs.length / (1 - t) + xs.length / v)
  have hl : (0 : ℚ) ≤ xs.length := Nat.cast_nonneg _
  have hl₁ : 0 ≤ |t| * xs.length / (1 - t) := by positivity
  have hl₂ : 0 ≤ xs.length / v := by positivity
  have hn3 : (3 : ℚ) < n := by linarith
  have hlen : ((xs ++ List.replicate n (1 : ℚ)).length : ℚ) = xs.length + n := by
    rw [List.length_append, List.length_replicate]
    push_cast
    rfl
  refine ⟨n, by exact_mod_cast hn3.le, ?_, ?_⟩
  · have hsum : (n : ℚ) ≤ (xs ++ List.replicate n (1 : ℚ)).sum := by
      rw [List.sum_append, List.sum_replicate, nsmul_eq_mul, mul_one]
      have := List.sum_nonneg fun x hx => (h x hx).1
      linarith
    have hbound : |t| * xs.length < n * (1 - t) := by
      rw [← div_lt_iff₀ ht']
      linarith
    have habs : t * xs.length ≤ |t| * xs.length := mul_le_mul_of_nonneg_right (le_abs_self t) hl
    unfold mean
    rw [hlen, lt_div_iff₀ (by linarith)]
    linarith
  · have hdev : deviation (mean (xs ++ List.replicate n 1)) (xs ++ List.replicate n 1) ≤
        xs.length := by
      refine (deviation_mean_le 1 _).trans ?_
      rw [deviation_append, deviation_replicate]
      have hxs : deviation 1 xs ≤ xs.length := deviation_le_length fun x hx => by
        obtain ⟨h0, h1⟩ := h x hx
        nlinarith
      simpa using hxs
    have hbound : xs.length < (n - 1) * v := by
      rw [← div_lt_iff₀ hv]
      linarith
    have hsplit : v * (xs.length + n - 1) = v * xs.length + (n - 1) * v := by ring
    unfold variance
    rw [hlen, div_lt_iff₀ (by linarith), hsplit]
    have := mul_nonneg hv.le hl
    linarith

/-- Two more zeros and as many ones as there are numbers: the variance is a sixth at
least. -/
theorem le_variance_spread (xs : List ℚ) : 1 / 6 ≤ variance
    (xs ++ (List.replicate (xs.length + 2) 0 ++ List.replicate (xs.length + 2) 1)) := by
  have hl : (0 : ℚ) ≤ xs.length := Nat.cast_nonneg _
  unfold variance
  rw [deviation_append, deviation_append, deviation_replicate, deviation_replicate,
    List.length_append, List.length_append, List.length_replicate, List.length_replicate]
  push_cast
  rw [le_div_iff₀ (by linarith)]
  generalize mean _ = m
  have hdev : 0 ≤ deviation m xs := deviation_nonneg
  have hm : 1 / 2 ≤ (0 - m) ^ 2 + (1 - m) ^ 2 := by nlinarith [sq_nonneg (2 * m - 1)]
  have := mul_le_mul_of_nonneg_left hm (by linarith : (0 : ℚ) ≤ xs.length + 2)
  linarith

end

end Basis
