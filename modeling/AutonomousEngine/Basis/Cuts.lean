import AutonomousEngine.Basis.ExtRat

/-!
# Cutting a number

A row of rules cuts a number one after another.  A cut from above takes the smaller of the
number and its own value, a cut from below the larger one.

The order of the rules does not matter exactly when no cut from below lies above a cut from
above (`runCuts_perm_iff`).  Every cut keeps the order of two numbers, so one more cut from
above never makes the result larger (`runCuts_insert_le`).

A program that cuts floating point numbers compares with `<` and `>`.  No comparison holds of NaN.
So NaN is never cut, a cut by NaN does nothing, and on the other values the program's cuts are
these (`applyFloat_val`).
-/

namespace Basis

/-- What a rule does to a number. -/
inductive Cut (α : Type*) where
  | keep
  | lower (v : α)
  | raise (v : α)

variable {α : Type*} {ρ : Type*} [LinearOrder α]

def Cut.apply : Cut α → α → α
  | .keep, x => x
  | .lower v, x => min x v
  | .raise v, x => max x v

/-- The number after the cuts of some rules. -/
def runCuts (cut : ρ → Cut α) (x : α) (l : List ρ) : α := l.foldl (fun x r => (cut r).apply x) x

variable {cut : ρ → Cut α} {x y u v : α} {l l' : List ρ} {r r' : ρ}

@[simp] theorem runCuts_nil : runCuts cut x [] = x := rfl

@[simp] theorem runCuts_cons : runCuts cut x (r :: l) = runCuts cut ((cut r).apply x) l := rfl

theorem runCuts_append : runCuts cut x (l ++ l') = runCuts cut (runCuts cut x l) l' :=
  List.foldl_append

/-! ## The order of the rules -/

/-- Cuts from above and from below commute when the one from below lies below. -/
theorem max_min_comm (h : u ≤ v) : max (min x v) u = min (max x u) v := by
  rw [max_min_distrib_right, max_eq_left h]

theorem Cut.apply_comm {c d : Cut α} (hcd : ∀ u v, c = .raise u → d = .lower v → u ≤ v)
    (hdc : ∀ u v, d = .raise u → c = .lower v → u ≤ v) :
    d.apply (c.apply x) = c.apply (d.apply x) := by
  cases c with
  | keep => rfl
  | lower v =>
      cases d with
      | keep => rfl
      | lower w => exact min_right_comm x v w
      | raise u => exact max_min_comm (hdc u v rfl rfl)
  | raise u =>
      cases d with
      | keep => rfl
      | lower v => exact (max_min_comm (hcd u v rfl rfl)).symm
      | raise w => exact max_right_comm x u w

theorem runCuts_perm
    (h : ∀ r ∈ l, ∀ r' ∈ l, ∀ u v, cut r = .raise u → cut r' = .lower v → u ≤ v)
    (hperm : l.Perm l') : runCuts cut x l = runCuts cut x l' :=
  hperm.foldl_eq' (fun r hr r' hr' _ => Cut.apply_comm (h r hr r' hr') (h r' hr' r hr)) x

/-- Behind a cut from below the number is not below it. -/
theorem le_runCuts_concat (h : cut r = .raise u) : u ≤ runCuts cut x (l ++ [r]) := by
  rw [runCuts_append, runCuts_cons, runCuts_nil, h]
  exact le_max_right _ _

/-- Behind a cut from above the number is not above it. -/
theorem runCuts_concat_le (h : cut r = .lower v) : runCuts cut x (l ++ [r]) ≤ v := by
  rw [runCuts_append, runCuts_cons, runCuts_nil, h]
  exact min_le_right _ _

/-- Two different rules may stand at the two ends. -/
theorem exists_perm_ends (hr : r ∈ l) (hr' : r' ∈ l) (hne : r ≠ r') :
    ∃ m, l.Perm (r :: (m ++ [r'])) ∧ l.Perm (r' :: (m ++ [r])) := by
  obtain ⟨s, t, rfl⟩ := List.append_of_mem hr
  have hmem : r' ∈ s ++ t := by
    rcases List.mem_append.mp hr' with h | h
    · exact List.mem_append_left _ h
    · rcases List.mem_cons.mp h with rfl | h
      · exact absurd rfl hne
      · exact List.mem_append_right _ h
  obtain ⟨a, b, hab⟩ := List.append_of_mem hmem
  have hfirst : (s ++ r :: t).Perm (r :: r' :: (a ++ b)) := by
    refine List.perm_middle.trans (List.Perm.cons r ?_)
    rw [hab]
    exact List.perm_middle
  refine ⟨a ++ b, hfirst.trans (List.Perm.cons r ?_), ?_⟩
  · exact (List.perm_append_singleton r' (a ++ b)).symm
  · refine hfirst.trans ((List.Perm.swap r' r _).trans (List.Perm.cons r' ?_))
    exact (List.perm_append_singleton r (a ++ b)).symm

/-- The number is the same in every order of the rules exactly when no cut from below lies
above a cut from above. -/
theorem runCuts_perm_iff : (∀ l', l'.Perm l → runCuts cut x l' = runCuts cut x l) ↔
    ∀ r ∈ l, ∀ r' ∈ l, ∀ u v, cut r = .raise u → cut r' = .lower v → u ≤ v := by
  constructor
  · intro h r hr r' hr' u v hraise hlower
    have hne : r ≠ r' := by
      rintro rfl
      rw [hraise] at hlower
      cases hlower
    obtain ⟨m, hup, hdown⟩ := exists_perm_ends hr hr' hne
    calc u ≤ runCuts cut x (r' :: (m ++ [r])) := le_runCuts_concat (l := r' :: m) hraise
      _ = runCuts cut x l := h _ hdown.symm
      _ = runCuts cut x (r :: (m ++ [r'])) := (h _ hup.symm).symm
      _ ≤ v := runCuts_concat_le (l := r :: m) hlower
  · intro h l' hperm
    exact (runCuts_perm h hperm.symm).symm

/-! ## One more rule -/

theorem Cut.apply_mono (c : Cut α) (h : x ≤ y) : c.apply x ≤ c.apply y := by
  cases c with
  | keep => exact h
  | lower v => exact min_le_min_right v h
  | raise v => exact max_le_max_right v h

theorem runCuts_mono (h : x ≤ y) : runCuts cut x l ≤ runCuts cut y l := by
  induction l generalizing x y with
  | nil => exact h
  | cons r l ih => exact ih ((cut r).apply_mono h)

/-- One more rule that does not raise the number does not raise the result. -/
theorem runCuts_insert_le (h : ∀ u, cut r ≠ .raise u) :
    runCuts cut x (l ++ r :: l') ≤ runCuts cut x (l ++ l') := by
  rw [runCuts_append, runCuts_append, runCuts_cons]
  refine runCuts_mono ?_
  cases hr : cut r with
  | keep => exact le_rfl
  | lower v => exact min_le_left _ _
  | raise u => exact absurd hr (h u)

/-! ## Floating point numbers -/

open ExtRat (Number nan)

/-- A cut as a program makes it, with a comparison. -/
def Cut.applyFloat : Cut ExtRat → ExtRat → ExtRat
  | .keep, x => x
  | .lower v, x => if v < x then v else x
  | .raise v, x => if x < v then v else x

/-- The value after the program's cuts. -/
def runFloatCuts (cut : ρ → Cut ExtRat) (x : ExtRat) (l : List ρ) : ExtRat :=
  l.foldl (fun x r => (cut r).applyFloat x) x

/-- The cut of a number that a program's cut is. -/
def Cut.toNumber : Cut ExtRat → Cut Number
  | .keep => .keep
  | .lower v => if h : v ≠ nan then .lower ⟨v, h⟩ else .keep
  | .raise v => if h : v ≠ nan then .raise ⟨v, h⟩ else .keep

theorem Cut.toNumber_eq_lower {c : Cut ExtRat} {v : Number} :
    c.toNumber = .lower v ↔ c = .lower v.1 := by
  cases c with
  | keep => simp [Cut.toNumber]
  | lower w => by_cases h : w = nan <;> simp [Cut.toNumber, h, Subtype.ext_iff, v.2.symm]
  | raise w => by_cases h : w = nan <;> simp [Cut.toNumber, h]

theorem Cut.toNumber_eq_raise {c : Cut ExtRat} {v : Number} :
    c.toNumber = .raise v ↔ c = .raise v.1 := by
  cases c with
  | keep => simp [Cut.toNumber]
  | lower w => by_cases h : w = nan <;> simp [Cut.toNumber, h]
  | raise w => by_cases h : w = nan <;> simp [Cut.toNumber, h, Subtype.ext_iff, v.2.symm]

theorem Cut.applyFloat_nan (c : Cut ExtRat) : c.applyFloat nan = nan := by
  cases c <;> simp [Cut.applyFloat]

theorem ite_lt_eq_min (x v : Number) : (if v.1 < x.1 then v.1 else x.1) = (min x v).1 := by
  by_cases h : v < x
  · rw [min_eq_right (le_of_lt h)]
    exact if_pos h
  · rw [min_eq_left (not_lt.mp h)]
    exact if_neg h

theorem ite_lt_eq_max (x v : Number) : (if x.1 < v.1 then v.1 else x.1) = (max x v).1 := by
  by_cases h : x < v
  · rw [max_eq_right (le_of_lt h)]
    exact if_pos h
  · rw [max_eq_left (not_lt.mp h)]
    exact if_neg h

theorem Cut.applyFloat_val (c : Cut ExtRat) (x : Number) :
    c.applyFloat x.1 = (c.toNumber.apply x).1 := by
  cases c with
  | keep => rfl
  | lower v =>
      by_cases h : v = nan
      · simp [Cut.applyFloat, Cut.toNumber, Cut.apply, h]
      · simpa [Cut.toNumber, Cut.applyFloat, Cut.apply, h] using ite_lt_eq_min x ⟨v, h⟩
  | raise v =>
      by_cases h : v = nan
      · simp [Cut.applyFloat, Cut.toNumber, Cut.apply, h]
      · simpa [Cut.toNumber, Cut.applyFloat, Cut.apply, h] using ite_lt_eq_max x ⟨v, h⟩

variable {step : ρ → Cut ExtRat} {a : ExtRat}

theorem runFloatCuts_nan : runFloatCuts step nan l = nan := by
  induction l with
  | nil => rfl
  | cons r l ih =>
      show runFloatCuts step ((step r).applyFloat nan) l = nan
      rw [Cut.applyFloat_nan, ih]

variable (step l) in
/-- On numbers the program's cuts are the cuts above. -/
theorem runFloatCuts_val (x : Number) :
    runFloatCuts step x.1 l = (runCuts (fun r => (step r).toNumber) x l).1 := by
  induction l generalizing x with
  | nil => rfl
  | cons r l ih =>
      show runFloatCuts step ((step r).applyFloat x.1) l = _
      rw [Cut.applyFloat_val, ih]
      rfl

/-- When the value is the same in every order. -/
theorem runFloatCuts_perm_iff :
    (∀ l', l'.Perm l → runFloatCuts step a l' = runFloatCuts step a l) ↔ a = nan ∨
      ∀ r ∈ l, ∀ r' ∈ l, ∀ u v, step r = .raise u → step r' = .lower v → ¬v < u := by
  by_cases ha : a = nan
  · simp [ha, runFloatCuts_nan]
  · have hval := fun m : List ρ => runFloatCuts_val m step ⟨a, ha⟩
    simp only [hval, ← Subtype.ext_iff, runCuts_perm_iff, ha, false_or, Cut.toNumber_eq_raise,
      Cut.toNumber_eq_lower]
    constructor
    · intro h r hr r' hr' u v hraise hlower hlt
      by_cases hu : u = nan
      · exact ExtRat.not_lt_nan v (hu ▸ hlt)
      by_cases hv : v = nan
      · exact ExtRat.not_nan_lt u (hv ▸ hlt)
      exact ExtRat.not_lt_of_le (h r hr r' hr' ⟨u, hu⟩ ⟨v, hv⟩ hraise hlower) hlt
    · intro h r hr r' hr' u v hraise hlower
      exact not_lt.mp (h r hr r' hr' u.1 v.1 hraise hlower)

/-- One more cut from above does not make the value larger. -/
theorem not_runFloatCuts_lt_insert (h : ∀ u, step r ≠ .raise u) :
    ¬runFloatCuts step a (l ++ l') < runFloatCuts step a (l ++ r :: l') := by
  by_cases ha : a = nan
  · rw [ha, runFloatCuts_nan]
    exact ExtRat.not_nan_lt _
  · have hval := fun m : List ρ => runFloatCuts_val m step ⟨a, ha⟩
    have hle : runCuts (fun r => (step r).toNumber) ⟨a, ha⟩ (l ++ r :: l') ≤
        runCuts (fun r => (step r).toNumber) ⟨a, ha⟩ (l ++ l') :=
      runCuts_insert_le fun u hu => h u.1 (Cut.toNumber_eq_raise.mp hu)
    rw [hval, hval]
    exact not_lt.mpr hle

end Basis
