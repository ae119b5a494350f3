import Mathlib.Algebra.Order.Group.Int
import Mathlib.Data.Int.Interval

/-!
# Purge and embargo

A sample at position `i` carries a label that depends on the bars from `i` to
`i + labelHorizon`.  A training sample leaks when its bars meet those of a test sample,
and it is suspicious when it comes right after one.

`purgeOverlappingLabels` and `applyEmbargo` go over the blocks of consecutive test
positions.  A position is in a block exactly when it is a test position
(`mem_contiguousBlocks`), and outside the test set the end of a block is the last test
position there is (`ende_vor`).  So the two leave a training sample that is no test
sample exactly when no single test sample speaks against it (`mem_cleanTrain`).
-/

namespace Validierung

/-- `np.arange(a, b)`. -/
def arange (a b : ℤ) : List ℤ := (List.range (b - a).toNat).map fun i : ℕ => a + i

def sort (xs : List ℤ) : List ℤ := xs.insertionSort (· ≤ ·)

/-- The blocks after one that goes from `start` to `prev` so far. -/
def blocksFrom (start prev : ℤ) : List ℤ → List (ℤ × ℤ)
  | [] => [(start, prev)]
  | value :: values =>
      if value = prev + 1 then blocksFrom start value values
      else (start, prev) :: blocksFrom value value values

def contiguousBlocks : List ℤ → List (ℤ × ℤ)
  | [] => []
  | value :: values => blocksFrom value value values

def purgeOverlappingLabels (trainIdx testIdx : List ℤ) (labelHorizon : ℤ) : List ℤ :=
  let train := sort trainIdx
  let test := sort testIdx
  if labelHorizon ≤ 0 ∨ train = [] ∨ test = [] then train
  else
    train.filter fun s => (contiguousBlocks test).all fun block =>
      !(decide (block.1 - labelHorizon ≤ s) && decide (s ≤ block.2 + labelHorizon))

/-- The size of an embargo: a number of bars, or a fraction as the number of bars it is of
`n` samples, rounded up. -/
inductive Embargo where
  | bars (n : ℤ)
  | fraction (ofSamples : ℕ → ℤ)

def Embargo.embargoBars (embargo : Embargo) (nSamples : ℕ) : ℤ :=
  match embargo with
  | .bars n => n
  | .fraction ofSamples => ofSamples nSamples

def applyEmbargo (trainIdx testIdx : List ℤ) (embargo : Embargo) (nSamples : ℕ) : List ℤ :=
  let train := sort trainIdx
  let test := sort testIdx
  if train = [] ∨ test = [] then train
  else
    let embargoBars := embargo.embargoBars nSamples
    if embargoBars ≤ 0 then train
    else
      train.filter fun s => (contiguousBlocks test).all fun block =>
        !(decide (block.2 < s) && decide (s ≤ block.2 + embargoBars))

def cleanTrain (rawTrain testIdx : List ℤ) (labelHorizon : ℤ) (embargo : Embargo)
    (nSamples : ℕ) : List ℤ :=
  applyEmbargo (purgeOverlappingLabels rawTrain testIdx labelHorizon) testIdx embargo nSamples

/-! ## Positions -/

section

variable {a b c i : ℤ} {xs : List ℤ}

@[simp] theorem mem_arange : i ∈ arange a b ↔ a ≤ i ∧ i < b := by
  rw [arange, List.mem_map]
  constructor
  · rintro ⟨k, hk, rfl⟩
    have hlt := List.mem_range.mp hk
    omega
  · rintro ⟨hle, hlt⟩
    exact ⟨(i - a).toNat, List.mem_range.mpr (by omega), by omega⟩

@[simp] theorem length_arange (a b : ℤ) : (arange a b).length = (b - a).toNat := by
  rw [arange, List.length_map, List.length_range]

theorem arange_of_le (h : b ≤ a) : arange a b = [] := by
  rw [arange, Int.toNat_of_nonpos (by omega)]
  rfl

theorem arange_eq_cons (h : a < b) : arange a b = a :: arange (a + 1) b := by
  have hlen : (b - a).toNat = (b - (a + 1)).toNat + 1 := by omega
  rw [arange, arange, hlen, List.range_succ_eq_map, List.map_cons, List.map_map]
  congr 1
  · simp
  · refine List.map_congr_left fun k _ => ?_
    simp only [Function.comp_apply]
    omega

theorem arange_append (hab : a ≤ b) (hbc : b ≤ c) : arange a b ++ arange b c = arange a c := by
  obtain ⟨n, rfl⟩ := Int.le.dest hab
  clear hab
  induction n generalizing a with
  | zero => simp [arange_of_le]
  | succ n ih =>
      have hshift : a + (n + 1 : ℕ) = a + 1 + n := by omega
      rw [hshift, arange_eq_cons (a := a) (b := a + 1 + n) (by omega),
        arange_eq_cons (a := a) (b := c) (by omega), List.cons_append, ih (by omega)]

theorem pairwise_arange (a b : ℤ) : (arange a b).Pairwise (· < ·) := by
  rw [arange, List.pairwise_map]
  refine List.pairwise_lt_range.imp ?_
  intro i j hij
  omega

@[simp] theorem mem_sort : i ∈ sort xs ↔ i ∈ xs := List.mem_insertionSort _

@[simp] theorem sort_eq_nil : sort xs = [] ↔ xs = [] := by
  rw [← List.length_eq_zero_iff, sort, List.length_insertionSort, List.length_eq_zero_iff]

theorem sort_arange (a b : ℤ) : sort (arange a b) = arange a b :=
  ((pairwise_arange a b).imp le_of_lt).insertionSort_eq

/-- The positions of a range that are below a bound. -/
theorem filter_arange_lt (a b c : ℤ) :
    ((arange a b).filter fun i => decide (i < c)) = arange a (min b c) := by
  rcases le_total b c with hbc | hcb
  · rw [min_eq_left hbc, List.filter_eq_self]
    intro i hi
    have hlt := (mem_arange.mp hi).2
    exact decide_eq_true (lt_of_lt_of_le hlt hbc)
  · rw [min_eq_right hcb]
    rcases le_total c a with hca | hac
    · rw [arange_of_le hca, List.filter_eq_nil_iff]
      intro i hi
      have hle := (mem_arange.mp hi).1
      simp only [decide_eq_true_eq, not_lt]
      omega
    · rw [← arange_append hac hcb, List.filter_append, List.filter_eq_self.mpr,
        List.filter_eq_nil_iff.mpr, List.append_nil]
      · intro i hi
        have hle := (mem_arange.mp hi).1
        simpa using hle
      · intro i hi
        simpa using (mem_arange.mp hi).2

end

/-! ## Blocks -/

section

variable {start prev i j : ℤ} {test : List ℤ}

/-- A block grows by one position or is closed before the next one begins. -/
theorem mem_blocksFrom (h : start ≤ prev) :
    (∃ block ∈ blocksFrom start prev test, block.1 ≤ i ∧ i ≤ block.2) ↔
      (start ≤ i ∧ i ≤ prev) ∨ i ∈ test := by
  induction test generalizing start prev with
  | nil => simp [blocksFrom]
  | cons value values ih =>
      rw [blocksFrom, List.mem_cons]
      split
      next hvalue =>
        rw [ih (by omega), ← or_assoc]
        refine or_congr_left ?_
        omega
      next =>
        simp only [List.mem_cons, exists_eq_or_imp]
        rw [ih le_rfl, ← or_assoc, ← or_assoc]
        refine or_congr_left (or_congr_right ?_)
        omega

/-- The blocks have the test positions, and no others. -/
theorem mem_contiguousBlocks :
    (∃ block ∈ contiguousBlocks test, block.1 ≤ i ∧ i ≤ block.2) ↔ i ∈ test := by
  cases test with
  | nil => simp [contiguousBlocks]
  | cons value values =>
      rw [contiguousBlocks, mem_blocksFrom le_rfl, List.mem_cons]
      refine or_congr_left ?_
      omega

theorem le_of_mem_blocksFrom (h : start ≤ prev) {block : ℤ × ℤ}
    (hb : block ∈ blocksFrom start prev test) : block.1 ≤ block.2 := by
  induction test generalizing start prev with
  | nil =>
      rw [List.mem_singleton.mp hb]
      exact h
  | cons value values ih =>
      rw [blocksFrom] at hb
      split at hb
      next hvalue => exact ih (by omega) hb
      next =>
        rcases List.mem_cons.mp hb with rfl | hb
        · exact h
        · exact ih le_rfl hb

theorem le_of_mem_contiguousBlocks {block : ℤ × ℤ} (hb : block ∈ contiguousBlocks test) :
    block.1 ≤ block.2 := by
  cases test with
  | nil => cases hb
  | cons value values => exact le_of_mem_blocksFrom le_rfl hb

/-- The end of a block is a test position. -/
theorem ende_mem {block : ℤ × ℤ} (hb : block ∈ contiguousBlocks test) : block.2 ∈ test :=
  mem_contiguousBlocks.mp ⟨block, hb, le_of_mem_contiguousBlocks hb, le_rfl⟩

/-- Between a test position and a later position outside the test set a block ends. -/
theorem ende_vor (hj : j ∈ test) (hi : i ∉ test) (hlt : j < i) :
    ∃ block ∈ contiguousBlocks test, j ≤ block.2 ∧ block.2 < i := by
  obtain ⟨block, hb, hlo, hhi⟩ := mem_contiguousBlocks.mpr hj
  refine ⟨block, hb, hhi, ?_⟩
  by_contra hge
  exact hi (mem_contiguousBlocks.mp ⟨block, hb, by omega, by omega⟩)

end

/-! ## What is left -/

section

variable {train test : List ℤ} {s h e : ℤ} {embargo : Embargo} {n : ℕ}

/-- A training sample is purged when it is near a test sample. -/
theorem mem_purgeOverlappingLabels (hs : s ∉ test) :
    s ∈ purgeOverlappingLabels train test h ↔
      s ∈ train ∧ ∀ t ∈ test, ¬(t - h ≤ s ∧ s ≤ t + h) := by
  rw [purgeOverlappingLabels]
  simp only [sort_eq_nil]
  split
  next hcase =>
    rw [mem_sort]
    refine (and_iff_left_of_imp fun hmem t ht hnear => ?_).symm
    rcases hcase with hle | rfl | rfl
    · have heq : s = t := by omega
      exact hs (heq ▸ ht)
    · cases hmem
    · cases ht
  next hcase =>
    rw [List.mem_filter, mem_sort, List.all_eq_true]
    refine and_congr_right fun _ => ?_
    simp only [Bool.not_eq_true', Bool.and_eq_false_iff, decide_eq_false_iff_not]
    constructor
    · intro hall t ht hnear
      obtain ⟨block, hb, hlo, hhi⟩ := mem_contiguousBlocks.mpr (mem_sort.mpr ht)
      have hout := hall block hb
      omega
    · intro hall block hb
      by_contra hnear
      have hle := le_of_mem_contiguousBlocks hb
      -- the test sample of the block that is nearest
      have hnearest := hall (max block.1 (min s block.2)) (mem_sort.mp
        (mem_contiguousBlocks.mp ⟨block, hb, by omega, by omega⟩))
      omega

/-- A training sample is under an embargo when it comes right after a test sample. -/
theorem mem_applyEmbargo (hs : s ∉ test) :
    s ∈ applyEmbargo train test embargo n ↔
      s ∈ train ∧ ∀ t ∈ test, ¬(t < s ∧ s ≤ t + embargo.embargoBars n) := by
  rw [applyEmbargo]
  simp only [sort_eq_nil]
  split
  next hcase =>
    rw [mem_sort]
    refine (and_iff_left_of_imp fun hmem t ht _ => ?_).symm
    rcases hcase with rfl | rfl
    · cases hmem
    · cases ht
  next =>
    split
    next hle =>
      rw [mem_sort]
      refine (and_iff_left_of_imp fun _ t _ hafter => ?_).symm
      omega
    next =>
      rw [List.mem_filter, mem_sort, List.all_eq_true]
      refine and_congr_right fun _ => ?_
      simp only [Bool.not_eq_true', Bool.and_eq_false_iff, decide_eq_false_iff_not]
      constructor
      · intro hall t ht hafter
        have hs' : s ∉ sort test := fun hmem => hs (mem_sort.mp hmem)
        obtain ⟨block, hb, hle, hlt⟩ := ende_vor (mem_sort.mpr ht) hs' hafter.1
        have hout := hall block hb
        omega
      · intro hall block hb
        have hafter := hall block.2 (mem_sort.mp (ende_mem hb))
        omega

/-- A bar belongs to the labels of both samples. -/
def Trifft (h s t : ℤ) : Prop := ∃ bar, (s ≤ bar ∧ bar ≤ s + h) ∧ t ≤ bar ∧ bar ≤ t + h

theorem trifft_iff {t : ℤ} : Trifft h s t ↔ t - h ≤ s ∧ s ≤ t + h := by
  constructor
  · rintro ⟨bar, hs, ht⟩
    omega
  · rintro ⟨hlo, hhi⟩
    exact ⟨max s t, by omega, by omega⟩

/-- What the cleaning leaves of the training samples. -/
theorem mem_cleanTrain (hs : s ∉ test) :
    s ∈ cleanTrain train test h embargo n ↔
      s ∈ train ∧ ∀ t ∈ test, ¬Trifft h s t ∧ ¬(t < s ∧ s ≤ t + embargo.embargoBars n) := by
  simp only [trifft_iff]
  rw [cleanTrain, mem_applyEmbargo hs, mem_purgeOverlappingLabels hs, and_assoc, ← forall₂_and]

/-- A training sample of the result was one before. -/
theorem mem_of_mem_cleanTrain (hs : s ∈ cleanTrain train test h embargo n) : s ∈ train := by
  have hembargo : ∀ {train : List ℤ}, s ∈ applyEmbargo train test embargo n → s ∈ train := by
    intro train hs
    rw [applyEmbargo] at hs
    simp only at hs
    split at hs
    next => exact mem_sort.mp hs
    next =>
      split at hs
      next => exact mem_sort.mp hs
      next => exact mem_sort.mp (List.mem_of_mem_filter hs)
  have hpurge := hembargo hs
  rw [purgeOverlappingLabels] at hpurge
  split at hpurge
  next => exact mem_sort.mp hpurge
  next => exact mem_sort.mp (List.mem_of_mem_filter hpurge)

/-- The embargo does not reach a training sample that is before the test samples. -/
theorem applyEmbargo_vor (hvor : ∀ s ∈ train, ∀ t ∈ test, s < t) :
    applyEmbargo train test embargo n = sort train := by
  rw [applyEmbargo]
  simp only
  split
  next => rfl
  next =>
    split
    next => rfl
    next =>
      rw [List.filter_eq_self]
      intro s hs
      rw [List.all_eq_true]
      intro block hb
      have hlt := hvor s (mem_sort.mp hs) block.2 (mem_sort.mp (ende_mem hb))
      simp only [Bool.not_eq_true', Bool.and_eq_false_iff, decide_eq_false_iff_not]
      exact .inl (by omega)

end

end Validierung
