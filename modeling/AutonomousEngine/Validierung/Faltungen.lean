import AutonomousEngine.Basis.Combinations
import AutonomousEngine.Validierung.Bereinigung
import Mathlib.Tactic.Linarith
import Mathlib.Tactic.Ring

/-!
# Walk-forward and combinatorial folds

`purgedWalkForward` tests one block after the other and trains on what is before it;
`combinatorialPurgedCv` tests every choice of groups and trains on the others.

In a walk-forward fold the training samples are before the test samples, so that the
embargo has nothing to remove and the purge cuts the training range short
(`walk_forward`).  A combinatorial fold trains on exactly the samples that no test sample
speaks against, and each sample is tested equally often (`combinatorial`).

Where `np.linspace` cuts between the groups is left open: its first and its last value are
those it was given, and its values do not fall (`Bounds`).
-/

namespace Validierung

open Basis

/-- `Fold`. -/
structure Fold where
  trainIdx : List ℤ
  testIdx : List ℤ
  foldId : ℕ
  testGroups : Option (List ℕ)
deriving DecidableEq, Repr

/-! ## Walk-forward -/

section

variable (nSamples nSplits : ℕ) (embargo : Embargo) (labelHorizon minTrainSize : ℤ)
  (trainWindow : Option ℤ)

def foldSize : ℕ := nSamples / (nSplits + 1)

def testStart (i : ℕ) : ℤ := foldSize nSamples nSplits * (i + 1)

def testEnd (i : ℕ) : ℤ :=
  if i + 1 = nSplits then nSamples
  else testStart nSamples nSplits i + foldSize nSamples nSplits

def trainStart (i : ℕ) : ℤ :=
  match trainWindow with
  | none => 0
  | some window => max 0 (testStart nSamples nSplits i - window)

/-- One round of `purged_walk_forward`. -/
def walkForwardFold (i : ℕ) : Option Fold :=
  let testIdx := arange (testStart nSamples nSplits i) (testEnd nSamples nSplits i)
  let rawTrain := arange (trainStart nSamples nSplits trainWindow i)
    (testStart nSamples nSplits i)
  let trainIdx := cleanTrain rawTrain testIdx labelHorizon embargo nSamples
  if trainIdx.length < minTrainSize then none else some ⟨trainIdx, testIdx, i, none⟩

def purgedWalkForward : Except String (List Fold) :=
  if nSamples < nSplits + 1 then
    .error (s!"n_samples={nSamples} too small for n_splits={nSplits} " ++
      "(need at least n_splits + 1).")
  else
    .ok ((List.range nSplits).filterMap
      (walkForwardFold nSamples nSplits embargo labelHorizon minTrainSize trainWindow))

end

section

variable {nSamples nSplits : ℕ} {embargo : Embargo} {labelHorizon minTrainSize : ℤ}
  {trainWindow : Option ℤ} {a b c : ℤ} {i : ℕ}

theorem contiguousBlocks_arange (h : a < b) : contiguousBlocks (arange a b) = [(a, b - 1)] := by
  have hgrow : ∀ n : ℕ, ∀ prev : ℤ, blocksFrom a prev (arange (prev + 1) (prev + 1 + n)) =
      [(a, prev + n)] := by
    intro n
    induction n with
    | zero =>
        intro prev
        simp [arange_of_le, blocksFrom]
    | succ n ih =>
        intro prev
        have hshift : prev + 1 + (n + 1 : ℕ) = prev + 1 + 1 + n := by omega
        rw [hshift, arange_eq_cons (by omega), blocksFrom, if_pos rfl, ih]
        congr 2
        omega
  obtain ⟨n, rfl⟩ := Int.le.dest (Int.add_one_le_of_lt h)
  rw [arange_eq_cons h, contiguousBlocks, hgrow]
  congr 2
  omega

/-- The purge of a training range right before a test range. -/
theorem purge_vor (h : b < c) :
    purgeOverlappingLabels (arange a b) (arange b c) labelHorizon =
      arange a (b - max labelHorizon 0) := by
  rw [purgeOverlappingLabels]
  simp only [sort_arange]
  split
  next hcase =>
    rcases hcase with hle | hnil | hnil
    · rw [max_eq_right hle, sub_zero]
    · have hba : b ≤ a := by
        by_contra hlt
        rw [arange_eq_cons (by omega)] at hnil
        cases hnil
      rw [arange_of_le hba, arange_of_le (by omega)]
    · rw [arange_eq_cons h] at hnil
      cases hnil
  next hcase =>
    rw [not_or] at hcase
    have hmin : min b (b - labelHorizon) = b - max labelHorizon 0 := by omega
    rw [← hmin, ← filter_arange_lt]
    refine List.filter_congr fun s hs => ?_
    have hlt := (mem_arange.mp hs).2
    rw [contiguousBlocks_arange h, List.all_cons, List.all_nil, Bool.and_true, Bool.eq_iff_iff]
    simp only [Bool.not_eq_true', Bool.and_eq_false_iff, decide_eq_false_iff_not,
      decide_eq_true_eq]
    omega

theorem cleanTrain_vor (h : b < c) (n : ℕ) :
    cleanTrain (arange a b) (arange b c) labelHorizon embargo n =
      arange a (b - max labelHorizon 0) := by
  rw [cleanTrain, purge_vor h, applyEmbargo_vor, sort_arange]
  intro s hs t ht
  have hs' := (mem_arange.mp hs).2
  have ht' := (mem_arange.mp ht).1
  omega

theorem foldSize_pos (hn : nSplits + 1 ≤ nSamples) : 0 < foldSize nSamples nSplits :=
  Nat.div_pos hn (Nat.succ_pos _)

theorem testStart_lt_testEnd (hn : nSplits + 1 ≤ nSamples) (i : ℕ) :
    testStart nSamples nSplits i < testEnd nSamples nSplits i := by
  have hpos := foldSize_pos hn
  rw [testEnd]
  split
  next hlast =>
    have hle : foldSize nSamples nSplits * (nSplits + 1) ≤ nSamples := Nat.div_mul_le_self _ _
    have hcast : (foldSize nSamples nSplits * (nSplits + 1) : ℤ) ≤ nSamples := by exact_mod_cast hle
    have hstart : testStart nSamples nSplits i = foldSize nSamples nSplits * nSplits := by
      rw [testStart, ← hlast]
      push_cast
      rfl
    rw [hstart]
    rw [mul_add, mul_one] at hcast
    omega
  next => omega

/-- The rounds test the samples from the first block on, one after the other. -/
theorem flatMap_tests (hn : nSplits + 1 ≤ nSamples) (h : 0 < nSplits) :
    ((List.range nSplits).flatMap fun i =>
      arange (testStart nSamples nSplits i) (testEnd nSamples nSplits i)) =
        arange (foldSize nSamples nSplits) nSamples := by
  have hstart : ∀ i, testStart nSamples nSplits (i + 1) =
      testStart nSamples nSplits i + foldSize nSamples nSplits := by
    intro i
    rw [testStart, testStart]
    push_cast
    ring
  have hbefore : ∀ m < nSplits, ((List.range m).flatMap fun i =>
      arange (testStart nSamples nSplits i) (testEnd nSamples nSplits i)) =
        arange (foldSize nSamples nSplits) (testStart nSamples nSplits m) := by
    intro m hm
    induction m with
    | zero =>
        rw [List.range_zero, List.flatMap_nil, arange_of_le]
        simp [testStart]
    | succ m ih =>
        have hfirst : (foldSize nSamples nSplits : ℤ) ≤ testStart nSamples nSplits m := by
          rw [testStart]
          nlinarith
        have hend : testEnd nSamples nSplits m = testStart nSamples nSplits (m + 1) := by
          rw [testEnd, if_neg (by omega), hstart]
        rw [List.range_succ, List.flatMap_append, ih (by omega), List.flatMap_singleton, hend,
          arange_append hfirst (by rw [hstart]; omega)]
  obtain ⟨m, rfl⟩ := Nat.exists_eq_succ_of_ne_zero h.ne'
  have hlast : testEnd nSamples (m + 1) m = nSamples := if_pos rfl
  have hfirst : (foldSize nSamples (m + 1) : ℤ) ≤ testStart nSamples (m + 1) m := by
    rw [testStart]
    nlinarith
  have hlt := testStart_lt_testEnd hn m
  rw [List.range_succ, List.flatMap_append, hbefore m (Nat.lt_succ_self m),
    List.flatMap_singleton, hlast, arange_append hfirst (by omega)]

/-- The training range of a round, after the cleaning. -/
def trainRange (nSamples nSplits : ℕ) (labelHorizon : ℤ) (trainWindow : Option ℤ) (i : ℕ) :
    List ℤ :=
  arange (trainStart nSamples nSplits trainWindow i)
    (testStart nSamples nSplits i - max labelHorizon 0)

theorem walkForwardFold_eq (hn : nSplits + 1 ≤ nSamples) (i : ℕ) :
    walkForwardFold nSamples nSplits embargo labelHorizon minTrainSize trainWindow i =
      if (trainRange nSamples nSplits labelHorizon trainWindow i).length < minTrainSize then none
      else some ⟨trainRange nSamples nSplits labelHorizon trainWindow i,
        arange (testStart nSamples nSplits i) (testEnd nSamples nSplits i), i, none⟩ := by
  rw [walkForwardFold, cleanTrain_vor (testStart_lt_testEnd hn i)]
  rfl

/-- The folds of a walk-forward, whatever the embargo: a round trains on the range that
ends `labelHorizon` before its test block, and is left out when that range is too short;
the test blocks of all rounds follow each other up to the last sample. -/
theorem walk_forward (embargo : Embargo) (labelHorizon minTrainSize : ℤ)
    (trainWindow : Option ℤ) (hn : nSplits + 1 ≤ nSamples) :
    ∃ folds, purgedWalkForward nSamples nSplits embargo labelHorizon minTrainSize trainWindow =
        .ok folds ∧
      folds.map Fold.foldId = (List.range nSplits).filter (fun i => decide (minTrainSize ≤
        (trainRange nSamples nSplits labelHorizon trainWindow i).length)) ∧
      (∀ f ∈ folds, f.trainIdx = trainRange nSamples nSplits labelHorizon trainWindow f.foldId ∧
        f.testIdx =
          arange (testStart nSamples nSplits f.foldId) (testEnd nSamples nSplits f.foldId) ∧
        ∀ s ∈ f.trainIdx, ∀ t ∈ f.testIdx, s + max labelHorizon 0 < t) ∧
      (0 < nSplits → ((List.range nSplits).flatMap fun i =>
        arange (testStart nSamples nSplits i) (testEnd nSamples nSplits i)) =
          arange (foldSize nSamples nSplits) nSamples) := by
  have hfold : ∀ i, walkForwardFold nSamples nSplits embargo labelHorizon minTrainSize
      trainWindow i = _ := walkForwardFold_eq hn
  refine ⟨_, if_neg (by omega), ?_, ?_, flatMap_tests hn⟩
  · rw [List.map_filterMap, ← List.filterMap_eq_filter]
    refine List.filterMap_congr fun i _ => ?_
    rw [hfold i]
    by_cases hshort : ((trainRange nSamples nSplits labelHorizon trainWindow i).length : ℤ) <
        minTrainSize
    · simp [hshort, Option.guard]
    · simp [hshort, Option.guard, not_lt.mp hshort]
  · intro f hf
    obtain ⟨i, -, hi⟩ := List.mem_filterMap.mp hf
    rw [hfold i] at hi
    split at hi
    next => cases hi
    next =>
      obtain rfl := Option.some.inj hi
      refine ⟨rfl, rfl, fun s hs t ht => ?_⟩
      have hlast := (mem_arange.mp hs).2
      have hfirst := (mem_arange.mp ht).1
      omega

/-- Five rounds over a hundred samples with labels of three bars. -/
theorem walk_forward_fuenf : ∃ folds,
    purgedWalkForward 100 5 (.bars 4) 3 1 none = .ok folds ∧
      folds.map Fold.foldId = [0, 1, 2, 3, 4] ∧
      ∀ f ∈ folds, ∀ s ∈ f.trainIdx, ∀ t ∈ f.testIdx, s + 3 < t := by
  obtain ⟨folds, hfolds, hids, hall, -⟩ :=
    @walk_forward 100 5 (.bars 4) 3 1 none (by decide)
  refine ⟨folds, hfolds, ?_, fun f hf => (hall f hf).2.2⟩
  rw [hids]
  decide

end

/-! ## Combinations of groups -/

section

variable (bounds : ℕ → ℤ) (nSamples nGroups nTestGroups : ℕ) (embargo : Embargo)
  (labelHorizon : ℤ)

/-- What `np.linspace(0, n_samples, n_groups + 1)` says of its values. -/
structure Bounds : Prop where
  first : bounds 0 = 0
  last : bounds nGroups = nSamples
  monotone : ∀ g < nGroups, bounds g ≤ bounds (g + 1)

def group (g : ℕ) : List ℤ := arange (bounds g) (bounds (g + 1))

def combinatorialFold (combo : List ℕ) (foldId : ℕ) : Fold :=
  let testIdx := sort (combo.flatMap (group bounds))
  let trainGroups := (List.range nGroups).filter fun g => decide (g ∉ combo)
  let rawTrain := sort (trainGroups.flatMap (group bounds))
  ⟨cleanTrain rawTrain testIdx labelHorizon embargo nSamples, testIdx, foldId, some combo⟩

def combinatorialPurgedCv : Except String (List Fold) :=
  if nTestGroups < 1 ∨ nGroups ≤ nTestGroups then
    .error (s!"n_test_groups must be in [1, n_groups-1]; got " ++
      s!"n_test_groups={nTestGroups}, n_groups={nGroups}.")
  else if nSamples < nGroups then
    .error s!"n_groups={nGroups} cannot exceed n_samples={nSamples}."
  else
    .ok ((combinations nTestGroups (List.range nGroups)).zipIdx.map fun p =>
      combinatorialFold bounds nSamples nGroups embargo labelHorizon p.1 p.2)

end

section

variable {bounds : ℕ → ℤ} {nSamples nGroups nTestGroups g : ℕ} {embargo : Embargo}
  {labelHorizon i : ℤ} {combo : List ℕ}

theorem mem_group : i ∈ group bounds g ↔ bounds g ≤ i ∧ i < bounds (g + 1) := mem_arange

theorem Bounds.le (h : Bounds bounds nSamples nGroups) {m : ℕ} (hm : m ≤ nGroups) (hg : g ≤ m) :
    bounds g ≤ bounds m := by
  induction hg with
  | refl => exact le_rfl
  | step _ ih => exact (ih (by omega)).trans (h.monotone _ (by omega))

theorem Bounds.exists_group (h : Bounds bounds nSamples nGroups) (hlo : 0 ≤ i)
    (hhi : i < nSamples) :
    ∃ g < nGroups, i ∈ group bounds g ∧ ∀ g' < nGroups, i ∈ group bounds g' → g' = g := by
  have hfound : ∀ m ≤ nGroups, i < bounds m → ∃ g < m, i ∈ group bounds g := by
    intro m
    induction m with
    | zero =>
        intro _ hlt
        rw [h.first] at hlt
        omega
    | succ m ih =>
        intro hm hlt
        by_cases hbelow : i < bounds m
        · obtain ⟨g, hg, hmem⟩ := ih (by omega) hbelow
          exact ⟨g, by omega, hmem⟩
        · exact ⟨m, Nat.lt_succ_self m, mem_group.mpr ⟨by omega, hlt⟩⟩
  obtain ⟨g, hg, hmem⟩ := hfound nGroups le_rfl (by rw [h.last]; exact hhi)
  refine ⟨g, hg, hmem, fun g' hg' hmem' => ?_⟩
  rw [mem_group] at hmem hmem'
  rcases lt_trichotomy g' g with hlt | heq | hlt
  · have hle := h.le (g := g' + 1) (m := g) (by omega) hlt
    omega
  · exact heq
  · have hle := h.le (g := g + 1) (m := g') (by omega) hlt
    omega

theorem Bounds.of_mem_group (h : Bounds bounds nSamples nGroups) (hg : g < nGroups)
    (hi : i ∈ group bounds g) : 0 ≤ i ∧ i < nSamples := by
  rw [mem_group] at hi
  have hfirst := h.le (g := 0) (m := g) (by omega) (Nat.zero_le g)
  have hlast := h.le (g := g + 1) (m := nGroups) le_rfl hg
  rw [h.first] at hfirst
  rw [h.last] at hlast
  omega

/-- A fold tests the samples of its groups and trains on all others that no test sample
speaks against. -/
theorem combinatorialFold_spec (h : Bounds bounds nSamples nGroups)
    (hcombo : ∀ g ∈ combo, g < nGroups) (foldId : ℕ) (s : ℤ) :
    s ∈ (combinatorialFold bounds nSamples nGroups embargo labelHorizon combo foldId).trainIdx ↔
      0 ≤ s ∧ s < nSamples ∧
      s ∉ (combinatorialFold bounds nSamples nGroups embargo labelHorizon combo foldId).testIdx ∧
      ∀ t ∈ (combinatorialFold bounds nSamples nGroups embargo labelHorizon combo foldId).testIdx,
        ¬Trifft labelHorizon s t ∧ ¬(t < s ∧ s ≤ t + embargo.embargoBars nSamples) := by
  simp only [combinatorialFold]
  constructor
  · intro hs
    obtain ⟨g, hg, hmem⟩ := List.mem_flatMap.mp (mem_sort.mp (mem_of_mem_cleanTrain hs))
    obtain ⟨hrange, hnot⟩ := List.mem_filter.mp hg
    obtain ⟨hlo, hhi⟩ := h.of_mem_group (List.mem_range.mp hrange) hmem
    have htest : s ∉ sort (combo.flatMap (group bounds)) := by
      intro hs'
      obtain ⟨g', hg', hmem'⟩ := List.mem_flatMap.mp (mem_sort.mp hs')
      obtain ⟨g₀, -, -, hunique⟩ := h.exists_group hlo hhi
      have heq : g = g' := (hunique g (List.mem_range.mp hrange) hmem).trans
        (hunique g' (hcombo g' hg') hmem').symm
      exact of_decide_eq_true hnot (heq ▸ hg')
    exact ⟨hlo, hhi, htest, ((mem_cleanTrain htest).mp hs).2⟩
  · rintro ⟨hlo, hhi, htest, hfrei⟩
    refine (mem_cleanTrain htest).mpr ⟨mem_sort.mpr ?_, hfrei⟩
    obtain ⟨g, hg, hmem, -⟩ := h.exists_group hlo hhi
    refine List.mem_flatMap.mpr ⟨g, List.mem_filter.mpr ⟨List.mem_range.mpr hg, ?_⟩, hmem⟩
    refine decide_eq_true fun hin => htest ?_
    exact mem_sort.mpr (List.mem_flatMap.mpr ⟨g, hin, hmem⟩)

/-- A sample is tested when its group is chosen. -/
theorem mem_testIdx (h : Bounds bounds nSamples nGroups) (hcombo : ∀ g ∈ combo, g < nGroups)
    (hg : g < nGroups) (hi : i ∈ group bounds g) (foldId : ℕ) :
    i ∈ (combinatorialFold bounds nSamples nGroups embargo labelHorizon combo foldId).testIdx ↔
      g ∈ combo := by
  show i ∈ sort (combo.flatMap (group bounds)) ↔ g ∈ combo
  rw [mem_sort, List.mem_flatMap]
  constructor
  · rintro ⟨g', hg', hmem⟩
    obtain ⟨hlo, hhi⟩ := h.of_mem_group hg hi
    obtain ⟨g₀, -, -, hunique⟩ := h.exists_group hlo hhi
    rwa [hunique g hg hi, ← hunique g' (hcombo g' hg') hmem]
  · intro hmem
    exact ⟨g, hmem, hi⟩

/-- The combinatorial folds: as many as there are choices of groups, each sample in the
test set of as many as there are choices of the other groups, and each trained on exactly
the samples whose labels meet no test label and that no embargo covers. -/
theorem combinatorial (embargo : Embargo) (labelHorizon : ℤ)
    (h : Bounds bounds nSamples nGroups) (hone : 1 ≤ nTestGroups) (hlt : nTestGroups < nGroups)
    (hn : nGroups ≤ nSamples) :
    ∃ folds, combinatorialPurgedCv bounds nSamples nGroups nTestGroups embargo labelHorizon =
        .ok folds ∧
      folds.length = nGroups.choose nTestGroups ∧
      (∀ i : ℤ, 0 ≤ i → i < nSamples → folds.countP (fun f => decide (i ∈ f.testIdx)) =
        (nGroups - 1).choose (nTestGroups - 1)) ∧
      ∀ f ∈ folds, ∀ s : ℤ, s ∈ f.trainIdx ↔ 0 ≤ s ∧ s < nSamples ∧ s ∉ f.testIdx ∧
        ∀ t ∈ f.testIdx,
          ¬Trifft labelHorizon s t ∧ ¬(t < s ∧ s ≤ t + embargo.embargoBars nSamples) := by
  have hcombo : ∀ combo ∈ combinations nTestGroups (List.range nGroups), ∀ g ∈ combo,
      g < nGroups := fun combo hc g hg =>
    List.mem_range.mp ((mem_combinations.mp hc).1.subset hg)
  have hmem : ∀ p ∈ (combinations nTestGroups (List.range nGroups)).zipIdx,
      p.1 ∈ combinations nTestGroups (List.range nGroups) := fun p hp => by
    rw [← List.zipIdx_map_fst 0 (combinations nTestGroups (List.range nGroups))]
    exact List.mem_map_of_mem hp
  refine ⟨_, by rw [combinatorialPurgedCv, if_neg (by omega), if_neg (by omega)], ?_, ?_, ?_⟩
  · rw [List.length_map, List.length_zipIdx, length_combinations, List.length_range]
  · intro i hlo hhi
    obtain ⟨g, hg, hi, -⟩ := h.exists_group hlo hhi
    have hcount : ∀ p ∈ (combinations nTestGroups (List.range nGroups)).zipIdx,
        (i ∈ (combinatorialFold bounds nSamples nGroups embargo labelHorizon p.1 p.2).testIdx ↔
          g ∈ p.1) := fun p hp => mem_testIdx h (hcombo p.1 (hmem p hp)) hg hi p.2
    obtain ⟨k, rfl⟩ := Nat.exists_eq_add_of_le' hone
    rw [List.countP_map, List.countP_congr (q := (fun c => decide (g ∈ c)) ∘ Prod.fst)
      (fun p hp => by simpa using hcount p hp), ← List.countP_map, List.zipIdx_map_fst,
      countP_combinations k List.nodup_range (List.mem_range.mpr hg), List.length_range]
    rfl
  · intro f hf s
    obtain ⟨p, hp, rfl⟩ := List.mem_map.mp hf
    exact combinatorialFold_spec h (hcombo p.1 (hmem p hp)) p.2 s

/-- Two of four groups of three samples each. -/
theorem combinatorial_zwei_von_vier : ∃ folds,
    combinatorialPurgedCv (fun g => 3 * g) 12 4 2 (.bars 1) 1 = .ok folds ∧ folds.length = 6 ∧
      ∀ i : ℤ, 0 ≤ i → i < 12 → folds.countP (fun f => decide (i ∈ f.testIdx)) = 3 := by
  obtain ⟨folds, hfolds, hlen, hcount, -⟩ := @combinatorial (fun g => 3 * g) 12 4 2
    (.bars 1) 1 ⟨rfl, rfl, fun g _ => by push_cast; omega⟩ (by decide) (by decide) (by decide)
  exact ⟨folds, hfolds, hlen, hcount⟩

end

end Validierung
