import AutonomousEngine.Basis.Binary64
import AutonomousEngine.Basis.Ranks

/-!
# Ranks and tests

`_rank` sorts the positions of the values and goes over the runs of equal values, each of
which gets the mean of its places.  The rank of a value comes out as half of one more than
the number of the values below it and the number of those not above it.  So it
does not depend on how the sort orders equal values, it moves with a permutation of the
values, and no increasing function of the values changes it (`rank_mittel`).

`np.empty` is a list of zeros here; every place of it is written.

`benjamini_hochberg` goes over many p-values in their order and marks those up to the last
rank whose value is within its bound.  Which these are can be told by counting
(`benjamini_hochberg`), so equal values are marked alike.
-/

namespace Auswertung

open Basis

/-- `values[order]` at one place. -/
def wert (values : List ℚ) (p : ℕ) : ℚ := values.getD p 0

/-- `np.argsort(values, kind="mergesort")`. -/
def argsort (values : List ℚ) : List ℕ :=
  (List.range values.length).insertionSort fun p q => wert values p ≤ wert values q

/-- The inner loop: the last place of the run that begins at `i`. -/
def runEnd (sorted : List ℚ) (i : ℕ) : ℕ → ℕ → ℕ
  | 0, j => j
  | fuel + 1, j =>
      if j + 1 < sorted.length ∧ wert sorted (j + 1) = wert sorted i then
        runEnd sorted i fuel (j + 1)
      else j

/-- `ranks[positions] = avg`. -/
def setAll (positions : List ℕ) (avg : ℚ) (ranks : List ℚ) : List ℚ :=
  positions.foldl (fun ranks p => ranks.set p avg) ranks

def rankLoop (order : List ℕ) (sorted : List ℚ) : ℕ → ℕ → List ℚ → List ℚ
  | 0, _, ranks => ranks
  | fuel + 1, i, ranks =>
      if i < sorted.length then
        let j := runEnd sorted i sorted.length i
        let avg := ((i + j : ℕ) : ℚ) / 2 + 1
        rankLoop order sorted fuel (j + 1) (setAll ((order.take (j + 1)).drop i) avg ranks)
      else ranks

def rank (values : List ℚ) : List ℚ :=
  let order := argsort values
  let sorted := order.map (wert values)
  rankLoop order sorted values.length 0 (List.replicate values.length 0)

/-! ## Runs of equal values -/

section

variable {sorted : List ℚ} {i j k fuel : ℕ} {x : ℚ}

theorem wert_eq (h : i < sorted.length) : wert sorted i = sorted[i] := by
  rw [wert, List.getD_eq_getElem?_getD, List.getElem?_eq_getElem h]
  rfl

theorem wert_mono (hs : sorted.Pairwise (· ≤ ·)) (hij : i ≤ j) (hj : j < sorted.length) :
    wert sorted i ≤ wert sorted j := by
  rw [wert_eq (lt_of_le_of_lt hij hj), wert_eq hj]
  rcases hij.lt_or_eq with hlt | rfl
  · exact List.pairwise_iff_getElem.mp hs i j _ hj hlt
  · exact le_rfl

/-- The inner loop stops in the run, and behind it the run is over. -/
theorem runEnd_spec (hij : i ≤ j) (hj : j < sorted.length) (hfuel : sorted.length ≤ j + 1 + fuel)
    (hrun : wert sorted j = wert sorted i) :
    j ≤ runEnd sorted i fuel j ∧ runEnd sorted i fuel j < sorted.length ∧
      wert sorted (runEnd sorted i fuel j) = wert sorted i ∧
      (runEnd sorted i fuel j + 1 < sorted.length →
        wert sorted (runEnd sorted i fuel j + 1) ≠ wert sorted i) := by
  induction fuel generalizing j with
  | zero => exact ⟨le_rfl, hj, hrun, fun hlt => by rw [runEnd] at hlt; omega⟩
  | succ fuel ih =>
      rw [runEnd]
      split
      next hnext =>
        obtain ⟨hle, hrest⟩ := ih (j := j + 1) (by omega) hnext.1 (by omega) hnext.2
        exact ⟨by omega, hrest⟩
      next hstop => exact ⟨le_rfl, hj, hrun, fun hlt heq => hstop ⟨hlt, heq⟩⟩

/-- A list whose first `k` elements are those with a property. -/
theorem countP_eq_of_take {p : ℚ → Bool} (hk : k ≤ sorted.length)
    (hfirst : ∀ m < k, p (wert sorted m) = true)
    (hrest : ∀ m, k ≤ m → m < sorted.length → p (wert sorted m) = false) :
    sorted.countP p = k := by
  rw [← List.take_append_drop k sorted, List.countP_append]
  have h1 : (sorted.take k).countP p = k := by
    have hall : (sorted.take k).countP p = (sorted.take k).length := by
      rw [List.countP_eq_length]
      intro a ha
      obtain ⟨m, hm, rfl⟩ := List.getElem_of_mem ha
      rw [List.length_take] at hm
      rw [List.getElem_take, ← wert_eq]
      exact hfirst m (by omega)
    rw [hall, List.length_take, min_eq_left hk]
  have h2 : (sorted.drop k).countP p = 0 := by
    rw [List.countP_eq_zero]
    intro a ha
    obtain ⟨m, hm, rfl⟩ := List.getElem_of_mem ha
    rw [List.length_drop] at hm
    rw [List.getElem_drop, ← wert_eq (by omega), hrest (k + m) (by omega) (by omega)]
    exact Bool.false_ne_true
  rw [h1, h2, Nat.add_zero]

def rang (values : List ℚ) (x : ℚ) : ℚ :=
  ((values.countP (· < x) : ℚ) + values.countP (· ≤ x) + 1) / 2

/-- The mean of the places of a run is the rank of its value. -/
theorem avg_eq (hs : sorted.Pairwise (· ≤ ·)) (hi : i < sorted.length)
    (hstart : ∀ m < i, wert sorted m < wert sorted i) :
    ((i + runEnd sorted i sorted.length i : ℕ) : ℚ) / 2 + 1 = rang sorted (wert sorted i) := by
  obtain ⟨hle, hlt, hrun, hover⟩ := 
    runEnd_spec (show i ≤ i from le_rfl) hi
      (show sorted.length ≤ i + 1 + sorted.length by omega) rfl
  generalize runEnd sorted i sorted.length i = j at hle hlt hrun hover ⊢
  have hbelow : sorted.countP (· < wert sorted i) = i := by
    refine countP_eq_of_take hi.le (fun m hm => by simpa using hstart m hm) fun m hm hm' => ?_
    simpa using wert_mono hs hm hm'
  have hupto : sorted.countP (· ≤ wert sorted i) = j + 1 := by
    refine countP_eq_of_take hlt (fun m hm => ?_) fun m hm hm' => ?_
    · rw [← hrun]
      simpa using wert_mono hs (Nat.lt_succ_iff.mp hm) hlt
    · have hnext : wert sorted i < wert sorted (j + 1) := by
        refine lt_of_le_of_ne ?_ (hover (by omega)).symm
        exact wert_mono hs (by omega) (by omega)
      simpa using hnext.trans_le (wert_mono hs hm hm')
  rw [rang, hbelow, hupto]
  push_cast
  ring

@[simp] theorem length_setAll (positions : List ℕ) (avg : ℚ) (ranks : List ℚ) :
    (setAll positions avg ranks).length = ranks.length := by
  induction positions generalizing ranks with
  | nil => rfl
  | cons p positions ih =>
      show (setAll positions avg (ranks.set p avg)).length = _
      rw [ih, List.length_set]

theorem wert_setAll {positions : List ℕ} {avg : ℚ} {ranks : List ℚ} (hk : k < ranks.length) :
    wert (setAll positions avg ranks) k = if k ∈ positions then avg else wert ranks k := by
  induction positions generalizing ranks with
  | nil => rfl
  | cons p positions ih =>
      show wert (setAll positions avg (ranks.set p avg)) k = _
      rw [ih (by rwa [List.length_set])]
      by_cases hmem : k ∈ positions
      · rw [if_pos hmem, if_pos (List.mem_cons_of_mem p hmem)]
      · rw [if_neg hmem]
        by_cases hp : k = p
        · subst hp
          rw [if_pos List.mem_cons_self, wert_eq (by rwa [List.length_set]), List.getElem_set_self]
        · rw [if_neg (by simp [hp, hmem]), wert_eq (by rwa [List.length_set]),
            List.getElem_set_ne (Ne.symm hp), wert_eq hk]

/-- The loop gives every position of the order the rank of its value. -/
theorem rankLoop_spec {order : List ℕ} {ranks : List ℚ} (hs : sorted.Pairwise (· ≤ ·))
    (hlen : order.length = sorted.length) (hnodup : order.Nodup)
    (hrange : ∀ p ∈ order, p < ranks.length) (hfuel : sorted.length ≤ i + fuel)
    (hstart : i < sorted.length → ∀ m < i, wert sorted m < wert sorted i)
    (hdone : ∀ m (hm : m < order.length), m < i →
      wert ranks order[m] = rang sorted (wert sorted m)) :
    (rankLoop order sorted fuel i ranks).length = ranks.length ∧
      ∀ m (hm : m < order.length), wert (rankLoop order sorted fuel i ranks) order[m] =
        rang sorted (wert sorted m) := by
  induction fuel generalizing i ranks with
  | zero => exact ⟨rfl, fun m hm => hdone m hm (by omega)⟩
  | succ fuel ih =>
      rw [rankLoop]
      split
      next hi =>
        obtain ⟨hle, hlt, hrun, hover⟩ := 
          runEnd_spec (show i ≤ i from le_rfl) hi
            (show sorted.length ≤ i + 1 + sorted.length by omega) rfl
        have havg := avg_eq hs hi (hstart hi)
        simp only [havg]
        generalize runEnd sorted i sorted.length i = j at hle hlt hrun hover ⊢
        refine (ih ?_ (by omega) ?_ ?_).imp (fun h => h.trans (length_setAll _ _ _)) fun h => h
        · intro p hp
          rw [length_setAll]
          exact hrange p hp
        · intro hnext m hm
          -- the run ends at `j`, so that the next value is greater
          have hgreater : wert sorted j < wert sorted (j + 1) :=
            lt_of_le_of_ne (wert_mono hs (by omega) hnext) (by rw [hrun]; exact (hover hnext).symm)
          exact lt_of_le_of_lt (wert_mono hs (Nat.lt_succ_iff.mp hm) (by omega)) hgreater
        · intro m hm hmj
          rw [wert_setAll (hrange _ (List.getElem_mem hm))]
          have hmem : order[m] ∈ (order.take (j + 1)).drop i ↔ i ≤ m := by
            rw [List.mem_drop_iff_getElem]
            constructor
            · rintro ⟨q, hq, heq⟩
              rw [List.getElem_take, hnodup.getElem_inj_iff] at heq
              omega
            · intro him
              refine ⟨m - i, by rw [List.length_take]; omega, ?_⟩
              simp only [List.getElem_take]
              congr 1
              omega
          by_cases him : i ≤ m
          · have hsame : wert sorted m = wert sorted i := by
              refine le_antisymm ?_ (wert_mono hs him (by omega))
              rw [← hrun]
              exact wert_mono hs (by omega) hlt
            rw [if_pos (hmem.mpr him), hsame]
          · rw [if_neg (fun h => him (hmem.mp h))]
            exact hdone m hm (by omega)
      next hi => exact ⟨rfl, fun m hm => hdone m hm (by omega)⟩

end

/-! ## The ranks of a list -/

section

variable (values : List ℚ)

theorem argsort_perm : (argsort values).Perm (List.range values.length) :=
  List.perm_insertionSort _ _

theorem map_argsort_perm : ((argsort values).map (wert values)).Perm values := by
  have hall : (List.range values.length).map (wert values) = values := by
    refine List.ext_getElem (by simp) fun m hm hm' => ?_
    rw [List.getElem_map, List.getElem_range, wert_eq hm']
  exact ((argsort_perm values).map _).trans (by rw [hall])

theorem pairwise_argsort : ((argsort values).map (wert values)).Pairwise (· ≤ ·) := by
  have htotal : Std.Total fun p q => wert values p ≤ wert values q := ⟨fun _ _ => le_total _ _⟩
  have htrans : IsTrans ℕ fun p q => wert values p ≤ wert values q := ⟨fun _ _ _ => le_trans⟩
  rw [List.pairwise_map]
  exact List.pairwise_insertionSort _ _

/-- The rank of a value depends on the values as a whole, not on their order. -/
theorem rang_perm {values values' : List ℚ} (h : values.Perm values') (x : ℚ) :
    rang values x = rang values' x := by
  rw [rang, rang, h.countP_eq, h.countP_eq]

/-- The rank of a value: half of one more than the number of those below it and the number
of those not above it. -/
theorem rank_eq_map_rang : rank values = values.map (rang values) := by
  have hnodup : (argsort values).Nodup := (argsort_perm values).nodup_iff.mpr List.nodup_range
  have hlen : (argsort values).length = values.length := by
    rw [(argsort_perm values).length_eq, List.length_range]
  obtain ⟨hlength, hranks⟩ := @rankLoop_spec _ 0 values.length (argsort values)
    (List.replicate values.length 0) (pairwise_argsort values) (List.length_map _).symm
    hnodup (fun p hp => by
      rw [List.length_replicate]
      exact List.mem_range.mp ((argsort_perm values).subset hp))
    (by rw [List.length_map]; omega) (fun _ m hm => absurd hm (Nat.not_lt_zero m))
    (fun m _ hm => absurd hm (Nat.not_lt_zero m))
  rw [List.length_replicate] at hlength
  refine List.ext_getElem (by rw [List.length_map]; exact hlength) fun k hk hk' => ?_
  have hkv : k < values.length := by rwa [List.length_map] at hk'
  obtain ⟨m, hm, rfl⟩ : ∃ m, ∃ hm : m < (argsort values).length, (argsort values)[m] = k :=
    List.getElem_of_mem ((argsort_perm values).symm.subset (List.mem_range.mpr hkv))
  have hsorted : wert ((argsort values).map (wert values)) m = wert values (argsort values)[m] := by
    rw [wert_eq (by rwa [List.length_map]), List.getElem_map]
  have hrank := hranks m hm
  rw [hsorted, rang_perm (map_argsort_perm values), wert_eq hkv] at hrank
  rw [List.getElem_map, ← hrank, ← wert_eq]
  rfl

theorem rank_perm {values' : List ℚ} (h : values.Perm values') :
    (values.zip (rank values)).Perm (values'.zip (rank values')) := by
  have hzip : ∀ values : List ℚ, values.zip (rank values) =
      values.map fun x => (x, rang values x) := fun values => by
    rw [rank_eq_map_rang, ← List.map_prod_left_eq_zip]
  rw [hzip, hzip]
  have hsame : (fun x => (x, rang values x)) = fun x => (x, rang values' x) := by
    funext x
    rw [rang_perm h]
  rw [hsame]
  exact h.map _

/-- An increasing function of the values changes no rank. -/
theorem rank_map {f : ℚ → ℚ} (hf : StrictMono f) : rank (values.map f) = rank values := by
  rw [rank_eq_map_rang, rank_eq_map_rang, List.map_map]
  refine List.map_congr_left fun x _ => ?_
  have hlt : ((fun y => decide (y < f x)) ∘ f) = fun y => decide (y < x) := by
    funext y
    simp [hf.lt_iff_lt]
  have hle : ((fun y => decide (y ≤ f x)) ∘ f) = fun y => decide (y ≤ x) := by
    funext y
    simp [hf.le_iff_le]
  rw [Function.comp_apply, rang, rang, List.countP_map, List.countP_map, hlt, hle]

/-- Ranks are mean places: they are given by the values alone, whatever their order, and no
increasing function changes them. -/
theorem rank_mittel : rank values = values.map (rang values) ∧
    (∀ values', values.Perm values' →
      (values.zip (rank values)).Perm (values'.zip (rank values'))) ∧
    ∀ f : ℚ → ℚ, StrictMono f → rank (values.map f) = rank values :=
  ⟨rank_eq_map_rang values, fun _ h => rank_perm values h, fun _ hf => rank_map values hf⟩

/-- Two equal values share their places, before and after the values are doubled. -/
theorem rank_mittel_vier : rank [3, 1, 3, 2] = [7 / 2, 1, 7 / 2, 2] ∧
    rank ([3, 1, 3, 2].map fun x => 2 * x) = rank [3, 1, 3, 2] := by
  obtain ⟨heq, -, hmap⟩ := rank_mittel [3, 1, 3, 2]
  refine ⟨heq.trans (by decide +kernel), hmap _ fun x y hxy => ?_⟩
  show 2 * x < 2 * y
  linarith

end

/-! ## Significance of many tests -/

/-- The bound of a rank: `alpha * rank_pos / m`, in doubles. -/
def schwelle (alpha : ℚ) (m rankPos : ℕ) : WithTop ℚ := (nearest (nearest (alpha * rankPos) / m) : ℚ)

section

variable (pValues : List (WithTop ℚ)) (alpha : ℚ)

/-- `p_values[idx]`.  A NaN is `⊤`: numpy sorts it behind the numbers, and it is within no
bound. -/
def pWert (idx : ℕ) : WithTop ℚ := pValues.getD idx ⊤

/-- The first loop: the last rank whose value is within its bound. -/
def maxK (order : List ℕ) : ℤ :=
  (order.zipIdx 1).foldl (fun k q =>
    if pWert pValues q.1 ≤ schwelle alpha pValues.length q.2 then (q.2 : ℤ) else k) (-1)

def markiere (k : ℤ) (order : List ℕ) (significant : List Bool) : List Bool :=
  (order.zipIdx 1).foldl (fun significant q =>
    if (q.2 : ℤ) ≤ k then significant.set q.1 true else significant) significant

/-- `benjamini_hochberg`, with the order that `np.argsort` finds. -/
def benjaminiHochberg (order : List ℕ) : List Bool :=
  if pValues.length = 0 then []
  else markiere (maxK pValues alpha order) order (List.replicate pValues.length false)

/-- What `np.argsort` promises: the positions, in the order of their values. -/
structure Argsort (order : List ℕ) : Prop where
  perm : order.Perm (List.range pValues.length)
  sorted : (order.map (pWert pValues)).Pairwise (· ≤ ·)

end

section

variable {pValues pValues' : List (WithTop ℚ)} {alpha alpha' : ℚ} {order order' : List ℕ} {i : ℕ}

theorem schwelle_mono (halpha : 0 ≤ alpha) (m : ℕ) : Monotone (schwelle alpha m) := by
  intro k l hkl
  rw [schwelle, schwelle, WithTop.coe_le_coe]
  have hle : (k : ℚ) ≤ l := by exact_mod_cast hkl
  refine nearest_mono (div_le_div_of_nonneg_right ?_ (Nat.cast_nonneg m))
  exact nearest_mono (mul_le_mul_of_nonneg_left hle halpha)

theorem maxK_spec (pValues : List (WithTop ℚ)) (alpha : ℚ) (order : List ℕ) :
    (∀ k (hk : k < order.length), pWert pValues order[k] ≤ schwelle alpha pValues.length (k + 1) →
        (k : ℤ) + 1 ≤ maxK pValues alpha order) ∧
      (maxK pValues alpha order = -1 ∨ ∃ k, ∃ hk : k < order.length,
        maxK pValues alpha order = (k : ℤ) + 1 ∧
          pWert pValues order[k] ≤ schwelle alpha pValues.length (k + 1)) := by
  induction order using List.reverseRecOn with
  | nil => exact ⟨nofun, .inl rfl⟩
  | append_singleton order idx ih =>
      obtain ⟨hlast, hfound⟩ := ih
      have hstep : maxK pValues alpha (order ++ [idx]) =
          if pWert pValues idx ≤ schwelle alpha pValues.length (order.length + 1) then
            (order.length : ℤ) + 1 else maxK pValues alpha order := by
        rw [maxK, List.zipIdx_append, List.foldl_append, maxK]
        simp [add_comm]
      have hbound : maxK pValues alpha order ≤ order.length := by
        rcases hfound with hnone | ⟨k, hk, heq, -⟩
        · omega
        · omega
      rw [hstep]
      by_cases hin : pWert pValues idx ≤ schwelle alpha pValues.length (order.length + 1)
      · rw [if_pos hin]
        refine ⟨fun k hk _ => ?_, .inr ⟨order.length, by simp, rfl, by simpa using hin⟩⟩
        rw [List.length_append, List.length_singleton] at hk
        omega
      · rw [if_neg hin]
        refine ⟨fun k hk hle => ?_, ?_⟩
        · by_cases hkl : k < order.length
          · rw [List.getElem_append_left hkl] at hle
            exact hlast k hkl hle
          · obtain rfl : k = order.length := by
              rw [List.length_append, List.length_singleton] at hk
              omega
            rw [List.getElem_concat_length rfl] at hle
            exact absurd hle hin
        · refine hfound.imp id fun ⟨k, hk, heq, hle⟩ => ⟨k, ?_, heq, ?_⟩
          · rw [List.length_append]
            omega
          · rwa [List.getElem_append_left hk]

@[simp] theorem length_markiere (k : ℤ) (order : List ℕ) (significant : List Bool) :
    (markiere k order significant).length = significant.length := by
  induction order using List.reverseRecOn with
  | nil => rfl
  | append_singleton order idx ih =>
      rw [markiere, List.zipIdx_append, List.foldl_append, ← markiere]
      simp only [List.zipIdx_cons, List.zipIdx_nil, List.foldl_cons, List.foldl_nil]
      split
      next => rw [List.length_set, ih]
      next => exact ih

theorem getD_markiere (k : ℤ) (significant : List Bool) (hi : i < significant.length) :
    (markiere k order significant).getD i false = true ↔ significant.getD i false = true ∨
      ∃ r, ∃ hr : r < order.length, order[r] = i ∧ (r : ℤ) + 1 ≤ k := by
  induction order using List.reverseRecOn with
  | nil => simp [markiere]
  | append_singleton order idx ih =>
      have hstep : markiere k (order ++ [idx]) significant =
          if (order.length : ℤ) + 1 ≤ k then (markiere k order significant).set idx true
          else markiere k order significant := by
        rw [markiere, List.zipIdx_append, List.foldl_append, ← markiere]
        simp [add_comm]
      have hlast : (∃ r, ∃ hr : r < (order ++ [idx]).length, (order ++ [idx])[r] = i ∧
          (r : ℤ) + 1 ≤ k) ↔ (∃ r, ∃ hr : r < order.length, order[r] = i ∧ (r : ℤ) + 1 ≤ k) ∨
            idx = i ∧ (order.length : ℤ) + 1 ≤ k := by
        constructor
        · rintro ⟨r, hr, heq, hrk⟩
          by_cases hlt : r < order.length
          · rw [List.getElem_append_left hlt] at heq
            exact .inl ⟨r, hlt, heq, hrk⟩
          · obtain rfl : r = order.length := by
              rw [List.length_append, List.length_singleton] at hr
              omega
            rw [List.getElem_concat_length rfl] at heq
            exact .inr ⟨heq, hrk⟩
        · rintro (⟨r, hr, heq, hrk⟩ | ⟨heq, hrk⟩)
          · refine ⟨r, by rw [List.length_append]; omega, ?_, hrk⟩
            rwa [List.getElem_append_left hr]
          · refine ⟨order.length, by simp, ?_, hrk⟩
            rwa [List.getElem_concat_length rfl]
      rw [hlast, ← or_assoc, ← ih, hstep]
      by_cases hrk : (order.length : ℤ) + 1 ≤ k
      · rw [if_pos hrk, List.getD_eq_getElem?_getD, List.getElem?_set]
        by_cases heq : idx = i
        · simp [heq, hrk, hi]
        · simp [heq]
      · simp [hrk]

theorem Argsort.map_perm (h : Argsort pValues order) : (order.map (pWert pValues)).Perm pValues := by
  have hall : (List.range pValues.length).map (pWert pValues) = pValues := by
    refine List.ext_getElem (by simp) fun m hm hm' => ?_
    rw [List.getElem_map, List.getElem_range, pWert, List.getD_eq_getElem?_getD,
      List.getElem?_eq_getElem hm', Option.getD_some]
  exact (h.perm.map _).trans (by rw [hall])

/-- A test is significant when its value is within the bound of some rank that as many values
are within. -/
theorem benjaminiHochberg_iff (h : Argsort pValues order) (halpha : 0 ≤ alpha)
    (hi : i < pValues.length) :
    (benjaminiHochberg pValues alpha order).getD i false = true ↔
      ∃ k, pWert pValues i ≤ schwelle alpha pValues.length k ∧
        k ≤ pValues.countP (· ≤ schwelle alpha pValues.length k) := by
  obtain ⟨hlast, hfound⟩ := maxK_spec pValues alpha order
  obtain ⟨r, hr, hri⟩ : ∃ r, ∃ hr : r < order.length, order[r] = i :=
    List.getElem_of_mem (h.perm.symm.subset (List.mem_range.mpr hi))
  have hnodup : order.Nodup := h.perm.nodup_iff.mpr List.nodup_range
  have hmark : (∃ r, ∃ hr : r < order.length, order[r] = i ∧
      (r : ℤ) + 1 ≤ maxK pValues alpha order) ↔ (r : ℤ) + 1 ≤ maxK pValues alpha order := by
    constructor
    · rintro ⟨r', hr', hri', hle⟩
      obtain rfl : r' = r := (hnodup.getElem_inj_iff).mp (hri'.trans hri.symm)
      exact hle
    · exact fun hle => ⟨r, hr, hri, hle⟩
  have hlast' := @le_last_iff _ _ (order.map (pWert pValues)) (schwelle alpha pValues.length)
    (maxK pValues alpha order) r h.sorted (schwelle_mono halpha _) (fun k hk hle => by
      rw [List.length_map] at hk
      exact hlast k hk (by simpa using hle)) (fun r hrK => by
      rcases hfound with hnone | ⟨k, hk, heq, hle⟩
      · omega
      · exact ⟨k, by rwa [List.length_map], by omega, by simpa using hle⟩)
    (by rwa [List.length_map])
  rw [List.getElem_map, hri] at hlast'
  rw [benjaminiHochberg, if_neg (by omega), getD_markiere _ _ (by simpa using hi), hmark, hlast']
  simp only [h.map_perm.countP_eq]
  simp

theorem countP_schwelle_le {t t' : WithTop ℚ} (ht : t ≤ t')
    (hp : List.Forall₂ (· ≤ ·) pValues' pValues) :
    pValues.countP (· ≤ t) ≤ pValues'.countP (· ≤ t') := by
  induction hp with
  | nil => exact le_rfl
  | @cons x y xs ys hle _ ih =>
      by_cases hy : y ≤ t
      · rw [List.countP_cons_of_pos (by simpa using hy),
          List.countP_cons_of_pos (by simpa using hle.trans (hy.trans ht))]
        omega
      · rw [List.countP_cons_of_neg (by simpa using hy), List.countP_cons]
        omega

/-- Which tests are significant is told by counting, so it does not depend on how the sort
orders equal values, and no test is lost when values fall or the level rises. -/
theorem benjamini_hochberg (h : Argsort pValues order) (halpha : 0 ≤ alpha) :
    (benjaminiHochberg pValues alpha order).length = pValues.length ∧
      (∀ i < pValues.length, (benjaminiHochberg pValues alpha order).getD i false = true ↔
        ∃ k, pWert pValues i ≤ schwelle alpha pValues.length k ∧
          k ≤ pValues.countP (· ≤ schwelle alpha pValues.length k)) ∧
      ∀ pValues' order' alpha', Argsort pValues' order' → alpha ≤ alpha' →
        List.Forall₂ (· ≤ ·) pValues' pValues → ∀ i < pValues.length,
          (benjaminiHochberg pValues alpha order).getD i false = true →
            (benjaminiHochberg pValues' alpha' order').getD i false = true := by
  refine ⟨?_, fun i hi => benjaminiHochberg_iff h halpha hi, ?_⟩
  · rw [benjaminiHochberg]
    split
    next hnil => rw [hnil, List.length_nil]
    next => simp
  · intro pValues' order' alpha' h' hle hp i hi hsig
    have hlen := hp.length_eq
    obtain ⟨k, hk, hcount⟩ := (benjaminiHochberg_iff h halpha hi).mp hsig
    have hbound : schwelle alpha pValues.length k ≤ schwelle alpha' pValues'.length k := by
      rw [schwelle, schwelle, WithTop.coe_le_coe, hlen]
      refine nearest_mono (div_le_div_of_nonneg_right ?_ (Nat.cast_nonneg _))
      exact nearest_mono (mul_le_mul_of_nonneg_right hle (Nat.cast_nonneg k))
    refine (benjaminiHochberg_iff h' (halpha.trans hle) (hlen ▸ hi)).mpr
      ⟨k, le_trans ?_ (hk.trans hbound), hcount.trans (countP_schwelle_le hbound hp)⟩
    have hat := (List.forall₂_iff_get.mp hp).2 i (hlen ▸ hi) hi
    simpa [pWert, List.getD_eq_getElem?_getD, hi, hlen ▸ hi] using hat

/-- The third of four values is within its bound, and takes the second along. -/
theorem benjamini_hochberg_vier :
    (benjaminiHochberg [(1 / 64 : ℚ), (3 / 32 : ℚ), ⊤, (5 / 64 : ℚ)] (1 / 8) [0, 3, 1, 2]).getD 3
      false = true :=
  ((@benjamini_hochberg [(1 / 64 : ℚ), (3 / 32 : ℚ), ⊤, (5 / 64 : ℚ)] (1 / 8) [0, 3, 1, 2]
    ⟨by decide, by decide +kernel⟩ (by norm_num)).2.1 3 (by decide)).mpr
      ⟨3, by decide +kernel, by decide +kernel⟩

end

end Auswertung
