import Mathlib.Data.List.Sort
import Mathlib.Order.MinMax

/-!
# The newest lots that cover a quantity

Lots have a time and a quantity.  They are taken from the newest to the oldest until their
quantities reach a target, and the time of the last one taken is the result.  When all of them do
not reach the target, the result is the time of the oldest.

The quantities are added one after the other by an operation that need not be associative, such
as the addition of doubles.  All that counts is that a sum never falls (`Accumulates`).  Then
the result is the time at which the lots that are newer, added up, stay below the target and
those that are not older reach it (`coverTime_eq_some_iff`).
-/

namespace Basis

variable {τ α : Type} [LinearOrder τ] [LinearOrder α] [Zero α]

/-- An addition under which sums, the numbers with `P`, never fall. -/
structure Accumulates (P : α → Prop) (add : α → α → α) : Prop where
  closed : ∀ a q, P (add a q)
  le_add : ∀ a q, P a → 0 ≤ q → a ≤ add a q

/-- Takes lots until a target is reached, behind lots with a sum and a time. -/
def takeLots (add : α → α → α) (target : α) (acc : α) (entry : Option τ) : List (τ × α) → Option τ
  | [] => entry
  | lot :: lots =>
      if 0 < target ∧ target ≤ add acc lot.2 then some lot.1
      else takeLots add target (add acc lot.2) (some lot.1) lots

/-- The lots from the newest to the oldest, those of one time as they come. -/
def newestFirst (lots : List (τ × α)) : List (τ × α) := lots.insertionSort fun a b => b.1 ≤ a.1

/-- The time of the oldest of the newest lots that reach a target. -/
def coverTime (add : α → α → α) (target : α) (lots : List (τ × α)) : Option τ :=
  takeLots add target 0 none (newestFirst lots)

/-- Adds up the quantities of lots, one after the other. -/
def addUp (add : α → α → α) (acc : α) (lots : List (τ × α)) : α :=
  lots.foldl (fun sum lot => add sum lot.2) acc

/-- The lots that are newer than a time. -/
def newer (w : τ) (lots : List (τ × α)) : List (τ × α) := lots.filter fun lot => decide (w < lot.1)

/-- The lots that are not older than a time. -/
def notOlder (w : τ) (lots : List (τ × α)) : List (τ × α) :=
  lots.filter fun lot => decide (w ≤ lot.1)

/-- A time at which lots reach a target, behind lots with a sum. -/
def CoversAt (add : α → α → α) (target acc : α) (lots : List (τ × α)) (w : τ) : Prop :=
  w ∈ lots.map Prod.fst ∧ addUp add acc (newer w lots) < target ∧
    (target ≤ addUp add acc (notOlder w lots) ∨
      addUp add acc lots < target ∧ ∀ lot ∈ lots, w ≤ lot.1)

instance (add : α → α → α) (target acc : α) (lots : List (τ × α)) (w : τ) :
    Decidable (CoversAt add target acc lots w) := inferInstanceAs (Decidable (_ ∧ _ ∧ _))

variable {P : α → Prop} {add : α → α → α} {target acc : α} {lot : τ × α} {lots : List (τ × α)}
  {w : τ} {entry : Option τ}

omit [LinearOrder τ] [Zero α] [LinearOrder α] in
theorem addUp_cons : addUp add acc (lot :: lots) = addUp add (add acc lot.2) lots := rfl

omit [LinearOrder τ] in
/-- Sums never fall. -/
theorem Accumulates.le_addUp (hadd : Accumulates P add) (hacc : P acc)
    (hnonneg : ∀ l ∈ lots, 0 ≤ l.2) : acc ≤ addUp add acc lots := by
  induction lots generalizing acc with
  | nil => exact le_rfl
  | cons lot lots ih =>
      obtain ⟨hlot, hlots⟩ := List.forall_mem_cons.mp hnonneg
      exact (hadd.le_add _ _ hacc hlot).trans (ih (hadd.closed _ _) hlots)

omit [LinearOrder α] [Zero α] in
theorem newer_cons :
    newer w (lot :: lots) = if w < lot.1 then lot :: newer w lots else newer w lots := by
  simp only [newer, List.filter_cons, decide_eq_true_eq]

omit [LinearOrder α] [Zero α] in
theorem notOlder_cons :
    notOlder w (lot :: lots) = if w ≤ lot.1 then lot :: notOlder w lots else notOlder w lots := by
  simp only [notOlder, List.filter_cons, decide_eq_true_eq]

omit [LinearOrder α] [Zero α] in
theorem newer_eq_nil (h : ∀ lot ∈ lots, lot.1 ≤ w) : newer w lots = [] :=
  List.filter_eq_nil_iff.mpr fun lot hlot => by simpa using h lot hlot

omit [LinearOrder α] [Zero α] in
theorem notOlder_eq_nil (h : ∀ lot ∈ lots, lot.1 < w) : notOlder w lots = [] :=
  List.filter_eq_nil_iff.mpr fun lot hlot => by simpa using h lot hlot

/-- The first lot reaches the target: it alone decides. -/
theorem coversAt_cons_of_le (hadd : Accumulates P add) (hacc : acc < target)
    (hle : target ≤ add acc lot.2) (hnonneg : ∀ l ∈ lots, 0 ≤ l.2)
    (hnewest : ∀ l ∈ lots, l.1 ≤ lot.1) : CoversAt add target acc (lot :: lots) w ↔ lot.1 = w := by
  have hrest {ls : List (τ × α)} (hls : ∀ l ∈ ls, 0 ≤ l.2) : target ≤ addUp add acc (lot :: ls) :=
    hle.trans (hadd.le_addUp (hadd.closed _ _) hls)
  constructor
  · rintro ⟨hmem, hlt, -⟩
    rw [List.map_cons, List.mem_cons] at hmem
    rcases hmem with rfl | hmem
    · rfl
    obtain ⟨l, hl, rfl⟩ := List.mem_map.mp hmem
    refine ((hnewest l hl).lt_or_eq.resolve_left fun hold => ?_).symm
    rw [newer_cons, if_pos hold] at hlt
    exact absurd (hrest fun l hl => hnonneg l (List.mem_filter.mp hl).1) (not_le.mpr hlt)
  · rintro rfl
    refine ⟨.head _, ?_, .inl ?_⟩
    · rwa [newer_cons, if_neg (lt_irrefl _), newer_eq_nil hnewest]
    · rw [notOlder_cons, if_pos le_rfl]
      exact hrest fun l hl => hnonneg l (List.mem_filter.mp hl).1

/-- The first lot does not reach the target: the others decide, with its quantity. -/
theorem coversAt_cons_of_lt (hadd : Accumulates P add) (hacc : P acc) (hlt : add acc lot.2 < target)
    (hlot : 0 ≤ lot.2) (hnewest : ∀ l ∈ lots, l.1 ≤ lot.1) (hne : lots ≠ []) :
    CoversAt add target acc (lot :: lots) w ↔ CoversAt add target (add acc lot.2) lots w := by
  have hsome : ∃ l, l ∈ lots := List.exists_mem_of_ne_nil lots hne
  simp only [CoversAt, addUp_cons, List.map_cons, List.mem_cons, forall_eq_or_imp]
  constructor
  · rintro ⟨hmem, hnew, hcover⟩
    have hw : w ∈ lots.map Prod.fst ∧ w ≤ lot.1 := by
      rcases hmem with rfl | hmem
      · refine ⟨?_, le_rfl⟩
        rw [notOlder_cons, if_pos le_rfl, addUp_cons] at hcover
        by_contra hnot
        have hless : ∀ l ∈ lots, l.1 < lot.1 := fun l hl =>
          lt_of_le_of_ne (hnewest l hl) fun heq => hnot (heq ▸ List.mem_map_of_mem hl)
        rw [notOlder_eq_nil hless] at hcover
        obtain ⟨l, hl⟩ := hsome
        rcases hcover with hle | ⟨-, -, hmin⟩
        · exact absurd hle (not_le.mpr hlt)
        · exact absurd (hmin l hl) (not_le.mpr (hless l hl))
      · obtain ⟨l, hl, rfl⟩ := List.mem_map.mp hmem
        exact ⟨hmem, hnewest l hl⟩
    rw [notOlder_cons, if_pos hw.2, addUp_cons] at hcover
    refine ⟨hw.1, ?_, hcover.imp_right fun h => ⟨h.1, h.2.2⟩⟩
    rcases hw.2.lt_or_eq with hold | rfl
    · rwa [newer_cons, if_pos hold, addUp_cons] at hnew
    · rwa [newer_eq_nil hnewest]
  · rintro ⟨hmem, hnew, hcover⟩
    obtain ⟨l, hl, rfl⟩ := List.mem_map.mp hmem
    have hle := hnewest l hl
    rw [notOlder_cons, if_pos hle, addUp_cons]
    refine ⟨.inr hmem, ?_, hcover.imp_right fun h => ⟨h.1, hle, h.2⟩⟩
    rw [newer_cons]
    split
    next => exact hnew
    next hsame =>
      -- nothing is newer than the first lot
      have hnil : newer l.1 lots = [] :=
        newer_eq_nil fun l' hl' => (hnewest l' hl').trans (not_lt.mp hsame)
      rw [hnil]
      exact (hadd.le_add _ _ hacc hlot).trans_lt hlt

/-- Lots that are sorted are taken up to the time at which they reach the target. -/
theorem takeLots_eq_some_iff (hadd : Accumulates P add) (hacc : P acc) (hpos : 0 < target)
    (hlt : acc < target) (hne : lots ≠ []) (hnonneg : ∀ l ∈ lots, 0 ≤ l.2)
    (hsorted : lots.Pairwise fun a b => b.1 ≤ a.1) :
    takeLots add target acc entry lots = some w ↔ CoversAt add target acc lots w := by
  induction lots generalizing acc entry with
  | nil => exact absurd rfl hne
  | cons lot lots ih =>
      obtain ⟨hnewest, hlots⟩ := List.pairwise_cons.mp hsorted
      obtain ⟨hlot, hnonneg⟩ := List.forall_mem_cons.mp hnonneg
      rw [takeLots]
      by_cases hle : target ≤ add acc lot.2
      · rw [if_pos ⟨hpos, hle⟩, coversAt_cons_of_le hadd hlt hle hnonneg hnewest, Option.some_inj]
      · rw [if_neg fun h => hle h.2]
        have hlt' := not_le.mp hle
        by_cases hnil : lots = []
        · subst hnil
          simp only [takeLots, Option.some_inj, CoversAt, List.map_cons, List.map_nil,
            List.mem_singleton, newer_cons]
          constructor
          · rintro rfl
            refine ⟨rfl, by rwa [if_neg (lt_irrefl _)], .inr ⟨hlt', fun l hl => ?_⟩⟩
            rw [hl]
          · exact fun h => h.1.symm
        · rw [coversAt_cons_of_lt hadd hacc hlt' hlot hnewest hnil]
          exact ih (hadd.closed _ _) hlt' hnil hnonneg hlots

omit [LinearOrder α] [Zero α] in
theorem mem_newestFirst {l : τ × α} : l ∈ newestFirst lots ↔ l ∈ lots := List.mem_insertionSort _

omit [LinearOrder α] [Zero α] in
theorem pairwise_newestFirst (lots : List (τ × α)) :
    (newestFirst lots).Pairwise fun a b => b.1 ≤ a.1 := by
  have htotal : Std.Total fun a b : τ × α => b.1 ≤ a.1 := ⟨fun a b => le_total b.1 a.1⟩
  have htrans : IsTrans (τ × α) fun a b => b.1 ≤ a.1 := ⟨fun _ _ _ hab hbc => hbc.trans hab⟩
  exact List.pairwise_insertionSort _ lots

/-- The time at which lots, from the newest to the oldest, reach a target. -/
theorem coverTime_eq_some_iff (hadd : Accumulates P add) (hzero : P 0) (hpos : 0 < target)
    (hnonneg : ∀ l ∈ lots, 0 ≤ l.2) :
    coverTime add target lots = some w ↔ CoversAt add target 0 (newestFirst lots) w := by
  rw [coverTime]
  by_cases hnil : newestFirst lots = []
  · rw [hnil]
    simp [takeLots, CoversAt]
  · exact takeLots_eq_some_iff hadd hzero hpos hpos hnil
      (fun l hl => hnonneg l (mem_newestFirst.mp hl)) (pairwise_newestFirst lots)

end Basis
