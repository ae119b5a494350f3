import AutonomousEngine.PerfMetrics.Returns
import Mathlib.Tactic.FieldSimp
import Mathlib.Tactic.Ring

/-!
# When a flow does not move the return

Take a curve that is made of market moves and flows alone: each day the equity
grows by a factor, and the flow of the day is added to it without a fee
(`curve`).  The return should be the product of the factors.

It is, as long as the engine attributes each flow to the day it is dated on.  It
reads a flow as the gross amount of a transfer with a fee when the market move of
the day goes against the flow by no more than such a fee, and it takes a flow for
one that has not arrived when the market moves more than the equity does.  A day
on which neither happens is `Attributed`, and the return is right after each day
of a curve exactly when all its days are.
-/

namespace PerfMetrics

open Basis

/-- The market of a day and the flow on it. -/
structure Move where
  factor : ℚ
  flow : ℚ
deriving DecidableEq, Repr

def Move.close (m : Move) (prev : ℚ) : ℚ := prev * m.factor + m.flow

/-- The equities at the ends of the days. -/
def curve : ℚ → List Move → List ℚ
  | _, [] => []
  | prev, m :: moves => m.close prev :: curve (m.close prev) moves

/-- The market never takes everything, and the account is never empty. -/
def Funded : ℚ → List Move → Prop
  | prev, [] => 0 < prev
  | prev, m :: moves => 0 < prev ∧ 0 < m.factor ∧ Funded (m.close prev) moves

/-- The flow of a day is read as one that arrived on it in full: the equity does not
move less than the market does, and the market does not take from the flow what the
fee of a transfer may be. -/
def Attributed (prev : ℚ) (m : Move) : Prop :=
  m.flow = 0 ∨ ¬FeePlausible m.flow (m.close prev - prev) ∧
    |prev * m.factor - prev| ≤ |m.close prev - prev|

instance (prev : ℚ) (m : Move) : Decidable (Attributed prev m) :=
  inferInstanceAs (Decidable (_ ∨ _ ∧ _))

def AllAttributed : ℚ → List Move → Prop
  | _, [] => True
  | prev, m :: moves => Attributed prev m ∧ AllAttributed (m.close prev) moves

instance decidableAllAttributed : ∀ (prev : ℚ) (moves : List Move),
    Decidable (AllAttributed prev moves)
  | _, [] => .isTrue trivial
  | prev, m :: moves =>
      have := decidableAllAttributed (m.close prev) moves
      inferInstanceAs (Decidable (_ ∧ _))

/-- The growth of the market over some days. -/
def market (moves : List Move) : ℚ := (moves.map Move.factor).prod

/-! ## One day -/

/-- The state of the loop when every flow so far arrived. -/
def Chain.clear (prev growth : ℚ) : Chain where
  prev := prev
  growth := growth
  carry := 0
  fundingCosts := 0

/-- The day of the curve as the engine reads it. -/
def Move.point (m : Move) (prev : ℚ) : Point := ⟨m.close prev, m.flow⟩

/-- The days of a curve as the engine reads them. -/
def points : ℚ → List Move → List Point
  | _, [] => []
  | prev, m :: moves => m.point prev :: points (m.close prev) moves

variable {prev growth : ℚ} {m : Move}

theorem link_clear (hprev : 0 < prev) :
    ((Chain.clear prev growth).link (m.point prev)).1 =
      { prev := m.close prev
        growth := growth * (marketEquity prev (m.close prev)
          (m.flow - fee m.flow (m.close prev - prev)) / prev)
        carry := carried prev (m.close prev) (m.flow - fee m.flow (m.close prev - prev))
        fundingCosts := fee m.flow (m.close prev - prev) } := by
  simp only [Chain.link, Chain.clear, Move.point, if_neg hprev.not_ge, add_zero, zero_add]
  rw [add_sub_cancel]

/-- A flow that is read on its day leaves the market's factor. -/
theorem link_of_attributed (hprev : 0 < prev) (hfactor : 0 < m.factor) (h : Attributed prev m) :
    ((Chain.clear prev growth).link (m.point prev)).1 =
      Chain.clear (m.close prev) (growth * m.factor) := by
  have hmarket : m.close prev - m.flow = prev * m.factor := by
    simp [Move.close]
  have hfee : fee m.flow (m.close prev - prev) = 0 := by
    rcases h with h | ⟨h, -⟩
    · rw [h, fee_zero]
    · exact fee_eq_zero_iff.mpr h
  have hlags : ¬Lags prev (m.close prev) m.flow := by
    rintro ⟨hne, hleft | hmoves⟩
    · rw [hmarket] at hleft
      exact absurd (mul_pos hprev hfactor) hleft.not_gt
    · rw [hmarket] at hmoves
      rcases h with h | ⟨-, h⟩
      · exact hne h
      · exact absurd hmoves h.not_gt
  rw [link_clear hprev, hfee, sub_zero, marketEquity, carried, if_neg hlags, if_neg hlags, hmarket,
    mul_div_cancel_left₀ _ hprev.ne']
  rfl

/-- A flow that is not shows: costs are booked, or the growth is not the market's. -/
theorem attributed_of_link (hprev : 0 < prev) (hgrowth : growth ≠ 0)
    (h : ((Chain.clear prev growth).link (m.point prev)).1.growth = growth * m.factor)
    (hcosts : ((Chain.clear prev growth).link (m.point prev)).1.fundingCosts = 0) :
    Attributed prev m := by
  rw [link_clear hprev] at h hcosts
  have hfee : fee m.flow (m.close prev - prev) = 0 := hcosts
  refine or_iff_not_imp_left.mpr fun hne => ⟨fee_eq_zero_iff.mp hfee, ?_⟩
  by_contra hless
  have hlags : Lags prev (m.close prev) m.flow := by
    refine ⟨hne, .inr ?_⟩
    simpa [Move.close] using hless
  simp only [hfee, sub_zero, marketEquity, if_pos hlags] at h
  have hfactor : m.close prev / prev = m.factor := mul_left_cancel₀ hgrowth h
  have hclose : m.close prev = prev * m.factor := by
    rw [← hfactor, mul_div_cancel₀ _ hprev.ne']
  refine hne ?_
  rw [Move.close] at hclose
  linarith

/-! ## All days -/

/-- The growth and the costs after some days are the market's and none. -/
def Clear (prev growth : ℚ) (moves : List Move) : Prop :=
  (feed Chain.link (Chain.clear prev growth) (points prev moves)).1.growth =
      growth * market moves ∧
    (feed Chain.link (Chain.clear prev growth) (points prev moves)).1.fundingCosts = 0

@[simp] theorem market_nil : market [] = 1 := rfl

@[simp] theorem market_cons (m : Move) (moves : List Move) :
    market (m :: moves) = m.factor * market moves := by
  simp [market]

theorem clear_nil (prev growth : ℚ) : Clear prev growth [] := by
  simp [Clear, points, Chain.clear]

theorem clear_cons (hprev : 0 < prev) (hfactor : 0 < m.factor) (h : Attributed prev m)
    (moves : List Move) :
    Clear prev growth (m :: moves) ↔ Clear (m.close prev) (growth * m.factor) moves := by
  simp only [Clear, points, feed_cons, link_of_attributed hprev hfactor h, market_cons, mul_assoc]

theorem attributed_of_clear (hprev : 0 < prev) (hgrowth : growth ≠ 0)
    (h : Clear prev growth [m]) : Attributed prev m := by
  obtain ⟨hright, hcosts⟩ := h
  simp only [points, feed_cons, feed_nil, market_cons, market_nil, mul_one] at hright hcosts
  exact attributed_of_link hprev hgrowth hright hcosts

theorem forall_clear_iff {moves : List Move} (hgrowth : growth ≠ 0) (h : Funded prev moves) :
    (∀ k, Clear prev growth (moves.take k)) ↔ AllAttributed prev moves := by
  induction moves generalizing prev growth with
  | nil => simp [clear_nil, AllAttributed]
  | cons m moves ih =>
      obtain ⟨hprev, hfactor, hrest⟩ := h
      have ih := ih (mul_ne_zero hgrowth hfactor.ne') hrest
      constructor
      · intro hall
        have hm : Attributed prev m := attributed_of_clear hprev hgrowth (hall 1)
        exact ⟨hm, ih.mp fun k => (clear_cons hprev hfactor hm _).mp (hall (k + 1))⟩
      · rintro ⟨hm, hmoves⟩ k
        cases k with
        | zero => exact clear_nil _ _
        | succ k => exact (clear_cons hprev hfactor hm _).mpr (ih.mpr hmoves k)

/-! ## The returns of a curve -/

theorem aligned_self (cashflows : List ℚ) : aligned cashflows.length cashflows = cashflows := by
  refine List.ext_getElem (by simp [aligned]) fun i hi hi' => ?_
  simp [aligned, List.getElem?_eq_getElem hi']

@[simp] theorem length_curve (prev : ℚ) (moves : List Move) :
    (curve prev moves).length = moves.length := by
  induction moves generalizing prev with
  | nil => rfl
  | cons m moves ih => simp [curve, ih]

theorem zipWith_curve (prev : ℚ) (moves : List Move) :
    List.zipWith Point.mk (curve prev moves) (moves.map Move.flow) = points prev moves := by
  induction moves generalizing prev with
  | nil => rfl
  | cons m moves ih => simp [curve, points, Move.point, ih]

/-- The returns over a curve, whatever is said to have arrived before it. -/
def returnsOf (start opening : ℚ) (moves : List Move) : Returns :=
  computeCashflowAdjustedReturns (start :: curve start moves) (opening :: moves.map Move.flow)

theorem returnsOf_eq (start opening : ℚ) (moves : List Move) :
    (returnsOf start opening moves).twrPct =
        ((feed Chain.link (Chain.init start) (points start moves)).1.growth - 1) * 100 ∧
      (returnsOf start opening moves).fundingCosts =
        (feed Chain.link (Chain.init start) (points start moves)).1.fundingCosts := by
  have hcf : aligned (start :: curve start moves).length (opening :: moves.map Move.flow) =
      opening :: moves.map Move.flow := by
    have := aligned_self (opening :: moves.map Move.flow)
    simpa using this
  cases moves with
  | nil =>
      simp only [returnsOf, computeCashflowAdjustedReturns, hcf]
      exact ⟨by simp [points, Chain.init], rfl⟩
  | cons m moves =>
      simp only [returnsOf, computeCashflowAdjustedReturns, hcf, List.zipWith_cons_cons,
        zipWith_curve]
      exact ⟨rfl, rfl⟩

/-- The return of a curve is the market's after each of its days, and no costs are
booked, exactly when every flow is read on its day. -/
theorem returns_neutral_iff {start opening : ℚ} {moves : List Move} (h : Funded start moves) :
    (∀ k, (returnsOf start opening (moves.take k)).twrPct = (market (moves.take k) - 1) * 100 ∧
        (returnsOf start opening (moves.take k)).fundingCosts = 0) ↔
      AllAttributed start moves := by
  rw [← forall_clear_iff one_ne_zero h]
  refine forall_congr' fun k => ?_
  obtain ⟨htwr, hcosts⟩ := returnsOf_eq start opening (moves.take k)
  rw [htwr, hcosts, Clear, one_mul]
  refine and_congr ⟨fun heq => ?_, fun heq => ?_⟩ Iff.rfl
  · have := mul_right_cancel₀ (by norm_num : (100 : ℚ) ≠ 0) heq
    exact sub_left_injective this
  · show ((feed Chain.link (Chain.clear start 1) _).1.growth - 1) * 100 = _
    rw [heq]

/-- A deposit of 500 into 1000 on a day on which the market loses half a percent, and
a day without a flow. -/
def depositOnDip : List Move := [⟨995 / 1000, 500⟩, ⟨102 / 100, 0⟩]

/-- A deposit of 1000 into 1000 while the market gains a percent, and a withdrawal. -/
def depositOnGain : List Move := [⟨101 / 100, 1000⟩, ⟨99 / 100, -500⟩]

theorem returns_neutral_depositOnGain :
    Funded 1000 depositOnGain ∧ AllAttributed 1000 depositOnGain ∧
    ∀ k, (returnsOf 1000 0 (depositOnGain.take k)).twrPct =
        (market (depositOnGain.take k) - 1) * 100 ∧
      (returnsOf 1000 0 (depositOnGain.take k)).fundingCosts = 0 := by
  have hfunded : Funded 1000 depositOnGain := by
    simp only [depositOnGain, Funded, Move.close]
    norm_num
  have hall : AllAttributed 1000 depositOnGain := by decide +kernel
  exact ⟨hfunded, hall, (returns_neutral_iff hfunded).mpr hall⟩

/-- The loss of the market is booked as a fee of the deposit. -/
theorem returns_depositOnDip : Funded 1000 depositOnDip ∧
    curve 1000 depositOnDip = [1495, 15249 / 10] ∧
    ¬((returnsOf 1000 0 depositOnDip).twrPct = (market depositOnDip - 1) * 100 ∧
      (returnsOf 1000 0 depositOnDip).fundingCosts = 0) := by
  refine ⟨?_, ?_, fun h => ?_⟩
  · simp only [depositOnDip, Funded, Move.close]
    norm_num
  · decide +kernel
  · have hcosts : (returnsOf 1000 0 depositOnDip).fundingCosts = 5 := by decide +kernel
    rw [h.2] at hcosts
    norm_num at hcosts

end PerfMetrics
