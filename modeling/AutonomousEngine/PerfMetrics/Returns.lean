import AutonomousEngine.Basis.Mealy
import Mathlib.Algebra.BigOperators.Group.List.Basic
import Mathlib.Tactic.Linarith

/-!
# Returns without the cash flows

A deposit or a withdrawal is no performance.  The equity curve is broken at each
flow, and the returns of the pieces are chained (`computeCashflowAdjustedReturns`).

Two things get in the way of taking a flow out of the day it is dated on.  The
account receives less than was sent when the transfer costs a fee: a difference
within the bounds of such a fee is booked as funding costs, and only what arrived
counts as the flow (`fee`).  And the money may arrive later: when the day looks
flatter with the flow left in than with it taken out, the flow is carried to the
next day (`lags`).
-/

namespace PerfMetrics

open Basis

/-- A day of the curve: the equity at its end, and the flow in it. -/
structure Point where
  equity : ℚ
  flow : ℚ
deriving DecidableEq, Repr

/-! ## One day -/

def fundingFeePct : ℚ := 15 / 1000

def fundingFeeCapUsd : ℚ := 40

def fundingFeeTolUsd : ℚ := 2

/-- How far a flow exceeds its effect on the equity: a deposit credited net of a
fee, or a withdrawal that drained more than was asked for. -/
def overshoot (flow delta : ℚ) : ℚ :=
  if 0 < flow then flow - max delta 0 else flow - min delta 0

def feeBound (flow : ℚ) : ℚ := min (fundingFeePct * |flow|) fundingFeeCapUsd + fundingFeeTolUsd

/-- Whether the overshoot of a flow may be the fee of its transfer. -/
def FeePlausible (flow delta : ℚ) : Prop :=
  flow ≠ 0 ∧ 0 < overshoot flow delta ∧ overshoot flow delta ≤ feeBound flow

instance (flow delta : ℚ) : Decidable (FeePlausible flow delta) :=
  inferInstanceAs (Decidable (_ ∧ _ ∧ _))

def fee (flow delta : ℚ) : ℚ := if FeePlausible flow delta then overshoot flow delta else 0

/-- Whether a flow is carried to the next day: without it nothing would be left, or
the day moves less with the flow left in the equity than with it taken out. -/
def Lags (prev equity flow : ℚ) : Prop :=
  flow ≠ 0 ∧ (equity - flow ≤ 0 ∨ |equity - prev| < |equity - flow - prev|)

instance (prev equity flow : ℚ) : Decidable (Lags prev equity flow) :=
  inferInstanceAs (Decidable (_ ∧ (_ ∨ _)))

/-- The equity of a day without the flow that arrived on it. -/
def marketEquity (prev equity flow : ℚ) : ℚ :=
  if Lags prev equity flow then equity else equity - flow

def carried (prev equity flow : ℚ) : ℚ := if Lags prev equity flow then flow else 0

/-! ## The chain -/

/-- The variables of the loop, and the equity of the day before. -/
structure Chain where
  prev : ℚ
  growth : ℚ
  carry : ℚ
  fundingCosts : ℚ
deriving DecidableEq, Repr

/-- One turn of the loop.  It answers with the flow as it hit the equity. -/
def Chain.link (c : Chain) (p : Point) : Chain × ℚ :=
  if c.prev ≤ 0 then
    -- no base for a return
    ({ c with prev := p.equity }, p.flow)
  else
    let gross := p.flow + c.carry
    let cost := fee gross (p.equity - c.prev)
    let flow := gross - cost
    ({ prev := p.equity
       growth := c.growth * (1 + (marketEquity c.prev p.equity flow / c.prev - 1))
       carry := carried c.prev p.equity flow
       fundingCosts := c.fundingCosts + cost }, p.flow - cost)

/-- The chain before the first day after the inception. -/
def Chain.init (equity : ℚ) : Chain where
  prev := equity
  growth := 1
  carry := 0
  fundingCosts := 0

structure Returns where
  twrPct : ℚ
  netDeposits : ℚ
  pnlNetOfDeposits : ℚ
  fundingCosts : ℚ
  effectiveCashflows : List ℚ
deriving DecidableEq, Repr

/-- The flows as far as the curve goes, none where they are missing. -/
def aligned (n : ℕ) (cashflows : List ℚ) : List ℚ :=
  (List.range n).map fun i => cashflows.getD i 0

/-- `compute_cashflow_adjusted_returns`.  The dates are not read. -/
def computeCashflowAdjustedReturns (equity cashflows : List ℚ) : Returns :=
  let cf := aligned equity.length cashflows
  match List.zipWith Point.mk equity cf with
  | first :: second :: rest =>
      let (chain, effective) := feed Chain.link (Chain.init first.equity) (second :: rest)
      { twrPct := (chain.growth - 1) * 100
        netDeposits := cf.sum
        pnlNetOfDeposits := equity.getLastD 0 - equity.headD 0 - cf.sum + chain.fundingCosts
        fundingCosts := chain.fundingCosts
        effectiveCashflows := first.flow :: effective }
  | _ =>
      { twrPct := 0
        netDeposits := cf.sum
        pnlNetOfDeposits := 0
        fundingCosts := 0
        effectiveCashflows := cf }

/-! ## The fee moves from the flows to the costs -/

theorem fee_eq_zero_iff {flow delta : ℚ} : fee flow delta = 0 ↔ ¬FeePlausible flow delta := by
  unfold fee
  constructor
  · intro h hfee
    rw [if_pos hfee] at h
    exact hfee.2.1.ne' h
  · intro h
    rw [if_neg h]

@[simp] theorem fee_zero (delta : ℚ) : fee 0 delta = 0 := by
  simp [fee, FeePlausible]

/-- What a day takes from its flow it adds to the costs. -/
theorem link_balance (c : Chain) (p : Point) :
    (c.link p).2 + (c.link p).1.fundingCosts = p.flow + c.fundingCosts := by
  unfold Chain.link
  split
  next => rfl
  next =>
    dsimp only
    linarith

theorem feed_balance (c : Chain) (points : List Point) :
    (feed Chain.link c points).2.sum + (feed Chain.link c points).1.fundingCosts =
      (points.map Point.flow).sum + c.fundingCosts := by
  induction points generalizing c with
  | nil => simp
  | cons p points ih =>
      simp only [feed_cons, List.sum_cons, List.map_cons]
      have hday := link_balance c p
      have hrest := ih (c.link p).1
      linarith

end PerfMetrics
