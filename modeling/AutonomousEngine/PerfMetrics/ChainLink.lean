import AutonomousEngine.PerfMetrics.Returns

/-!
# The console's chain

The console draws the return over the curve it is served.  It chains the days as
the engine does (`chainLink`), and it knows nothing of fees: the curve carries the
flows as they hit the equity, the fee taken out by the engine.

So the engine reads a flow and takes a fee from it, and the console reads what is
left.  Side by side the two walks keep the same base, growth and carry (`Agree`),
and the last percentage of the console is the return of the engine
(`pctSeries_getLast`).
-/

namespace PerfMetrics

open Basis

/-- A point of the chart.  A missing flow counts as none. -/
structure TwrPoint where
  eur : ℚ
  cashflow : Option ℚ
deriving DecidableEq, Repr

/-- The variables of the walk, and the point before. -/
structure Walk where
  prev : ℚ
  growth : ℚ
  carry : ℚ
  marketPnl : ℚ
deriving DecidableEq, Repr

/-- The rule of the console for a flow: what is left of the equity of its day, and what is carried
to the next one. -/
def stripOrDefer (prev eur flow : ℚ) : ℚ × ℚ :=
  let marketEquity := eur - flow
  if flow ≠ 0 then
    let impliedIfStripped := |marketEquity - prev|
    let impliedIfDeferred := |eur - prev|
    if marketEquity ≤ 0 ∨ impliedIfDeferred < impliedIfStripped then (eur, flow)
    else (marketEquity, 0)
  else (marketEquity, 0)

/-- One turn of the walk.  It answers with the percentage so far. -/
def Walk.next (w : Walk) (p : TwrPoint) : Walk × ℚ :=
  if 0 < w.prev then
    let (market, carry) := stripOrDefer w.prev p.eur (p.cashflow.getD 0 + w.carry)
    let growth := w.growth * (market / w.prev)
    ({ prev := p.eur
       growth
       carry
       marketPnl := w.marketPnl + (market - w.prev) }, (growth - 1) * 100)
  else ({ w with prev := p.eur }, (w.growth - 1) * 100)

def Walk.init (eur : ℚ) : Walk where
  prev := eur
  growth := 1
  carry := 0
  marketPnl := 0

structure Linked where
  pctSeries : List ℚ
  marketPnl : ℚ
deriving DecidableEq, Repr

def chainLink : List TwrPoint → Linked
  | [] => { pctSeries := [], marketPnl := 0 }
  | first :: rest =>
      let (walk, out) := feed Walk.next (Walk.init first.eur) rest
      { pctSeries := 0 :: out, marketPnl := walk.marketPnl }

def served (equity effective : List ℚ) : List TwrPoint :=
  List.zipWith (fun e f => ⟨e, some f⟩) equity effective

/-! ## The rule for a flow -/

/-- The console treats a flow as the engine does. -/
theorem stripOrDefer_eq (prev eur flow : ℚ) :
    stripOrDefer prev eur flow = (marketEquity prev eur flow, carried prev eur flow) := by
  rw [stripOrDefer, marketEquity, carried]
  by_cases hflow : flow = 0
  · rw [if_neg (not_not.mpr hflow), if_neg fun h : Lags prev eur flow => h.1 hflow,
      if_neg fun h : Lags prev eur flow => h.1 hflow]
  · rw [if_pos hflow]
    have hlags : Lags prev eur flow ↔ eur - flow ≤ 0 ∨ |eur - prev| < |eur - flow - prev| :=
      and_iff_right hflow
    simp only [hlags]
    split
    next => rfl
    next => rfl

theorem next_of_pos {w : Walk} {p : TwrPoint} (h : 0 < w.prev) : (w.next p).1 =
    { prev := p.eur
      growth := w.growth *
        (marketEquity w.prev p.eur (p.cashflow.getD 0 + w.carry) / w.prev)
      carry := carried w.prev p.eur (p.cashflow.getD 0 + w.carry)
      marketPnl := w.marketPnl +
        (marketEquity w.prev p.eur (p.cashflow.getD 0 + w.carry) - w.prev) } := by
  rw [Walk.next, if_pos h, stripOrDefer_eq]

theorem next_of_not {w : Walk} {p : TwrPoint} (h : ¬0 < w.prev) :
    (w.next p).1 = { w with prev := p.eur } := by
  rw [Walk.next, if_neg h]

/-! ## The last percentage -/

theorem next_pct (w : Walk) (p : TwrPoint) :
    (w.next p).2 = ((w.next p).1.growth - 1) * 100 := by
  unfold Walk.next
  split <;> rfl

theorem pct_getLast {pct : ℚ} {w : Walk} (h : pct = (w.growth - 1) * 100) (points : List TwrPoint) :
    (pct :: (feed Walk.next w points).2).getLast? =
      some (((feed Walk.next w points).1.growth - 1) * 100) := by
  induction points generalizing pct w with
  | nil => simp [h]
  | cons p points ih =>
      rw [feed_cons, List.getLast?_cons_cons]
      exact ih (next_pct w p)

theorem chainLink_getLast (first : TwrPoint) (rest : List TwrPoint) :
    (chainLink (first :: rest)).pctSeries.getLast? =
      some (((feed Walk.next (Walk.init first.eur) rest).1.growth - 1) * 100) :=
  pct_getLast (by simp [Walk.init]) rest

/-! ## Side by side -/

/-- The engine and the console stand at the same place. -/
structure Agree (c : Chain) (w : Walk) : Prop where
  prev : w.prev = c.prev
  growth : w.growth = c.growth
  carry : w.carry = c.carry

theorem agree_init (equity : ℚ) : Agree (Chain.init equity) (Walk.init equity) := ⟨rfl, rfl, rfl⟩

/-- The point that the console is served for a day. -/
def servedPoint (p : Point) (effective : ℚ) : TwrPoint := ⟨p.equity, some effective⟩

theorem Agree.link {c : Chain} {w : Walk} (h : Agree c w) (p : Point) :
    Agree (c.link p).1 (w.next (servedPoint p (c.link p).2)).1 := by
  obtain ⟨hprev, hgrowth, hcarry⟩ := h
  by_cases hbase : c.prev ≤ 0
  · rw [next_of_not (by rw [hprev]; exact hbase.not_gt), Chain.link, if_pos hbase]
    exact ⟨rfl, hgrowth, hcarry⟩
  · rw [next_of_pos (by rw [hprev]; exact not_le.mp hbase), hprev, hgrowth, hcarry, Chain.link,
      if_neg hbase]
    -- the fee is out of the served flow, so both read the same flow here
    have hflow : p.flow - fee (p.flow + c.carry) (p.equity - c.prev) + c.carry =
        p.flow + c.carry - fee (p.flow + c.carry) (p.equity - c.prev) := by
      linarith
    simp only [servedPoint, Option.getD_some, hflow]
    exact ⟨rfl, by rw [add_sub_cancel], rfl⟩

/-! ## The return of a curve with two points -/

@[simp] theorem length_aligned (n : ℕ) (cashflows : List ℚ) : (aligned n cashflows).length = n := by
  simp [aligned]

theorem map_equity_zipWith {equity cf : List ℚ} (h : cf.length = equity.length) :
    (List.zipWith Point.mk equity cf).map Point.equity = equity := by
  induction equity generalizing cf with
  | nil => simp
  | cons e equity ih =>
      cases cf with
      | nil => cases h
      | cons f cf => simp [ih (Nat.succ.inj h)]

theorem map_flow_zipWith {equity cf : List ℚ} (h : cf.length = equity.length) :
    (List.zipWith Point.mk equity cf).map Point.flow = cf := by
  induction equity generalizing cf with
  | nil => rw [List.length_eq_zero_iff.mp h]; rfl
  | cons e equity ih =>
      cases cf with
      | nil => cases h
      | cons f cf => simp [ih (Nat.succ.inj h)]

/-- What is served are the days with the flows as they hit the equity. -/
theorem served_map (points : List Point) (effective : List ℚ) :
    served (points.map Point.equity) effective =
      List.zipWith servedPoint points effective := by
  rw [served, List.zipWith_map_left]
  rfl

/-- A curve with two points is a first day and at least one more. -/
theorem exists_points {equity : List ℚ} (cashflows : List ℚ) (h : 2 ≤ equity.length) :
    ∃ first second rest,
      List.zipWith Point.mk equity (aligned equity.length cashflows) = first :: second :: rest := by
  have hlen : 2 ≤ (List.zipWith Point.mk equity (aligned equity.length cashflows)).length := by
    simpa using h
  rcases hp : List.zipWith Point.mk equity (aligned equity.length cashflows) with
    _ | ⟨first, _ | ⟨second, rest⟩⟩
  · simp [hp] at hlen
  · simp [hp] at hlen
  · exact ⟨first, second, rest, rfl⟩

/-- The console's last percentage is the engine's return, and what the engine takes
from the flows it books as funding costs. -/
theorem pctSeries_getLast {equity : List ℚ} (cashflows : List ℚ) (h : 2 ≤ equity.length) :
    (chainLink (served equity
        (computeCashflowAdjustedReturns equity cashflows).effectiveCashflows)).pctSeries.getLast? =
      some (computeCashflowAdjustedReturns equity cashflows).twrPct ∧
    (computeCashflowAdjustedReturns equity cashflows).effectiveCashflows.sum +
        (computeCashflowAdjustedReturns equity cashflows).fundingCosts =
      (computeCashflowAdjustedReturns equity cashflows).netDeposits := by
  obtain ⟨first, second, rest, hp⟩ := exists_points cashflows h
  have hlen : (aligned equity.length cashflows).length = equity.length := length_aligned _ _
  have hequity := map_equity_zipWith hlen
  have hflow := map_flow_zipWith hlen
  rw [hp] at hequity hflow
  simp only [computeCashflowAdjustedReturns, hp]
  constructor
  · rw [← hequity, served_map, List.zipWith_cons_cons, chainLink_getLast]
    have hagree : Agree (feed Chain.link (Chain.init first.equity) (second :: rest)).1
        (feed Walk.next (Walk.init first.equity) (List.zipWith servedPoint (second :: rest)
          (feed Chain.link (Chain.init first.equity) (second :: rest)).2)).1 :=
      feed_fed servedPoint (fun _ _ p hcw => hcw.link p) _ (agree_init first.equity)
    show some _ = some _
    rw [servedPoint, hagree.growth]
  · have hbalance := feed_balance (Chain.init first.equity) (second :: rest)
    rw [← hflow]
    simp only [List.map_cons, List.sum_cons] at hbalance ⊢
    rw [add_assoc, hbalance]
    simp [Chain.init]

/-- A curve with a deposit of 100 that is dated a day early, and of which 98 arrive. -/
def lateDeposit : List ℚ := [1000, 1010, 1108]

theorem pctSeries_getLast_lateDeposit :
    2 ≤ lateDeposit.length ∧
    (chainLink (served lateDeposit (computeCashflowAdjustedReturns lateDeposit
        [0, 100]).effectiveCashflows)).pctSeries.getLast? =
      some (computeCashflowAdjustedReturns lateDeposit [0, 100]).twrPct ∧
    (computeCashflowAdjustedReturns lateDeposit [0, 100]).effectiveCashflows.sum +
        (computeCashflowAdjustedReturns lateDeposit [0, 100]).fundingCosts =
      (computeCashflowAdjustedReturns lateDeposit [0, 100]).netDeposits :=
  ⟨by decide, pctSeries_getLast [0, 100] (by decide)⟩

end PerfMetrics
