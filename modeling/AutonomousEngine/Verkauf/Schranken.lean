import Mathlib.Data.List.Infix
import Mathlib.Tactic.NormNum

/-!
# Sell signals and the soft gates of a sale

A signal event carries what is to be traded and the decision context it comes
from.  Two marks of a context matter on the way to the broker.  A context with
`triggeredByStop` is a protective exit.  A context whose `portfolioReason` names
a rotation or a trim is churn.

The halt looks for the first mark in the context (`haltExemptProtectiveExit`).
The exit class, which compliance, the dust floor and the desktop's minimum hold
ask for, is looked up on the event itself, and an event has neither attribute.
So every event is unclassified (`classifyExitKind_eq_none`).

Quantities, prices and values are rational numbers.

Four gates on the way to the broker may hold a sale back although nothing is
wrong with it.  The portfolio manager asks for a minimum holding time, the
human-in-the-loop gate for an approval, the dust floor for a minimum size, and
the daily budget for a free slot.

The dust floor and the budget exempt exits without a class, and no event has a
class.  So the dust floor stops no sale (`dustFloorSkipsExit_eq_none`), and the
budget stops none that stays within the holding (`checkTrade_of_gehalten`).
-/

namespace Verkauf

/-- What a signal asks for. -/
inductive Action where
  | buy
  | sell
  | hold
deriving DecidableEq, Repr

/-- The fields of a decision context that are read on the way to the broker. -/
structure DecisionContext where
  currentPrice : Rat
  positionQty : Rat
  triggeredByStop : Bool := false
  portfolioReason : String := ""
deriving DecidableEq, Repr

/-- A signal with its context. -/
structure SignalEvent where
  symbol : String
  action : Action
  decisionContext : DecisionContext
  suggestedQuantity : Rat := 0
  isSimulation : Bool := false
deriving DecidableEq, Repr

/-! ## Protective exits -/

/-- Whether an order may pass the halt: a sale that the stop path has marked. -/
def haltExemptProtectiveExit (context : DecisionContext) (action : Action) : Bool :=
  action == .sell && context.triggeredByStop

/-! ## Exit classes -/

/-- The class of an exit. -/
inductive ExitKind where
  | risk
  | rotation
  | trim
deriving DecidableEq, Repr

/-- Python's `lower`, as a list of characters. -/
def lower (s : String) : List Char := s.toList.map Char.toLower

/-- Python's `startswith`. -/
def startsWith (p : String) (s : List Char) : Bool := p.toList.isPrefixOf s

/-- Python's `in` on texts. -/
def enthaelt (p : String) (s : List Char) : Bool := decide (p.toList <:+: s)

/-- The class that belongs to two attributes. -/
def exitKindOf (triggeredByStop : Option Bool) (portfolioReason : Option String) :
    Option ExitKind :=
  if triggeredByStop.getD false then some .risk
  else
    let reason := lower (portfolioReason.getD "")
    if startsWith "rotation" reason then some .rotation
    else if startsWith "trim" reason || startsWith "deconcentration" reason ||
        startsWith "sector_cap" reason || enthaelt "drift" reason ||
        enthaelt "sector_cap" reason then some .trim
    else none

/-- `getattr(event, "triggered_by_stop")`.  The dataclass has no such field. -/
def SignalEvent.getTriggeredByStop (_ : SignalEvent) : Option Bool := none

/-- `getattr(event, "portfolio_reason")`.  The dataclass has no such field. -/
def SignalEvent.getPortfolioReason (_ : SignalEvent) : Option String := none

def classifyExitKind (event : SignalEvent) : Option ExitKind :=
  exitKindOf event.getTriggeredByStop event.getPortfolioReason

/-- No event has a class, a protective exit as little as any other. -/
@[simp] theorem classifyExitKind_eq_none (event : SignalEvent) :
    classifyExitKind event = none := by
  show exitKindOf none none = none
  decide

/-! ## The minimum hold -/

/-- The trade book of the portfolio manager.  Times are in hours. -/
structure Handelsbuch where
  tradeHistory : String → List Rat
  consecutiveSellSignals : String → Nat
  consecutiveSellThreshold : Nat
  minHoldHours : Rat

/-- What the minimum hold says with its verdict. -/
inductive Haltegrund where
  | keinHandel
  | ueberbrueckt (signale : Nat)
  | zuFrueh (stunden mindestens : Rat) (fehlen : Nat)
  | erfuellt
deriving DecidableEq, Repr

/-- Whether a position may be sold: it has no trade, or enough sell signals in a
row, or the minimum holding time has passed since its last trade. -/
def canSellPosition (b : Handelsbuch) (now : Rat) (symbol : String) : Bool × Haltegrund :=
  match b.tradeHistory symbol with
  | [] => (true, .keinHandel)
  | t :: ts =>
      let consecutiveSells := b.consecutiveSellSignals symbol
      if b.consecutiveSellThreshold ≤ consecutiveSells then (true, .ueberbrueckt consecutiveSells)
      else
        let hoursHeld := now - ts.foldl max t
        if hoursHeld < b.minHoldHours then
          (false, .zuFrueh hoursHeld b.minHoldHours
            (b.consecutiveSellThreshold - consecutiveSells))
        else (true, .erfuellt)

/-! ## The dust floor -/

/-- The settings of the dust floor. -/
structure DustConfig where
  enabled : Bool := false
  minPositionPct : Rat := 1 / 10
  minEquityPct : Rat := 1 / 1000
deriving DecidableEq, Repr

/-- The rule that makes an exit dust. -/
inductive DustGrund where
  | belowPosition (notional threshold : Rat)
  | belowEquity (notional threshold : Rat)
deriving DecidableEq, Repr

/-- Whether an exit is dust.  Exits without a class, risk exits and full closes
are not. -/
def dustExitSkip (c : DustConfig) (notional positionValue equity : Rat)
    (exitKind : Option ExitKind) (isFullClose : Bool) : Option DustGrund :=
  if !c.enabled then none
  else if exitKind = none ∨ exitKind = some .risk then none
  else if isFullClose then none
  else if notional ≤ 0 then none
  else if 0 < positionValue ∧ 0 < c.minPositionPct ∧
      notional < positionValue * c.minPositionPct then
    some (.belowPosition notional (positionValue * c.minPositionPct))
  else if 0 < equity ∧ 0 < c.minEquityPct ∧ notional < equity * c.minEquityPct then
    some (.belowEquity notional (equity * c.minEquityPct))
  else none

def dustFloorSkipsExit (c : DustConfig) (event : SignalEvent) (qty heldQty equity : Rat) :
    Option DustGrund :=
  let price := event.decisionContext.currentPrice
  let orderQty := |qty|
  let posQty := |heldQty|
  dustExitSkip c (orderQty * price) (posQty * price) equity (classifyExitKind event)
    (decide (0 < posQty ∧ posQty * (999 / 1000) ≤ orderQty))

/-- The dust floor stops no exit. -/
@[simp] theorem dustFloorSkipsExit_eq_none (c : DustConfig) (event : SignalEvent)
    (qty heldQty equity : Rat) : dustFloorSkipsExit c event qty heldQty equity = none := by
  simp [dustFloorSkipsExit, dustExitSkip]

/-! ## Compliance -/

/-- An order as compliance sees it. -/
structure ComplianceOrder where
  symbol : String
  side : Action
  quantity : Rat
  price : Rat
  userId : String
  heldQty : Rat
  exitKind : Option ExitKind
deriving DecidableEq, Repr

/-- Where an order comes from. -/
inductive Quelle where
  | ai
  | humanApproved
deriving DecidableEq, Repr

/-- The compliance guardian.  The checks of `check_order` are a function of the
order here, and the daily budget is spelled out. -/
structure ComplianceGuardian where
  checkOrder : ComplianceOrder → Bool
  dailyTrades : Nat
  maxDailyTrades : Nat
  allowRiskReducingExits : Bool := true

def qtyEps : Rat := 1 / 1000000

/-- A sale within a long holding, and not a rotation or a trim. -/
def isRiskReducingExit (order : ComplianceOrder) : Bool :=
  order.side == .sell && !(order.exitKind == some .rotation || order.exitKind == some .trim) &&
    decide (0 < order.heldQty ∧ order.quantity ≤ order.heldQty + qtyEps)

def checkTrade (g : ComplianceGuardian) (order : ComplianceOrder) (source : Quelle) : Bool :=
  !(source != .humanApproved && !(g.allowRiskReducingExits && isRiskReducingExit order) &&
    decide (g.maxDailyTrades ≤ g.dailyTrades))

/-- A sale within the holding passes a spent budget. -/
theorem checkTrade_of_gehalten {g : ComplianceGuardian} {order : ComplianceOrder}
    (hflag : g.allowRiskReducingExits = true) (hside : order.side = .sell)
    (hkind : order.exitKind = none) (hpos : 0 < order.heldQty)
    (hle : order.quantity ≤ order.heldQty) (source : Quelle) :
    checkTrade g order source = true := by
  have heps : order.quantity ≤ order.heldQty + qtyEps :=
    le_add_of_le_of_nonneg hle (by norm_num [qtyEps])
  simp [checkTrade, isRiskReducingExit, hflag, hside, hkind, hpos, heps]

/-! ## Human in the loop -/

/-- The policy and what the gate reads from its store, `none` when reading
raises. -/
structure HitlLage where
  enabled : Bool := false
  autonomousUnlimited : Bool := false
  alwaysAllowRiskReducingSells : Bool := false
  maxValuePerTrade : Rat := 0
  maxValuePerDay : Rat := 0
  hasPending : Option Bool := some false
  dayNotional : Option Rat := some 0
  /-- Whether the value of the order can be booked. -/
  buchbar : Bool := true
deriving DecidableEq, Repr

def hitlQty (event : SignalEvent) (calculatedQty : Rat) : Rat :=
  if 0 < |calculatedQty| then |calculatedQty|
  else if 0 < |event.suggestedQuantity| then |event.suggestedQuantity|
  else if event.action = .sell then |event.decisionContext.positionQty|
  else 0

/-- Whether an order waits for a human.  An error holds it. -/
def hitlHoldsOrder (p : HitlLage) (event : SignalEvent) (calculatedQty : Rat) : Bool :=
  if !p.enabled then false
  else
    let orderValue := hitlQty event calculatedQty * event.decisionContext.currentPrice
    if p.autonomousUnlimited then false
    else if event.action = .sell ∧ 0 < event.decisionContext.positionQty ∧
        p.alwaysAllowRiskReducingSells then false
    else
      match p.hasPending with
      | none => true
      | some true => true
      | some false =>
          if orderValue ≤ 0 then true
          else
            match p.dayNotional with
            | none => true
            | some dayNotional =>
                if p.maxValuePerTrade < orderValue ∨
                    p.maxValuePerDay < dayNotional + orderValue then true
                else !p.buchbar

end Verkauf
