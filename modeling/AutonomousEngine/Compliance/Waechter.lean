import AutonomousEngine.Basis.Interleave
import Mathlib.Algebra.Order.Ring.Rat

/-!
# The checks of the guardian

`check_order` puts an order through its gates one after the other.  The gates on
the order alone are functions here.  Two gates look at what was approved before:
the wash trade gate at a buffer of recent trades, the throttle at a buffer of
the orders of the last second.

Many threads check orders at the same time, so the model follows a call from one
contact with the state of the guardian to the next one (`Punkt`).  The wash
trade gate reads the clock and then copies its buffer under one lock.  The
throttle reads the clock again, before its critical section.  The record joins
the buffer of the wash trade gate last, under the first lock again, and trades
that are older than the window leave it there.  An exception at any point is a
rejection.
-/

namespace Compliance

open Basis

/-- What Python does with the letters of a text. -/
structure Schrift where
  strip : String → String
  upper : String → String
  lower : String → String
  isalpha : Char → Bool

/-- An order, with the fields it carries. -/
structure Order where
  symbol : Option String
  side : Option String
  quantity : Option ℚ
  price : Option ℚ
  strategyId : Option String
  timestamp : Option String
  userId : Option String
  assetClass : Option String
  assetType : Option String
  heldQty : Option ℚ
deriving DecidableEq, Repr

/-- A trade as the buffers hold it. -/
structure TradeRecord where
  symbol : Option String
  side : Option String
  timestamp : ℚ
  userId : Option String
deriving DecidableEq, Repr

def Order.record (order : Order) (now : ℚ) : TradeRecord where
  symbol := order.symbol
  side := order.side
  timestamp := now
  userId := order.userId

/-- The limits of the guardian. -/
structure Regeln where
  schrift : Schrift
  restrictedList : List String
  maxOrderValue : ℚ
  washTradeWindowSeconds : ℚ
  hftMaxOrdersPerSecSymbol : Nat
  hftMaxOrdersPerSecAggregate : Nat

/-- The buffers of the guardian, and the clock of the engine. -/
structure Waechter where
  recentTrades : List TradeRecord
  recentBuys : List ℚ
  hftRecentOrders : List TradeRecord
  jetzt : ℚ

/-- What `check_order` says: a rejection with its code, or an approval with the
record it stored. -/
inductive Urteil where
  | abgelehnt (reasonCode : String)
  | genehmigt (record : TradeRecord)
deriving DecidableEq, Repr

def qtyEps : ℚ := 1 / 1000000

def recentBuysWindowSec : ℚ := 7200

/-! ## Gates on the order alone -/

section Schranken

variable (R : Regeln) (order : Order)

/-- A declared asset class is US equity, or none is declared. -/
def assetClassOk (declared : Option String) : Bool :=
  match declared with
  | none => true
  | some d => R.schrift.lower (R.schrift.strip d) == "us_equity"

def isSpotUsEquity : Bool :=
  assetClassOk R order.assetClass && assetClassOk R order.assetType &&
    match order.symbol with
    | none => false
    | some symbol =>
        match (R.schrift.upper (R.schrift.strip symbol)).toList with
        | [] => false
        | c :: cs => decide (cs.length < 10) && R.schrift.isalpha c &&
            (c :: cs).all fun c => R.schrift.isalpha c || c == '.' || c == '-'

def checkMifidFields : Bool :=
  order.symbol.isSome && order.side.isSome && order.quantity.isSome && order.price.isSome &&
    order.strategyId.isSome && order.timestamp.isSome

/-- `_check_risk_limits`: a missing field is a rejection, and a sale within the
holding is exempt. -/
def checkRiskLimits : Bool :=
  match order.quantity, order.price with
  | some quantity, some price =>
      decide (quantity * price ≤ R.maxOrderValue) ||
        (order.side == some "sell" && decide (0 < order.heldQty.getD 0) &&
          decide (quantity ≤ order.heldQty.getD 0 + qtyEps))
  | _, _ => false

/-- The gates before the one for wash trades: the code of the first that rejects. -/
def vorpruefung : Option String :=
  if order.symbol.any fun symbol => R.restrictedList.contains symbol then
    some "restricted_symbol"
  else if !isSpotUsEquity R order then some "non_spot_us_equity"
  else if !checkMifidFields order then some "missing_mifid_fields"
  else none

end Schranken

/-! ## Gates on what was approved before -/

def oppositeSide (side : Option String) : String := if side = some "buy" then "sell" else "buy"

/-- `_detect_wash_trade`, on the snapshot and the time read before it. -/
def detectWashTrade (R : Regeln) (now : ℚ) (snapshot : List TradeRecord) (order : Order) : Bool :=
  snapshot.any fun trade =>
    trade.symbol == order.symbol && trade.side == some (oppositeSide order.side) &&
      trade.userId == order.userId &&
      decide (now - trade.timestamp < R.washTradeWindowSeconds)

section Abschnitte

variable (R : Regeln) (s : Waechter) (record : TradeRecord)

/-- The orders of the last second, as of the time of a record. -/
def hftHousekeep : List TradeRecord :=
  s.hftRecentOrders.filter fun o => decide (record.timestamp - o.timestamp < 1)

def hftErlaubt : Bool :=
  let userHftOrders := (hftHousekeep s record).filter fun o => o.userId == record.userId
  let symbolHftOrders := userHftOrders.filter fun o => o.symbol == record.symbol
  decide (userHftOrders.length < R.hftMaxOrdersPerSecAggregate) &&
    decide (symbolHftOrders.length < R.hftMaxOrdersPerSecSymbol)

def cleanupRecentTrades (trades : List TradeRecord) : List TradeRecord :=
  trades.filter fun t => decide (s.jetzt - t.timestamp < R.washTradeWindowSeconds)

def merkeBuy : List ℚ :=
  if R.schrift.lower (record.side.getD "") = "buy" then
    (s.recentBuys ++ [record.timestamp]).filter fun t =>
      decide (record.timestamp - recentBuysWindowSec ≤ t)
  else s.recentBuys

def recordRecentTrade : Waechter :=
  { s with
    recentTrades := cleanupRecentTrades R s (s.recentTrades ++ [record])
    recentBuys := merkeBuy R s record }

end Abschnitte

/-! ## Calls of `check_order` -/

/-- What a call does next. -/
inductive Punkt where
  /-- The gates on the order, then the clock. -/
  | beginn (order : Order)
  | washSnapshot (order : Order) (now : ℚ)
  | hftUhr (order : Order)
  | hftAbschnitt (record : TradeRecord)
  | merken (record : TradeRecord)
deriving DecidableEq, Repr

def nachVorpruefung (R : Regeln) (order : Order) (now : ℚ) : Punkt ⊕ Urteil :=
  match vorpruefung R order with
  | some code => .inr (.abgelehnt code)
  | none => .inl (.washSnapshot order now)

def nachSnapshot (R : Regeln) (now : ℚ) (snapshot : List TradeRecord) (order : Order) :
    Punkt ⊕ Urteil :=
  if detectWashTrade R now snapshot order then .inr (.abgelehnt "wash_trade")
  else if !checkRiskLimits R order then .inr (.abgelehnt "max_order_value")
  else .inl (.hftUhr order)

/-- One contact of a call with the guardian. -/
inductive Zugriff (R : Regeln) : Waechter → Punkt → Waechter → Punkt ⊕ Urteil → Prop where
  | beginn {s order} : Zugriff R s (.beginn order) s (nachVorpruefung R order s.jetzt)
  | washSnapshot {s order now} :
      Zugriff R s (.washSnapshot order now) s (nachSnapshot R now s.recentTrades order)
  | hftUhr {s order} : Zugriff R s (.hftUhr order) s (.inl (.hftAbschnitt (order.record s.jetzt)))
  | hftGedrosselt {s record} : hftErlaubt R s record = false →
      Zugriff R s (.hftAbschnitt record) { s with hftRecentOrders := hftHousekeep s record }
        (.inr (.abgelehnt "hft_throttle"))
  | hftErlaubt {s record} : hftErlaubt R s record = true →
      Zugriff R s (.hftAbschnitt record)
        { s with hftRecentOrders := hftHousekeep s record ++ [record] } (.inl (.merken record))
  | merken {s record} :
      Zugriff R s (.merken record) (recordRecentTrade R s record) (.inr (.genehmigt record))
  | fehler {s q} : Zugriff R s q s (.inr (.abgelehnt "system_error"))
  /-- The record was appended and the clean-up raised. -/
  | merkenFehler {s record} : Zugriff R s (.merken record)
      { s with recentTrades := s.recentTrades ++ [record] } (.inr (.abgelehnt "system_error"))

/-- The clock moves by itself, in either direction. -/
def Uhrzeit (s s' : Waechter) : Prop := ∃ jetzt, s' = { s with jetzt := jetzt }

def checkOrder (R : Regeln) : Machine Waechter Order Punkt Urteil where
  entry := .beginn
  access := Zugriff R
  idle := Uhrzeit

/-- A guardian that has approved nothing. -/
def Frisch (s : Waechter) : Prop :=
  s.recentTrades = [] ∧ s.recentBuys = [] ∧ s.hftRecentOrders = []

def system (R : Regeln) : System (Pool Waechter Order Punkt Urteil) (PoolAct Order) :=
  (checkOrder R).pool Frisch

def genehmigte (l : List (Done Order Urteil)) : List TradeRecord :=
  l.filterMap fun d =>
    match d.answer with
    | .genehmigt record => some record
    | .abgelehnt _ => none

theorem mem_genehmigte {l : List (Done Order Urteil)} {r : TradeRecord} :
    r ∈ genehmigte l ↔ ∃ d ∈ l, d.answer = .genehmigt r := by
  rw [genehmigte, List.mem_filterMap]
  refine exists_congr fun d => and_congr_right fun _ => ?_
  cases d.answer <;> simp

theorem genehmigte_append (l l' : List (Done Order Urteil)) :
    genehmigte (l ++ l') = genehmigte l ++ genehmigte l' :=
  List.filterMap_append

end Compliance
