import AutonomousEngine.Basis.Dict
import AutonomousEngine.Basis.Mealy
import AutonomousEngine.Basis.Rounding

/-!
# The broker of a simulated day

A simulated day runs against a broker that keeps the cash, the positions and the
orders itself and fills orders at the price of the recorded day.  An order is filled
when it is submitted if it can be, and again whenever the orders are processed: a
stop rests until the price crosses it, and an order of a symbol with a ratio is
filled in parts.

What lies outside the broker at one moment is an `Umfeld`: the recorded prices, and
the two fixtures that reject orders and fill them in parts.
-/

namespace Sim

open Basis

inductive OrderSide where
  | buy
  | sell
deriving DecidableEq, Repr

inductive OrderStatus where
  | accepted
  | partiallyFilled
  | filled
  | canceled
  | rejected
deriving DecidableEq, Repr

def OrderStatus.terminal : OrderStatus → Bool
  | .filled | .canceled | .rejected => true
  | .accepted | .partiallyFilled => false

/-- What is submitted: a market order, or a stop when it has a stop price. -/
structure OrderRequest where
  symbol : String
  qty : ℚ
  side : OrderSide
  stopPrice : Option ℚ
deriving DecidableEq, Repr

structure SimOrder extends OrderRequest where
  id : String
  status : OrderStatus
  filledQty : Option ℚ
  filledAvgPrice : Option ℚ
deriving DecidableEq, Repr

/-- A position that the broker opened. -/
structure DummyPosition where
  qty : ℚ
  avgEntryPrice : ℚ
  currentPrice : ℚ
  marketValue : ℚ
deriving DecidableEq, Repr

def DummyPosition.neu (qty price : ℚ) : DummyPosition where
  qty := qty
  avgEntryPrice := price
  currentPrice := price
  marketValue := qty * price

def DummyPosition.mark (p : DummyPosition) (price : ℚ) : DummyPosition :=
  { p with currentPrice := price, marketValue := p.qty * price }

/-- The cash and what is held for it. -/
structure Depot where
  cash : ℚ
  positions : Dict String DummyPosition

structure VirtualLiveBroker where
  depot : Depot
  orders : List SimOrder

/-- What lies outside the broker. -/
structure Umfeld where
  /-- The latest recorded close, if there is one and it can be read. -/
  price : String → Option ℚ
  /-- `sim_reject_symbols`. -/
  rejects : String → Bool
  /-- `sim_partial_fill_ratio`. -/
  ratio : String → Option ℚ

def Depot.equity (d : Depot) : ℚ :=
  d.cash + d.positions.sumBy fun _ p => p.qty * p.currentPrice

/-! ## Filling an order -/

def isTriggered (o : SimOrder) (price : ℚ) : Bool :=
  match o.stopPrice, o.side with
  | none, _ => true
  | some stop, .sell => price ≤ stop
  | some stop, .buy => stop ≤ price

/-- `_fill_quantity`: what is outstanding, or the configured part of it. -/
def fillQuantity (u : Umfeld) (o : SimOrder) : ℚ :=
  let outstanding := o.qty - o.filledQty.getD 0
  if outstanding ≤ 0 then 0
  else
    match u.ratio o.symbol with
    | none => outstanding
    | some ratio =>
        if 0 < ratio ∧ ratio < 1 then roundTo 6 (outstanding * ratio) else outstanding

def SimOrder.recordFill (o : SimOrder) (qty price : ℚ) : SimOrder :=
  let total := roundTo 6 (o.filledQty.getD 0 + qty)
  { o with
    filledQty := some total
    filledAvgPrice := some price
    status := if o.qty ≤ total + 1 / 1000000000 then .filled else .partiallyFilled }

def aufgestockt (alt : Option DummyPosition) (qty price : ℚ) : DummyPosition :=
  match alt with
  | none => .neu qty price
  | some pos =>
      let newQty := pos.qty + qty
      { qty := newQty
        avgEntryPrice := (pos.qty * pos.avgEntryPrice + qty * price) / newQty
        currentPrice := price
        marketValue := newQty * price }

def Depot.buy (d : Depot) (symbol : String) (qty price : ℚ) : Depot where
  cash := d.cash - qty * price
  positions := d.positions.set symbol (aufgestockt (d.positions.get? symbol) qty price)

def Depot.sell (d : Depot) (symbol : String) (pos : DummyPosition) (qty price : ℚ) : Depot where
  cash := d.cash + qty * price
  positions :=
    let newQty := pos.qty - qty
    if newQty ≤ 0 then d.positions.erase symbol
    else
      d.positions.set symbol
        { pos with qty := newQty, currentPrice := price, marketValue := newQty * price }

/-- Fills an order at a price as far as the cash or the position allows. -/
def fuelle (d : Depot) (o : SimOrder) (qty price : ℚ) : Depot × SimOrder :=
  match o.side with
  | .buy =>
      if qty * price ≤ d.cash then (d.buy o.symbol qty price, o.recordFill qty price) else (d, o)
  | .sell =>
      match d.positions.get? o.symbol with
      | none => (d, o)
      | some pos =>
          if qty ≤ pos.qty then (d.sell o.symbol pos qty price, o.recordFill qty price) else (d, o)

/-- The loop body of `process_orders`.  An order without a price is left. -/
def processOrder (u : Umfeld) (d : Depot) (o : SimOrder) : Depot × SimOrder :=
  if o.status.terminal then (d, o)
  else if u.rejects o.symbol then (d, { o with status := .rejected })
  else
    match u.price o.symbol with
    | none => (d, o)
    | some price =>
        if !isTriggered o price then (d, o)
        else if fillQuantity u o ≤ 0 then (d, o)
        else fuelle d o (fillQuantity u o) price

/-! ## The calls -/

namespace VirtualLiveBroker

variable (u : Umfeld) (b : VirtualLiveBroker)

/-- `process_orders`, over the orders of the broker. -/
def processOrders : VirtualLiveBroker :=
  let (depot, orders) := feed (processOrder u) b.depot b.orders
  { depot, orders }

/-- `submit_order`: a record of its own, filled at once where it can be. -/
def submitOrder (id : String) (request : OrderRequest) : VirtualLiveBroker :=
  processOrders u
    { b with
      orders := b.orders ++
        [{ request with
           id := id, status := .accepted, filledQty := none, filledAvgPrice := none }] }

/-- An order that is not done with is canceled. -/
def storniert (o : SimOrder) : SimOrder :=
  if o.status.terminal then o else { o with status := .canceled }

def cancelOrders : VirtualLiveBroker := { b with orders := b.orders.map storniert }

def cancelOrderById (id : String) : VirtualLiveBroker :=
  { b with orders := b.orders.map fun o => if o.id = id then { o with status := .canceled } else o }

def closeAllPositions : VirtualLiveBroker where
  depot := { b.depot with positions := .empty }
  orders := b.orders.map storniert

/-- `mark_to_market`: a position without a price keeps its mark. -/
def markToMarket : VirtualLiveBroker :=
  { b with
    depot :=
      { b.depot with
        positions := b.depot.positions.mapValues fun symbol pos =>
          (u.price symbol).elim pos pos.mark } }

end VirtualLiveBroker

/-- A call of the broker. -/
inductive Aufruf where
  | submitOrder (id : String) (request : OrderRequest)
  | processOrders
  | cancelOrders
  | cancelOrderById (id : String)
  | closeAllPositions
  | markToMarket
deriving DecidableEq, Repr

/-- One call, with what lies outside the broker. -/
def VirtualLiveBroker.schritt (b : VirtualLiveBroker) (c : Umfeld × Aufruf) : VirtualLiveBroker :=
  match c.2 with
  | .submitOrder id request => b.submitOrder c.1 id request
  | .processOrders => b.processOrders c.1
  | .cancelOrders => b.cancelOrders
  | .cancelOrderById id => b.cancelOrderById id
  | .closeAllPositions => b.closeAllPositions
  | .markToMarket => b.markToMarket c.1

def VirtualLiveBroker.lauf (b : VirtualLiveBroker) (cs : List (Umfeld × Aufruf)) :
    VirtualLiveBroker :=
  cs.foldl VirtualLiveBroker.schritt b

end Sim
