import AutonomousEngine.Basis.Dict

/-!
# The client of a backtest

A backtest walks over the days of a price table.  What is submitted on one day is
queued and processed at the open of the next one; then the positions are valued at
its close, and the strategy runs.

The tables, the costs and what the numbers of the tables do are fixed for a run
(`Market`).  An order that is processed either is dropped, or books its cash, changes
the position and becomes a trade (`processSingleOrder`).
-/

namespace Backtest

open Basis

inductive Side where
  | buy
  | sell
deriving DecidableEq, Repr

/-! ## Price tables -/

/-- A row of a price table.  A number that is missing is `none`. -/
structure Bar where
  openPrice : Option ℚ
  high : Option ℚ
  low : Option ℚ
  close : Option ℚ
  volume : Option ℚ
  /-- The columns that are computed when the table is loaded. -/
  indicators : List (String × Option ℚ)
deriving DecidableEq, Repr

/-- The rows of a symbol, with increasing dates. -/
structure Frame where
  rows : List (ℤ × Bar)
  sorted : (rows.map Prod.fst).Pairwise (· < ·)

namespace Frame

variable (f : Frame) (date : ℤ)

/-- `.loc[date]`. -/
def loc : Option Bar := dictGet date f.rows

def upTo : List (ℤ × Bar) := f.rows.filter fun row => row.1 ≤ date

/-- The last close that is known on a date. -/
def lastClose : Option ℚ := ((f.upTo date).filterMap fun row => row.2.close).getLast?

end Frame

/-- What is fixed for a run. -/
structure Market where
  simulationData : String → Option Frame
  startDate : ℤ
  slippagePercent : ℚ
  commissionPerTrade : ℚ
  /-- Whether a division by zero raises for the prices of a symbol.  It does for the
  floats of Python; the floats of a table give an infinity or no number. -/
  divisionRaises : String → Bool

namespace Market

variable (m : Market)

/-- `date_range`: the days of the index fund from the start on. -/
def dateRange : List ℤ :=
  match m.simulationData "SPY" with
  | none => []
  | some spy => (spy.rows.map Prod.fst).filter fun date => m.startDate ≤ date

def bar (date : ℤ) (symbol : String) : Option Bar :=
  (m.simulationData symbol).bind fun f => f.loc date

/-- The price that an order is executed at: the open with the slippage. -/
def executionPrice (date : ℤ) (symbol : String) (side : Side) : Option ℚ :=
  ((m.bar date symbol).bind Bar.openPrice).map fun price =>
    match side with
    | .buy => price * (1 + m.slippagePercent)
    | .sell => price * (1 - m.slippagePercent)

/-- The last close of a symbol that is known on a day. -/
def lastClose (date : ℤ) (symbol : String) : Option ℚ :=
  (m.simulationData symbol).bind fun f => f.lastClose date

end Market

/-! ## The account -/

/-- A position; a short one has a negative quantity. -/
structure Position where
  qty : ℚ
  avgPrice : Option ℚ
  marketValue : Option ℚ
deriving DecidableEq, Repr

structure Trade where
  symbol : String
  side : Side
  qty : ℚ
  price : ℚ
  timestamp : ℤ
  orderId : String
deriving DecidableEq, Repr

structure PendingOrder where
  symbol : String
  qty : ℚ
  side : Side
  timestampCreated : ℤ
  orderId : String
deriving DecidableEq, Repr

/-- `SimulationAccount`.  Its numbers are exact: floats leave a dust of some trades, such as
`5.5e-17` of a fund when `0.1` and `0.2` are bought and `0.3` sold, where nothing is left
here. -/
structure Account where
  cash : ℚ
  positions : Dict String Position
  equity : Option ℚ
  portfolioValue : Option ℚ
  tradeHistory : List Trade

namespace Account

def init (initialCash : ℚ) : Account where
  cash := initialCash
  positions := .empty
  equity := some initialCash
  portfolioValue := some 0
  tradeHistory := []

variable (a : Account)

def held (symbol : String) : ℚ := (a.positions.get? symbol).elim 0 Position.qty

/-- The value of a position at a close that may be missing. -/
def bewertet (pos : Position) (price : Option ℚ) : Option ℚ := price.map (pos.qty * ·)

/-- `update_portfolio_value`.  A symbol without a row keeps its value, which does not
count. -/
def updatePortfolioValue (currentPrices : String → Option (Option ℚ)) : Account :=
  let value := a.positions.entries.foldl
    (fun value e =>
      match currentPrices e.1 with
      | none => value
      | some price => Option.map₂ (· + ·) value (bewertet e.2 price))
    (some 0)
  { a with
    positions := a.positions.mapValues fun symbol pos =>
      match currentPrices symbol with
      | none => pos
      | some price => { pos with marketValue := bewertet pos price }
    portfolioValue := value
    equity := value.map (a.cash + ·) }

end Account

/-! ## Processing an order -/

section

variable (m : Market) (a : Account) (symbol : String) (qty price : ℚ)

/-- `_process_buy_execution`, and whether it returns.  The cash is booked first. -/
def processBuyExecution : Account × Bool :=
  let tradeBasis := qty * price
  let totalCost := tradeBasis + m.commissionPerTrade
  let a := { a with cash := a.cash - totalCost }
  match a.positions.get? symbol with
  | none =>
      ({ a with positions := a.positions.set symbol ⟨qty, some price, some (qty * price)⟩ }, true)
  | some old =>
      let newQty := old.qty + qty
      let totalBasis := old.avgPrice.map fun avg => old.qty * avg + tradeBasis
      if newQty = 0 then
        if m.divisionRaises symbol then (a, false)
        else
          ({ a with positions := a.positions.set symbol ⟨newQty, none, some (newQty * price)⟩ },
            true)
      else
        ({ a with
           positions := a.positions.set symbol
             ⟨newQty, totalBasis.map (· / newQty), some (newQty * price)⟩ }, true)

def processSellExecution : Account :=
  let netProceeds := qty * price - m.commissionPerTrade
  let a := { a with cash := a.cash + netProceeds }
  match a.positions.get? symbol with
  | none =>
      { a with positions := a.positions.set symbol ⟨-qty, some price, some (-qty * price)⟩ }
  | some pos =>
      if 0 < pos.qty then
        if pos.qty ≤ qty then { a with positions := a.positions.erase symbol }
        else
          { a with
            positions := a.positions.set symbol
              { pos with qty := pos.qty - qty, marketValue := some ((pos.qty - qty) * price) } }
      else a

end

def PendingOrder.trade (o : PendingOrder) (date : ℤ) (price : ℚ) : Trade where
  symbol := o.symbol
  side := o.side
  qty := o.qty
  price := price
  timestamp := date
  orderId := o.orderId

def Account.record (a : Account) (t : Trade) : Account :=
  { a with tradeHistory := a.tradeHistory ++ [t] }

def Market.cost (m : Market) (o : PendingOrder) (price : ℚ) : ℚ :=
  o.qty * price + m.commissionPerTrade

/-- `_process_single_order`.  What an execution that raises has booked stays. -/
def processSingleOrder (m : Market) (date : ℤ) (a : Account) (o : PendingOrder) : Account :=
  match m.executionPrice date o.symbol o.side with
  | none => a
  | some price =>
      match o.side with
      | .buy =>
          if a.cash < m.cost o price then a
          else
            let (a', returns) := processBuyExecution m a o.symbol o.qty price
            if returns then a'.record (o.trade date price) else a'
      | .sell =>
          (processSellExecution m a o.symbol o.qty price).record (o.trade date price)

/-! ## The client -/

/-- `RealisticSimulationClient`, after the tables are loaded. -/
structure Client where
  account : Account
  currentDate : Option ℤ
  currentIndex : ℕ
  orderIdCounter : ℕ
  pendingOrders : List PendingOrder
  /-- For the record, the orders in the order in which they were processed. -/
  processed : List PendingOrder

namespace Client

def init (initialCash : ℚ) : Client where
  account := .init initialCash
  currentDate := none
  currentIndex := 0
  orderIdCounter := 0
  pendingOrders := []
  processed := []

def orderId (symbol : String) (counter : ℕ) : String := "sim_" ++ symbol ++ "_" ++ counter.repr

/-- `submit_order`: queues the order for the next day. -/
def submitOrder (c : Client) (symbol : String) (qty : ℚ) (side : Side) : Client :=
  match c.currentDate with
  | none => c
  | some date =>
      { c with
        orderIdCounter := c.orderIdCounter + 1
        pendingOrders := c.pendingOrders ++
          [{ symbol, qty, side, timestampCreated := date,
             orderId := orderId symbol c.orderIdCounter }] }

def submitClose (c : Client) (e : String × Position) : Client :=
  c.submitOrder e.1 |e.2.qty| (if 0 < e.2.qty then .sell else .buy)

def closeAllPositions (c : Client) (cancelOrders : Bool) : Client :=
  let c := if cancelOrders then { c with pendingOrders := [] } else c
  c.account.positions.entries.foldl submitClose c

def processOrder (m : Market) (date : ℤ) (c : Client) (o : PendingOrder) : Client :=
  { c with
    account := processSingleOrder m date c.account o
    processed := c.processed ++ [o] }

/-- `_execute_pending_orders`: the queue is cleared, and every order in it processed. -/
def executePendingOrders (m : Market) (c : Client) (date : ℤ) : Client :=
  c.pendingOrders.foldl (processOrder m date) { c with pendingOrders := [] }

/-- `advance_day`, and whether there is a day. -/
def advanceDay (m : Market) (c : Client) : Client × Bool :=
  match m.dateRange[c.currentIndex + 1]? with
  | none => (c, false)
  | some date =>
      let c := { c with currentIndex := c.currentIndex + 1, currentDate := some date }
      let c := c.executePendingOrders m date
      ({ c with
         account := c.account.updatePortfolioValue fun symbol => (m.bar date symbol).map Bar.close },
        true)

/-- The last rows of a table; for a negative limit, all but the first ones. -/
def tail (rows : List (ℤ × Bar)) (limit : ℤ) : List (ℤ × Bar) :=
  if 0 ≤ limit then rows.drop (rows.length - limit.toNat) else rows.drop (-limit).toNat

def getBars (m : Market) (c : Client) (symbol : String) (limit : ℤ) : List (ℤ × Bar) :=
  match c.currentDate, m.simulationData symbol with
  | some date, some f => tail (f.upTo date) limit
  | _, _ => []

def getSnapshots (m : Market) (c : Client) (symbols : List String) : Dict String Bar :=
  match c.currentDate with
  | none => .empty
  | some date =>
      symbols.foldl
        (fun snapshots symbol =>
          match m.bar date symbol with
          | none => snapshots
          | some bar => snapshots.set symbol bar)
        .empty

end Client

/-! ## Strategies -/

/-- What a strategy asks of the client. -/
inductive Request where
  | submitOrder (symbol : String) (qty : ℚ) (side : Side)
  | closeAllPositions (cancelOrders : Bool)
deriving DecidableEq, Repr

def Client.request (c : Client) : Request → Client
  | .submitOrder symbol qty side => c.submitOrder symbol qty side
  | .closeAllPositions cancelOrders => c.closeAllPositions cancelOrders

/-- What a strategy can read on a day.  No request of the day changes it. -/
structure View where
  currentDate : Option ℤ
  account : Account
  orderIdCounter : ℕ
  getBars : String → ℤ → List (ℤ × Bar)
  getSnapshots : List String → Dict String Bar

def Client.view (m : Market) (c : Client) : View where
  currentDate := c.currentDate
  account := c.account
  orderIdCounter := c.orderIdCounter
  getBars := c.getBars m
  getSnapshots := c.getSnapshots m

/-- A strategy with a memory of its own.  One that raises has made the requests
before. -/
def Strategy (μ : Type) : Type := μ → View → μ × List Request

/-- A run of a backtest: the client and the memory of the strategy. -/
structure Run (μ : Type) where
  client : Client
  memory : μ
  finished : Bool

namespace Run

variable {μ : Type}

def first (initialCash : ℚ) (memory : μ) (date : ℤ) : Run μ where
  client := { Client.init initialCash with currentDate := some date }
  memory := memory
  finished := false

/-- The start of `run_simulation`, which needs a day. -/
def start (m : Market) (initialCash : ℚ) (memory : μ) : Option (Run μ) :=
  (m.dateRange[0]?).map (first initialCash memory)

def callback (strategy : Strategy μ) (m : Market) (r : Run μ) : Run μ :=
  let (memory, requests) := strategy r.memory (r.client.view m)
  { r with memory, client := requests.foldl Client.request r.client }

def advance (m : Market) (r : Run μ) : Run μ :=
  match r.client.advanceDay m with
  | (client, true) => { r with client }
  | (client, false) => { r with client, finished := true }

/-- A turn of the loop of `run_simulation`. -/
def turn (strategy : Strategy μ) (m : Market) (r : Run μ) : Run μ :=
  if r.finished then r else (r.callback strategy m).advance m

def turns (strategy : Strategy μ) (m : Market) : ℕ → Run μ → Run μ
  | 0, r => r
  | n + 1, r => (turns strategy m n r).turn strategy m

/-- The run after some turns, if there is a first day. -/
def after (strategy : Strategy μ) (m : Market) (initialCash : ℚ) (memory : μ) (n : ℕ) :
    Option (Run μ) :=
  (start m initialCash memory).map (turns strategy m n)

end Run

end Backtest
