import AutonomousEngine.Backtest.Client
import Mathlib.Tactic.Linarith
import Mathlib.Tactic.Ring

/-!
# The ledger of a backtest

Two things keep a backtest honest: an order that becomes a trade moves the cash and
the signed quantity by what it says and any other order moves nothing (`Balanced`),
and after each day the equity is the cash and the positions at their last known close
(`Valued`).

Three sign cases break the first.  A sale beyond what is held takes the whole
position and no more, a sale of a short position changes no quantity, and a purchase
that covers a short position exactly divides by zero after its cash is booked
(`processSingleOrder_balanced_iff`).  A symbol without a row breaks the second: its
position does not count on this day (`updatePortfolioValue_valued_iff`).
-/

namespace Backtest

open Basis

/-! ## What is held -/

namespace Account

variable {a b : Account} {symbol : String} {pos : Position}

theorem held_of_set (h : b.positions = a.positions.set symbol pos) (s : String) :
    b.held s = if symbol = s then pos.qty else a.held s := by
  simp only [held, h, Dict.get?_set]
  split <;> rfl

theorem held_of_erase (h : b.positions = a.positions.erase symbol) (s : String) :
    b.held s = if symbol = s then 0 else a.held s := by
  simp only [held, h, Dict.get?_erase]
  split <;> rfl

theorem held_of_get? (h : a.positions.get? symbol = some pos) : a.held symbol = pos.qty := by
  simp only [held, h, Option.elim_some]

theorem held_of_none (h : a.positions.get? symbol = none) :
    a.held symbol = 0 := by
  simp only [held, h, Option.elim_none]

end Account

/-! ## Orders -/

/-- The direction that an order moves the quantity in. -/
def Side.sign : Side → ℚ
  | .buy => 1
  | .sell => -1

/-- An account after a trade of an order. -/
structure Traded (m : Market) (o : PendingOrder) (price : ℚ) (before after : Account) : Prop where
  cash : after.cash = before.cash - o.side.sign * (o.qty * price) - m.commissionPerTrade
  held : ∀ s, after.held s = before.held s + if o.symbol = s then o.side.sign * o.qty else 0

/-- An order becomes a trade that is booked, or changes neither the cash nor the
positions. -/
def Balanced (m : Market) (date : ℤ) (o : PendingOrder) (before after : Account) : Prop :=
  (∃ price, after.tradeHistory = before.tradeHistory ++ [o.trade date price] ∧
    Traded m o price before after) ∨
  after.tradeHistory = before.tradeHistory ∧ after.cash = before.cash ∧
    after.positions = before.positions

/-- What an order needs when it is executed.  A purchase must not cover a position
exactly where a division by zero raises; a sale must find a position that suffices, or
none. -/
def Bookable (m : Market) (date : ℤ) (a : Account) (o : PendingOrder) : Prop :=
  ∀ price, m.executionPrice date o.symbol o.side = some price →
    match o.side with
    | .buy =>
        m.cost o price ≤ a.cash → m.cost o price ≠ 0 → m.divisionRaises o.symbol = true →
          ∀ pos, a.positions.get? o.symbol = some pos → pos.qty + o.qty ≠ 0
    | .sell =>
        ∀ pos, a.positions.get? o.symbol = some pos →
          o.qty = 0 ∨ 0 < pos.qty ∧ o.qty ≤ pos.qty

section

variable (m : Market) (a : Account) (symbol : String) (qty price : ℚ)

/-- A purchase books the cash, and changes the position unless it raises. -/
theorem processBuyExecution_cases :
    (∃ pos, a.positions.get? symbol = some pos ∧ pos.qty + qty = 0 ∧
      m.divisionRaises symbol = true ∧
      processBuyExecution m a symbol qty price =
        ({ a with cash := a.cash - (qty * price + m.commissionPerTrade) }, false)) ∨
    (∀ pos, a.positions.get? symbol = some pos → pos.qty + qty = 0 →
      m.divisionRaises symbol = false) ∧
    ∃ pos, pos.qty = a.held symbol + qty ∧
      processBuyExecution m a symbol qty price =
        ({ a with
           cash := a.cash - (qty * price + m.commissionPerTrade)
           positions := a.positions.set symbol pos }, true) := by
  unfold processBuyExecution
  cases h : a.positions.get? symbol with
  | none =>
      refine .inr ⟨fun pos hpos => ?_, ⟨qty, some price, some (qty * price)⟩, ?_, ?_⟩
      · cases hpos
      · rw [Account.held_of_none h, zero_add]
      · simp only [h]
  | some old =>
      by_cases hzero : old.qty + qty = 0
      · cases hraises : m.divisionRaises symbol with
        | true =>
            refine .inl ⟨old, rfl, hzero, rfl, ?_⟩
            simp only [h, hzero, if_true]
        | false =>
            refine .inr ⟨fun _ _ _ => rfl, ⟨old.qty + qty, none, some ((old.qty + qty) * price)⟩,
              ?_, ?_⟩
            · rw [Account.held_of_get? h]
            · simp only [h, hzero, if_true, Bool.false_eq_true, if_false]
      · refine .inr ⟨fun pos hpos hpos' => ?_, ⟨old.qty + qty,
          (old.avgPrice.map fun avg => old.qty * avg + qty * price).map (· / (old.qty + qty)),
          some ((old.qty + qty) * price)⟩, ?_, ?_⟩
        · obtain rfl := Option.some.inj hpos
          exact absurd hpos' hzero
        · rw [Account.held_of_get? h]
        · simp only [h, hzero, if_false]

@[simp] theorem processSellExecution_cash :
    (processSellExecution m a symbol qty price).cash =
      a.cash + (qty * price - m.commissionPerTrade) := by
  unfold processSellExecution
  dsimp only
  split
  next => rfl
  next =>
    split
    next => split <;> rfl
    next => rfl

@[simp] theorem processSellExecution_tradeHistory :
    (processSellExecution m a symbol qty price).tradeHistory = a.tradeHistory := by
  unfold processSellExecution
  dsimp only
  split
  next => rfl
  next =>
    split
    next => split <;> rfl
    next => rfl

/-- A sale takes what a long position has, opens a short one where there is none, and
leaves a short one. -/
theorem processSellExecution_held (s : String) :
    (processSellExecution m a symbol qty price).held s =
      if symbol = s then
        (a.positions.get? symbol).elim (-qty) fun pos =>
          if 0 < pos.qty then max 0 (pos.qty - qty) else pos.qty
      else a.held s := by
  unfold processSellExecution
  cases h : a.positions.get? symbol with
  | none =>
      simp only [h, Option.elim_none]
      rw [Account.held_of_set (a := a) rfl]
  | some pos =>
      simp only [h, Option.elim_some]
      by_cases hlong : 0 < pos.qty
      · simp only [hlong, if_true]
        by_cases hall : pos.qty ≤ qty
        · rw [if_pos hall, Account.held_of_erase (a := a) rfl, max_eq_left (sub_nonpos.mpr hall)]
        · rw [if_neg hall, Account.held_of_set (a := a) rfl,
            max_eq_right (sub_nonneg.mpr (not_le.mp hall).le)]
      · simp only [hlong, if_false]
        split
        next hs =>
          subst hs
          exact Account.held_of_get? h
        next => rfl

end

section

variable {m : Market} {date : ℤ} {a : Account} {o : PendingOrder}

theorem balanced_of_eq {b : Account} (h : b = a) : Balanced m date o a b := by
  subst h
  exact .inr ⟨rfl, rfl, rfl⟩

/-- A purchase that there is cash for. -/
theorem buy_balanced_iff {price : ℚ} (hside : o.side = .buy)
    (hprice : m.executionPrice date o.symbol o.side = some price) (hcash : m.cost o price ≤ a.cash) :
    Balanced m date o a (processSingleOrder m date a o) ↔
      (m.cost o price ≠ 0 → m.divisionRaises o.symbol = true →
        ∀ pos, a.positions.get? o.symbol = some pos → pos.qty + o.qty ≠ 0) := by
  have hstep : processSingleOrder m date a o =
      if (processBuyExecution m a o.symbol o.qty price).2 then
        (processBuyExecution m a o.symbol o.qty price).1.record (o.trade date price)
      else (processBuyExecution m a o.symbol o.qty price).1 := by
    simp only [processSingleOrder, hprice]
    rw [hside]
    simp only [not_lt.mpr hcash, if_false]
  rw [hstep]
  rcases processBuyExecution_cases m a o.symbol o.qty price with
    ⟨pos, hpos, hzero, hraises, heq⟩ | ⟨hreturns, pos, hqty, heq⟩
  · -- The position covers the order exactly: the cash is booked, and the division raises.
    rw [heq, if_neg Bool.false_ne_true]
    constructor
    · rintro (⟨price', htrade, -⟩ | ⟨-, hsame, -⟩) hcost - -
      · have hlength := congrArg List.length htrade
        simp at hlength
      · exact absurd (sub_eq_self.mp hsame) hcost
    · intro h
      have hcost : m.cost o price = 0 := by
        by_contra hne
        exact h hne hraises pos hpos hzero
      refine .inr ⟨rfl, ?_, rfl⟩
      show a.cash - m.cost o price = a.cash
      rw [hcost, sub_zero]
  · rw [heq, if_pos rfl]
    refine iff_of_true (.inl ⟨price, rfl, ?_, ?_⟩) fun _ hraises old hold hzero => ?_
    · show a.cash - (o.qty * price + m.commissionPerTrade) = _
      rw [hside, Side.sign]
      ring
    · intro s
      have hset : (({ a with
          cash := a.cash - (o.qty * price + m.commissionPerTrade)
          positions := a.positions.set o.symbol pos } : Account).record
            (o.trade date price)).positions = a.positions.set o.symbol pos := rfl
      rw [Account.held_of_set hset, hside, Side.sign]
      split
      next hs => rw [hqty, hs, one_mul]
      next => rw [add_zero]
    · rw [hreturns old hold hzero] at hraises
      cases hraises

/-- A sale. -/
theorem sell_balanced_iff {price : ℚ} (hside : o.side = .sell)
    (hprice : m.executionPrice date o.symbol o.side = some price) :
    Balanced m date o a (processSingleOrder m date a o) ↔
      ∀ pos, a.positions.get? o.symbol = some pos → o.qty = 0 ∨ 0 < pos.qty ∧ o.qty ≤ pos.qty := by
  have hstep : processSingleOrder m date a o =
      (processSellExecution m a o.symbol o.qty price).record (o.trade date price) := by
    simp only [processSingleOrder, hprice]
    rw [hside]
  have hheld : ∀ s, (processSingleOrder m date a o).held s =
      (processSellExecution m a o.symbol o.qty price).held s := fun s => by rw [hstep]; rfl
  have hhistory : (processSingleOrder m date a o).tradeHistory =
      a.tradeHistory ++ [o.trade date price] := by
    rw [hstep, Account.record, processSellExecution_tradeHistory]
  constructor
  · rintro (⟨price', -, htraded⟩ | ⟨hsame, -⟩) pos hpos
    · have hsymbol := htraded.held o.symbol
      rw [hheld, processSellExecution_held, if_pos rfl, if_pos rfl, hside, Side.sign,
        Account.held_of_get? hpos] at hsymbol
      simp only [hpos, Option.elim_some] at hsymbol
      split at hsymbol
      next hlong =>
        refine .inr ⟨hlong, ?_⟩
        have hle := le_max_left 0 (pos.qty - o.qty)
        linarith
      next =>
        refine .inl ?_
        linarith
    · rw [hhistory] at hsame
      simp at hsame
  · intro h
    refine .inl ⟨price, hhistory, ?_, fun s => ?_⟩
    · rw [hstep, Account.record, processSellExecution_cash, hside, Side.sign]
      ring
    · rw [hheld, processSellExecution_held, hside, Side.sign]
      split
      next hs =>
        subst hs
        cases hpos : a.positions.get? o.symbol with
        | none =>
            rw [Account.held_of_none hpos, Option.elim_none]
            ring
        | some pos =>
            simp only [Account.held_of_get? hpos, Option.elim_some]
            rcases h pos hpos with hzero | ⟨hlong, hsuffices⟩
            · rw [hzero]
              split
              next hlong =>
                rw [sub_zero, max_eq_right hlong.le]
                ring
              next => ring
            · rw [if_pos hlong, max_eq_right (sub_nonneg.mpr hsuffices)]
              ring
      next => rw [add_zero]

/-- An order is balanced exactly when it is bookable. -/
theorem processSingleOrder_balanced_iff :
    Balanced m date o a (processSingleOrder m date a o) ↔ Bookable m date a o := by
  cases hprice : m.executionPrice date o.symbol o.side with
  | none =>
      refine iff_of_true (balanced_of_eq ?_) fun price h => ?_
      · simp only [processSingleOrder, hprice]
      · rw [hprice] at h
        cases h
  | some price =>
      simp only [Bookable, hprice, Option.some.injEq, forall_eq']
      cases hside : o.side with
      | buy =>
          by_cases hcash : m.cost o price ≤ a.cash
          · rw [buy_balanced_iff hside hprice hcash]
            exact ⟨fun h _ => h, fun h => h hcash⟩
          · refine iff_of_true (balanced_of_eq ?_) fun h => absurd h hcash
            simp only [processSingleOrder, hprice]
            rw [hside]
            simp only [not_le.mp hcash, if_true]
      | sell => exact sell_balanced_iff hside hprice

end

/-! ## The equity of a day -/

namespace Frame

variable {f : Frame} {date : ℤ} {bar : Bar}

/-- A row divides its table into the rows before and after its date. -/
theorem loc_eq_some (h : f.loc date = some bar) :
    ∃ before after, f.rows = before ++ (date, bar) :: after ∧
      (∀ row ∈ before, row.1 < date) ∧ ∀ row ∈ after, date < row.1 := by
  have hmem := (dictGet_eq_some_iff (f.sorted.imp fun hlt => hlt.ne)).mp h
  obtain ⟨before, after, hrows⟩ := List.append_of_mem hmem
  have hsorted := f.sorted
  rw [hrows, List.map_append, List.map_cons, List.pairwise_append, List.pairwise_cons] at hsorted
  refine ⟨before, after, hrows, fun row hrow => ?_, fun row hrow => ?_⟩
  · exact hsorted.2.2 row.1 (List.mem_map_of_mem hrow) date (.head _)
  · exact hsorted.2.1.1 row.1 (List.mem_map_of_mem hrow)

theorem upTo_of_loc (h : f.loc date = some bar) :
    ∃ before, f.upTo date = before ++ [(date, bar)] := by
  obtain ⟨before, after, hrows, hbefore, hafter⟩ := loc_eq_some h
  refine ⟨before, ?_⟩
  rw [upTo, hrows, List.filter_append, List.filter_cons_of_pos (by simp)]
  rw [List.filter_eq_self.mpr fun row hrow => decide_eq_true (hbefore row hrow).le]
  rw [List.filter_eq_nil_iff.mpr fun row hrow => by simpa using hafter row hrow]

/-- The close of a day is the last one that is known. -/
theorem lastClose_of_loc {price : ℚ} (h : f.loc date = some bar) (hclose : bar.close = some price) :
    f.lastClose date = some price := by
  obtain ⟨before, hup⟩ := upTo_of_loc h
  rw [lastClose, hup, List.filterMap_append]
  simp [hclose]

end Frame

theorem Market.lastClose_of_bar {m : Market} {date : ℤ} {symbol : String} {bar : Bar} {price : ℚ}
    (h : m.bar date symbol = some bar) (hclose : bar.close = some price) :
    m.lastClose date symbol = some price := by
  obtain ⟨f, hf, hloc⟩ := Option.bind_eq_some_iff.mp h
  rw [Market.lastClose, hf, Option.bind_some]
  exact Frame.lastClose_of_loc hloc hclose

/-- The worth of a position at its last known close. -/
def Market.worth (m : Market) (date : ℤ) (symbol : String) (pos : Position) : ℚ :=
  pos.qty * (m.lastClose date symbol).getD 0

/-- The equity is the cash and what is held, at the last known close. -/
def Valued (m : Market) (date : ℤ) (a : Account) : Prop :=
  a.equity = some (a.cash + a.positions.sumBy (m.worth date))

/-- Every symbol that is held has a close in its row of the day, and those without a
row are worth nothing together. -/
structure Priced (m : Market) (date : ℤ) (a : Account) : Prop where
  close : ∀ symbol pos bar, a.positions.get? symbol = some pos → m.bar date symbol = some bar →
    bar.close ≠ none
  missing : (a.positions.sumBy fun symbol pos =>
    if m.bar date symbol = none then m.worth date symbol pos else 0) = 0

namespace Account

/-- What a position counts for in the value of a portfolio. -/
def counted (prices : String → Option (Option ℚ)) (symbol : String) (pos : Position) : ℚ :=
  (prices symbol).join.elim 0 (pos.qty * ·)

def closes (m : Market) (date : ℤ) (symbol : String) : Option (Option ℚ) :=
  (m.bar date symbol).map Bar.close

variable (prices : String → Option (Option ℚ))

/-- Adds a position to the value of a portfolio. -/
def addValue (value : Option ℚ) (e : String × Position) : Option ℚ :=
  match prices e.1 with
  | none => value
  | some price => Option.map₂ (· + ·) value (bewertet e.2 price)

theorem foldl_addValue_none (entries : List (String × Position)) :
    entries.foldl (addValue prices) none = none := by
  induction entries with
  | nil => rfl
  | cons e entries ih =>
      have hnone : addValue prices none e = none := by
        unfold addValue
        split <;> rfl
      rw [List.foldl_cons, hnone, ih]

/-- The value of a portfolio is a number exactly when every close in it is one. -/
theorem foldl_addValue_eq_some_iff (entries : List (String × Position)) (x y : ℚ) :
    entries.foldl (addValue prices) (some x) = some y ↔
      (∀ e ∈ entries, prices e.1 ≠ some none) ∧
        y = x + (entries.map fun e => counted prices e.1 e.2).sum := by
  induction entries generalizing x with
  | nil => simp [eq_comm]
  | cons e entries ih =>
      rw [List.foldl_cons, List.map_cons, List.sum_cons, List.forall_mem_cons]
      have hcases : addValue prices (some x) e = some (x + counted prices e.1 e.2) ∧
          prices e.1 ≠ some none ∨ addValue prices (some x) e = none ∧ prices e.1 = some none := by
        unfold addValue counted
        cases hprice : prices e.1 with
        | none => simp
        | some price =>
            cases price with
            | none => simp [bewertet]
            | some p => simp [bewertet]
      rcases hcases with ⟨hsome, hprice⟩ | ⟨hnone, hprice⟩
      · rw [hsome, ih, add_assoc]
        simp [hprice]
      · rw [hnone, foldl_addValue_none]
        simp [hprice]

end Account

section

variable (m : Market) (date : ℤ) (a : Account)

theorem sumBy_updated (prices : String → Option (Option ℚ)) :
    (a.updatePortfolioValue prices).positions.sumBy (m.worth date) =
      a.positions.sumBy (m.worth date) := by
  rw [Account.updatePortfolioValue, Dict.sumBy_mapValues]
  congr 1
  funext symbol pos
  split <;> rfl

/-- After a day the equity is the worth of the account exactly when what is held is
priced. -/
theorem updatePortfolioValue_valued_iff :
    Valued m date (a.updatePortfolioValue (Account.closes m date)) ↔ Priced m date a := by
  have hequity : (a.updatePortfolioValue (Account.closes m date)).equity =
      (a.positions.entries.foldl (Account.addValue (Account.closes m date)) (some 0)).map
        (a.cash + ·) := rfl
  have hcash : (a.updatePortfolioValue (Account.closes m date)).cash = a.cash := rfl
  rw [Valued, sumBy_updated, hequity, hcash]
  have hadd : ∀ x, Option.map (a.cash + ·) x = some (a.cash + a.positions.sumBy (m.worth date)) ↔
      x = some (a.positions.sumBy (m.worth date)) := fun x => by
    cases x <;> simp
  rw [hadd, Account.foldl_addValue_eq_some_iff, zero_add]
  have hclose : (∀ e ∈ a.positions.entries, Account.closes m date e.1 ≠ some none) ↔
      ∀ symbol pos bar, a.positions.get? symbol = some pos → m.bar date symbol = some bar →
        bar.close ≠ none := by
    constructor
    · intro h symbol pos bar hpos hbar hnone
      refine h (symbol, pos) (Dict.mem_entries_iff.mpr hpos) ?_
      rw [Account.closes, hbar, Option.map_some, hnone]
    · intro h e he hnone
      obtain ⟨bar, hbar, hbarclose⟩ := Option.map_eq_some_iff.mp hnone
      exact h e.1 e.2 bar (Dict.mem_entries_iff.mp he) hbar hbarclose
  have hsum (h : ∀ symbol pos bar, a.positions.get? symbol = some pos →
      m.bar date symbol = some bar → bar.close ≠ none) :
      a.positions.sumBy (m.worth date) =
        a.positions.sumBy (Account.counted (Account.closes m date)) +
          a.positions.sumBy fun symbol pos =>
            if m.bar date symbol = none then m.worth date symbol pos else 0 := by
    rw [← Dict.sumBy_add]
    refine Dict.sumBy_congr fun symbol pos hpos => ?_
    rw [Account.counted, Account.closes]
    cases hbar : m.bar date symbol with
    | none => simp
    | some bar =>
        cases hprice : bar.close with
        | none => exact absurd hprice (h symbol pos bar hpos hbar)
        | some price => simp [Market.worth, Market.lastClose_of_bar hbar hprice, hprice]
  constructor
  · rintro ⟨hcloses, hvalue⟩
    have hprices := hclose.mp hcloses
    refine ⟨hprices, ?_⟩
    rw [hsum hprices] at hvalue
    exact add_eq_left.mp hvalue
  · rintro ⟨hprices, hmissing⟩
    refine ⟨hclose.mpr hprices, ?_⟩
    rw [hsum hprices, hmissing, add_zero]
    rfl

end

/-! ## The ledger of a run -/

/-- A call of the client. -/
inductive Call where
  | request (request : Request)
  | advanceDay
deriving DecidableEq, Repr

namespace Client

variable (m : Market) (c : Client)

def call : Call → Client
  | .request request => c.request request
  | .advanceDay => (c.advanceDay m).1

def calls (cs : List Call) : Client := cs.foldl (call m) c

/-- The day that the client would advance to. -/
def nextDay : Option ℤ := m.dateRange[c.currentIndex + 1]?

/-- The account when the first orders of the queue are processed on a day. -/
def opened (date : ℤ) (orders : List PendingOrder) : Account :=
  orders.foldl (processSingleOrder m date) c.account

variable {m c}

/-- Processing some orders one after the other. -/
theorem foldl_processOrder (date : ℤ) (orders : List PendingOrder) (c : Client) :
    orders.foldl (processOrder m date) c =
      { c with
        account := orders.foldl (processSingleOrder m date) c.account
        processed := c.processed ++ orders } := by
  induction orders generalizing c with
  | nil => rw [List.append_nil]; rfl
  | cons o orders ih => rw [List.foldl_cons, ih, List.foldl_cons, processOrder, List.append_assoc]; rfl

/-- What the next day makes of the client. -/
theorem advanceDay_eq {date : ℤ} (h : c.nextDay m = some date) :
    c.advanceDay m = ({ c with
      currentIndex := c.currentIndex + 1, currentDate := some date, pendingOrders := []
      account := (c.opened m date c.pendingOrders).updatePortfolioValue (Account.closes m date)
      processed := c.processed ++ c.pendingOrders }, true) := by
  rw [nextDay] at h
  simp only [advanceDay, h, executePendingOrders, foldl_processOrder]
  rfl

theorem advanceDay_account {date : ℤ} (h : c.nextDay m = some date) :
    (c.advanceDay m).1.account =
      (c.opened m date c.pendingOrders).updatePortfolioValue (Account.closes m date) := by
  rw [advanceDay_eq h]

end Client

/-- A run keeps its ledger: on each day that it advances to, every queued order is
balanced, and the equity at the close is the worth of the account. -/
structure Ledger (m : Market) (c : Client) (cs : List Call) : Prop where
  orders : ∀ earlier later date, cs = earlier ++ .advanceDay :: later →
    (c.calls m earlier).nextDay m = some date →
    ∀ before o after, (c.calls m earlier).pendingOrders = before ++ o :: after →
      Balanced m date o ((c.calls m earlier).opened m date before)
        (processSingleOrder m date ((c.calls m earlier).opened m date before) o)
  equity : ∀ earlier later date, cs = earlier ++ .advanceDay :: later →
    (c.calls m earlier).nextDay m = some date →
    Valued m date ((c.calls m earlier).advanceDay m).1.account

/-- What the ledger of a run needs on each day: that every queued order is bookable
when its turn comes, and that what is held after them is priced. -/
structure Orderly (m : Market) (c : Client) (date : ℤ) : Prop where
  orders : ∀ before o after, c.pendingOrders = before ++ o :: after →
    Bookable m date (c.opened m date before) o
  prices : Priced m date (c.opened m date c.pendingOrders)

/-- A run keeps its ledger exactly when every day that it advances to is orderly. -/
theorem ledger_iff (m : Market) (c : Client) (cs : List Call) :
    Ledger m c cs ↔ ∀ earlier later date, cs = earlier ++ .advanceDay :: later →
      (c.calls m earlier).nextDay m = some date → Orderly m (c.calls m earlier) date := by
  constructor
  · intro h earlier later date hcs hdate
    constructor
    · intro before o after hpending
      exact processSingleOrder_balanced_iff.mp
        (h.orders earlier later date hcs hdate before o after hpending)
    · have hequity := h.equity earlier later date hcs hdate
      rw [Client.advanceDay_account hdate] at hequity
      exact (updatePortfolioValue_valued_iff m date _).mp hequity
  · intro h
    constructor
    · intro earlier later date hcs hdate before o after hpending
      exact processSingleOrder_balanced_iff.mpr
        ((h earlier later date hcs hdate).orders before o after hpending)
    · intro earlier later date hcs hdate
      rw [Client.advanceDay_account hdate]
      exact (updatePortfolioValue_valued_iff m date _).mpr (h earlier later date hcs hdate).prices

def Bar.flat (price : ℚ) : Bar where
  openPrice := some price
  high := some price
  low := some price
  close := some price
  volume := some 1000
  indicators := []

theorem flat_sorted (price : ℚ) {dates : List ℤ} (h : dates.Pairwise (· < ·)) :
    ((dates.map fun date => (date, Bar.flat price)).map Prod.fst).Pairwise (· < ·) := by
  simpa [Function.comp_def] using h

def Frame.flat (price : ℚ) (dates : List ℤ) (h : dates.Pairwise (· < ·)) : Frame where
  rows := dates.map fun date => (date, .flat price)
  sorted := flat_sorted price h

theorem tage_sorted : [(1 : ℤ), 2, 3].Pairwise (· < ·) := by decide

/-- Three days of the index fund and a share at 100, without costs. -/
def dreiTage : Market where
  simulationData symbol :=
    if symbol = "SPY" ∨ symbol = "AAPL" then some (.flat 100 [1, 2, 3] tage_sorted) else none
  startDate := 1
  slippagePercent := 0
  commissionPerTrade := 0
  divisionRaises _ := false

/-- A sale of five shares more than were bought. -/
def zuVielVerkauft : List Call :=
  [.request (.submitOrder "AAPL" 10 .buy), .advanceDay,
    .request (.submitOrder "AAPL" 15 .sell), .advanceDay]

/-- The cash of fifteen shares is booked for ten. -/
theorem zuVielVerkauft_not_ledger :
    ¬Ledger dreiTage { Client.init 100000 with currentDate := some 1 } zuVielVerkauft := by
  intro h
  have hbalanced := h.orders (zuVielVerkauft.take 3) [] 3 rfl (by decide +kernel) []
    ⟨"AAPL", 15, .sell, 2, "sim_AAPL_1"⟩ [] (by decide +kernel)
  have hbookable := processSingleOrder_balanced_iff.mp hbalanced 100 (by decide +kernel)
    ⟨10, some 100, some 1000⟩ (by decide +kernel)
  revert hbookable
  decide +kernel

end Backtest
