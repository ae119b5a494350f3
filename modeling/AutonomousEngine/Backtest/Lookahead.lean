import AutonomousEngine.Backtest.Ledger

/-!
# A backtest does not look ahead

An order waits for the day after the one on which it was submitted, and is taken out
of the queue when it is processed.  Both are read off one invariant of a run
(`Queue`): what is queued is from today or before, and no two orders, processed or
queued, have the same name.

What a strategy reads, and what a day does to the account, depend on the rows up to
this day only (`view_congr`, `advanceDay_congr`).  So two tables that agree up to a
day lead a strategy to the same run up to this day (`after_congr`).
-/

namespace Backtest

open Basis

/-! ## Names of orders -/

theorem split_last {α : Type} {x : α} {as bs cs ds : List α} (hbs : x ∉ bs) (hds : x ∉ ds)
    (h : as ++ x :: bs = cs ++ x :: ds) : bs = ds := by
  induction as generalizing cs with
  | nil =>
      cases cs with
      | nil => exact (List.cons.inj h).2
      | cons c cs =>
          refine absurd ?_ hbs
          rw [(List.cons.inj h).2]
          simp
  | cons a as ih =>
      cases cs with
      | nil =>
          refine absurd ?_ hds
          rw [← (List.cons.inj h).2]
          simp
      | cons c cs => exact ih (List.cons.inj h).2

theorem underscore_notMem_repr (k : ℕ) : '_' ∉ k.repr.toList := by
  intro h
  rw [Nat.toList_repr] at h
  have hdigit := Nat.isDigit_of_mem_toDigits (by decide) (by decide) h
  revert hdigit
  decide

/-- The counter can be read off the name of an order. -/
theorem orderId_inj {s t : String} {k l : ℕ} (h : Client.orderId s k = Client.orderId t l) :
    k = l := by
  have hlist := congrArg String.toList h
  simp only [Client.orderId, String.toList_append] at hlist
  rw [show "_".toList = ['_'] from rfl, List.append_assoc _ ['_'], List.append_assoc _ ['_']] at hlist
  have hrepr := split_last (underscore_notMem_repr k) (underscore_notMem_repr l) hlist
  rw [Nat.toList_repr, Nat.toList_repr] at hrepr
  calc
    k = Nat.ofDigitChars 10 (Nat.toDigits 10 k) 0 := Nat.ofDigitChars_ten_toDigits.symm
    _ = Nat.ofDigitChars 10 (Nat.toDigits 10 l) 0 := by rw [hrepr]
    _ = l := Nat.ofDigitChars_ten_toDigits

/-! ## What requests do -/

/-- What submitting an order and clearing the queue keep, requests keep. -/
theorem requests_preserve {P : Client → Prop}
    (hsubmit : ∀ c symbol qty side, P c → P (c.submitOrder symbol qty side))
    (hclear : ∀ c, P c → P { c with pendingOrders := [] }) {c : Client} (h : P c)
    (requests : List Request) : P (requests.foldl Client.request c) := by
  have hclose (entries : List (String × Position)) :
      ∀ {c}, P c → P (entries.foldl Client.submitClose c) := by
    induction entries with
    | nil => exact id
    | cons e entries ih => exact fun hc => ih (hsubmit _ _ _ _ hc)
  induction requests generalizing c with
  | nil => exact h
  | cons request requests ih =>
      refine ih ?_
      cases request with
      | submitOrder symbol qty side => exact hsubmit c symbol qty side h
      | closeAllPositions cancelOrders =>
          refine hclose _ ?_
          cases cancelOrders with
          | true => exact hclear c h
          | false => exact h

/-- Requests leave the account and the day. -/
theorem requests_day (c : Client) (requests : List Request) :
    (requests.foldl Client.request c).account = c.account ∧
      (requests.foldl Client.request c).currentDate = c.currentDate ∧
      (requests.foldl Client.request c).currentIndex = c.currentIndex := by
  refine requests_preserve (P := fun c' => c'.account = c.account ∧
    c'.currentDate = c.currentDate ∧ c'.currentIndex = c.currentIndex) ?_ (fun _ h => h)
    ⟨rfl, rfl, rfl⟩ requests
  intro c' symbol qty side h
  unfold Client.submitOrder
  split
  next => exact h
  next => exact h

/-! ## Trades -/

/-- A trade executes an order: on a later day than the one it was submitted on, at
the open of this day. -/
structure Executes (m : Market) (o : PendingOrder) (t : Trade) : Prop where
  trade : t = o.trade t.timestamp t.price
  later : o.timestampCreated < t.timestamp
  price : m.executionPrice t.timestamp o.symbol o.side = some t.price

section

variable {m : Market} {date : ℤ}

/-- An order that is processed becomes a trade at the open of the day, or none. -/
theorem processSingleOrder_history (a : Account) (o : PendingOrder) :
    (processSingleOrder m date a o).tradeHistory = a.tradeHistory ∨
    ∃ price, m.executionPrice date o.symbol o.side = some price ∧
      (processSingleOrder m date a o).tradeHistory = a.tradeHistory ++ [o.trade date price] := by
  unfold processSingleOrder
  cases hprice : m.executionPrice date o.symbol o.side with
  | none => exact .inl rfl
  | some price =>
      cases hside : o.side with
      | buy =>
          dsimp only
          split
          next => exact .inl rfl
          next =>
            rcases processBuyExecution_cases m a o.symbol o.qty price with
              ⟨pos, -, -, -, heq⟩ | ⟨-, pos, -, heq⟩
            · rw [heq]
              exact .inl rfl
            · rw [heq]
              exact .inr ⟨price, rfl, rfl⟩
      | sell =>
          refine .inr ⟨price, rfl, ?_⟩
          exact congrArg (· ++ [o.trade date price]) (processSellExecution_tradeHistory _ _ _ _ _)

theorem mem_history_foldl {t : Trade} {orders : List PendingOrder} {a : Account}
    (h : t ∈ (orders.foldl (processSingleOrder m date) a).tradeHistory) :
    t ∈ a.tradeHistory ∨ ∃ o ∈ orders, ∃ price,
      m.executionPrice date o.symbol o.side = some price ∧ t = o.trade date price := by
  induction orders generalizing a with
  | nil => exact .inl h
  | cons o orders ih =>
      rcases ih h with hfirst | ⟨o', ho', price, hprice, rfl⟩
      · rcases processSingleOrder_history a o with hsame | ⟨price, hprice, hnew⟩
        · rw [hsame] at hfirst
          exact .inl hfirst
        · rw [hnew, List.mem_append, List.mem_singleton] at hfirst
          rcases hfirst with hold | rfl
          · exact .inl hold
          · exact .inr ⟨o, .head _, price, hprice, rfl⟩
      · exact .inr ⟨o', .tail _ ho', price, hprice, rfl⟩

/-- Orders that are processed become trades in their order, some of them. -/
theorem history_foldl (orders : List PendingOrder) (a : Account) :
    ∃ traded, (traded.map Trade.orderId).Sublist (orders.map PendingOrder.orderId) ∧
      (orders.foldl (processSingleOrder m date) a).tradeHistory = a.tradeHistory ++ traded := by
  induction orders generalizing a with
  | nil => exact ⟨[], .slnil, (List.append_nil _).symm⟩
  | cons o orders ih =>
      obtain ⟨traded, hsub, hrest⟩ := ih (processSingleOrder m date a o)
      rw [List.foldl_cons, hrest, List.map_cons]
      rcases processSingleOrder_history a o with hsame | ⟨price, -, hnew⟩
      · exact ⟨traded, hsub.cons _, by rw [hsame]⟩
      · exact ⟨o.trade date price :: traded, hsub.cons_cons _, by rw [hnew, List.append_assoc]; rfl⟩

end

/-! ## The queue of a run -/

/-- What is queued is from today or before, no two orders have the same name, every trade
executes an order that was processed, and the trades are those of some of these, in order. -/
structure Queue (m : Market) (c : Client) : Prop where
  day : ∃ date, c.currentDate = some date ∧ m.dateRange[c.currentIndex]? = some date
  created : ∀ o ∈ c.pendingOrders, ∀ date, c.currentDate = some date → o.timestampCreated ≤ date
  named : ∀ o ∈ c.processed ++ c.pendingOrders,
    ∃ k < c.orderIdCounter, o.orderId = Client.orderId o.symbol k
  once : ((c.processed ++ c.pendingOrders).map PendingOrder.orderId).Nodup
  trades : ∀ t ∈ c.account.tradeHistory, ∃ o ∈ c.processed, Executes m o t
  history : (c.account.tradeHistory.map Trade.orderId).Sublist
    (c.processed.map PendingOrder.orderId)

section

variable {m : Market} {c : Client}

theorem Queue.submitOrder (h : Queue m c) (symbol : String) (qty : ℚ) (side : Side) :
    Queue m (c.submitOrder symbol qty side) := by
  obtain ⟨today, htoday, hindex⟩ := h.day
  simp only [Client.submitOrder, htoday]
  have hfresh : ∀ o ∈ c.processed ++ c.pendingOrders,
      o.orderId ≠ Client.orderId symbol c.orderIdCounter := by
    intro o ho heq
    obtain ⟨k, hk, hname⟩ := h.named o ho
    exact hk.ne (orderId_inj (hname.symm.trans heq))
  constructor
  · exact ⟨today, rfl, hindex⟩
  · intro o ho date hdate
    obtain rfl : today = date := Option.some.inj hdate
    rcases List.mem_append.mp ho with hold | hnew
    · exact h.created o hold today htoday
    · obtain rfl := List.mem_singleton.mp hnew
      exact le_rfl
  · intro o ho
    rw [← List.append_assoc, List.mem_append] at ho
    rcases ho with hold | hnew
    · obtain ⟨k, hk, hname⟩ := h.named o hold
      exact ⟨k, Nat.lt_succ_of_lt hk, hname⟩
    · obtain rfl := List.mem_singleton.mp hnew
      exact ⟨c.orderIdCounter, Nat.lt_succ_self _, rfl⟩
  · rw [← List.append_assoc, List.map_append, List.map_singleton, List.nodup_append]
    refine ⟨h.once, List.nodup_singleton _, fun x hx y hy => ?_⟩
    obtain ⟨o, ho, rfl⟩ := List.mem_map.mp hx
    obtain rfl := List.mem_singleton.mp hy
    exact hfresh o ho
  · exact h.trades
  · exact h.history

theorem Queue.clear (h : Queue m c) : Queue m { c with pendingOrders := [] } where
  day := h.day
  created := fun o ho => absurd ho List.not_mem_nil
  named := by
    intro o ho
    rw [List.append_nil] at ho
    exact h.named o (List.mem_append_left _ ho)
  once := by
    rw [List.append_nil]
    exact h.once.sublist ((List.sublist_append_left _ _).map _)
  trades := h.trades
  history := h.history

theorem dateRange_sorted (m : Market) : m.dateRange.Pairwise (· < ·) := by
  unfold Market.dateRange
  split
  next => exact List.Pairwise.nil
  next spy _ => exact spy.sorted.sublist List.filter_sublist

theorem dateRange_lt {n : ℕ} {date next : ℤ} (hdate : m.dateRange[n]? = some date)
    (hnext : m.dateRange[n + 1]? = some next) : date < next := by
  obtain ⟨hi, rfl⟩ := List.getElem?_eq_some_iff.mp hdate
  obtain ⟨hj, rfl⟩ := List.getElem?_eq_some_iff.mp hnext
  exact List.pairwise_iff_getElem.mp (dateRange_sorted m) _ _ hi hj (Nat.lt_succ_self _)

/-- The next day processes what is queued. -/
theorem Queue.advance (h : Queue m c) {date : ℤ} (hdate : c.nextDay m = some date) :
    Queue m (c.advanceDay m).1 := by
  obtain ⟨today, htoday, hindex⟩ := h.day
  have hlater : today < date := dateRange_lt hindex hdate
  rw [Client.advanceDay_eq hdate]
  constructor
  · exact ⟨date, rfl, hdate⟩
  · exact fun o ho => absurd ho List.not_mem_nil
  · rw [List.append_nil]
    exact h.named
  · rw [List.append_nil]
    exact h.once
  · intro t ht
    rcases mem_history_foldl ht with hold | ⟨o, ho, price, hprice, rfl⟩
    · obtain ⟨o, ho, hexec⟩ := h.trades t hold
      exact ⟨o, List.mem_append_left _ ho, hexec⟩
    · refine ⟨o, List.mem_append_right _ ho, rfl, ?_, hprice⟩
      exact (h.created o ho today htoday).trans_lt hlater
  · obtain ⟨traded, hsub, htraded⟩ := @history_foldl m date c.pendingOrders c.account
    have hnow : (c.opened m date c.pendingOrders).tradeHistory = c.account.tradeHistory ++ traded :=
      htraded
    show ((c.opened m date c.pendingOrders).tradeHistory.map Trade.orderId).Sublist _
    rw [hnow, List.map_append, List.map_append]
    exact h.history.append hsub

end

namespace Run

variable {μ : Type} {strategy : Strategy μ} {m : Market} {r : Run μ}

theorem advance_cases (m : Market) (r : Run μ) :
    r.client.nextDay m = none ∧ r.advance m = { r with finished := true } ∨
    ∃ date, r.client.nextDay m = some date ∧
      r.advance m = { r with client := (r.client.advanceDay m).1 } := by
  cases h : r.client.nextDay m with
  | none =>
      refine .inl ⟨rfl, ?_⟩
      rw [Client.nextDay] at h
      simp only [advance, Client.advanceDay, h]
  | some date => exact .inr ⟨date, rfl, by rw [advance, Client.advanceDay_eq h]⟩

theorem turn_queue (h : Queue m r.client) : Queue m (r.turn strategy m).client := by
  unfold turn
  split
  next => exact h
  next =>
    have hcallback : Queue m (r.callback strategy m).client :=
      requests_preserve (P := Queue m) (fun _ symbol qty side hc => hc.submitOrder symbol qty side)
        (fun _ hc => hc.clear) h _
    rcases advance_cases m (r.callback strategy m) with ⟨-, heq⟩ | ⟨date, hdate, heq⟩
    · rw [heq]
      exact hcallback
    · rw [heq]
      exact hcallback.advance hdate

theorem start_queue {initialCash : ℚ} {memory : μ} (h : start m initialCash memory = some r) :
    Queue m r.client := by
  obtain ⟨date, hdate, rfl⟩ := Option.map_eq_some_iff.mp h
  exact ⟨⟨date, rfl, hdate⟩, fun o ho => absurd ho List.not_mem_nil,
    fun o ho => absurd ho List.not_mem_nil, List.nodup_nil, fun t ht => absurd ht List.not_mem_nil,
    .slnil⟩

theorem after_queue {initialCash : ℚ} {memory : μ} {n : ℕ}
    (h : after strategy m initialCash memory n = some r) : Queue m r.client := by
  obtain ⟨first, hfirst, rfl⟩ := Option.map_eq_some_iff.mp h
  induction n with
  | zero => exact start_queue hfirst
  | succ n ih => exact turn_queue (ih (congrArg (Option.map _) hfirst))

end Run

/-! ## Tables that agree up to a day -/

def Market.upTo (m : Market) (date : ℤ) (symbol : String) : List (ℤ × Bar) :=
  (m.simulationData symbol).elim [] fun f => f.upTo date

/-- Two markets with the same costs whose tables agree up to a day. -/
structure AgreeUpTo (d : ℤ) (m m' : Market) : Prop where
  rows : ∀ symbol, m.upTo d symbol = m'.upTo d symbol
  startDate : m.startDate = m'.startDate
  slippagePercent : m.slippagePercent = m'.slippagePercent
  commissionPerTrade : m.commissionPerTrade = m'.commissionPerTrade
  divisionRaises : m.divisionRaises = m'.divisionRaises

section

variable {m m' : Market} {d date : ℤ}

theorem upTo_upTo (hdate : date ≤ d) (symbol : String) :
    m.upTo date symbol = (m.upTo d symbol).filter fun row => row.1 ≤ date := by
  unfold Market.upTo
  cases m.simulationData symbol with
  | none => rfl
  | some f =>
      simp only [Option.elim_some, Frame.upTo, List.filter_filter]
      refine List.filter_congr fun row _ => ?_
      by_cases hrow : row.1 ≤ date
      · simp [hrow, hrow.trans hdate]
      · simp [hrow]

theorem AgreeUpTo.mono (h : AgreeUpTo d m m') (hdate : date ≤ d) : AgreeUpTo date m m' where
  rows := by
    intro symbol
    rw [upTo_upTo hdate, upTo_upTo hdate, h.rows]
  startDate := h.startDate
  slippagePercent := h.slippagePercent
  commissionPerTrade := h.commissionPerTrade
  divisionRaises := h.divisionRaises

theorem bar_eq (m : Market) (date : ℤ) (symbol : String) :
    m.bar date symbol = dictGet date (m.upTo date symbol) := by
  unfold Market.bar Market.upTo
  cases m.simulationData symbol with
  | none => rfl
  | some f =>
      simp only [Option.bind_some, Option.elim_some, Frame.loc, Frame.upTo, dictGet,
        List.find?_filter]
      congr 2
      funext row
      by_cases hrow : row.1 = date
      · simp [hrow]
      · simp [hrow]

theorem AgreeUpTo.bar (h : AgreeUpTo date m m') (symbol : String) :
    m.bar date symbol = m'.bar date symbol := by
  rw [bar_eq, bar_eq, h.rows]

theorem getBars_eq (m : Market) {c : Client} (hdate : c.currentDate = some date) (symbol : String)
    (limit : ℤ) : c.getBars m symbol limit = Client.tail (m.upTo date symbol) limit := by
  unfold Client.getBars Market.upTo
  rw [hdate]
  cases m.simulationData symbol with
  | none => simp [Client.tail]
  | some f => rfl

/-- What a strategy sees on a day depends on the rows up to this day. -/
theorem view_congr (h : AgreeUpTo date m m') {c : Client} (hdate : c.currentDate = some date) :
    c.view m = c.view m' := by
  have hbars : c.getBars m = c.getBars m' := by
    funext symbol limit
    rw [getBars_eq m hdate, getBars_eq m' hdate, h.rows]
  have hsnapshots : c.getSnapshots m = c.getSnapshots m' := by
    funext symbols
    simp only [Client.getSnapshots, h.bar, hdate]
  rw [Client.view, Client.view, hbars, hsnapshots]

theorem processSingleOrder_congr (h : AgreeUpTo date m m') :
    processSingleOrder m date = processSingleOrder m' date := by
  have hbuy : processBuyExecution m = processBuyExecution m' := by
    funext a symbol qty price
    rw [processBuyExecution, processBuyExecution, h.commissionPerTrade, h.divisionRaises]
  have hsell : processSellExecution m = processSellExecution m' := by
    funext a symbol qty price
    rw [processSellExecution, processSellExecution, h.commissionPerTrade]
  have hprice : m.executionPrice date = m'.executionPrice date := by
    funext symbol side
    rw [Market.executionPrice, Market.executionPrice, h.bar, h.slippagePercent]
  have hcost : m.cost = m'.cost := by
    funext o price
    rw [Market.cost, Market.cost, h.commissionPerTrade]
  funext a o
  rw [processSingleOrder, processSingleOrder, hbuy, hsell, hprice, hcost]

/-- In an increasing list, the elements up to one of them come first. -/
theorem getElem?_filter_le_iff {l : List ℤ} (hl : l.Pairwise (· < ·)) (n : ℕ) :
    (l.filter fun x => x ≤ date)[n]? = some date ↔ l[n]? = some date := by
  induction l generalizing n with
  | nil => rfl
  | cons x l ih =>
      obtain ⟨hx, hl⟩ := List.pairwise_cons.mp hl
      by_cases hle : x ≤ date
      · rw [List.filter_cons_of_pos (by simpa using hle)]
        cases n with
        | zero => rfl
        | succ n => exact ih hl n
      · have hnone : l.filter (fun x => x ≤ date) = [] :=
          List.filter_eq_nil_iff.mpr fun y hy => by
            simpa using (not_le.mp hle).trans (hx y hy)
        rw [List.filter_cons_of_neg (by simpa using hle), hnone]
        refine iff_of_false (by simp) fun hn => ?_
        have hmem := List.mem_of_getElem? hn
        rcases List.mem_cons.mp hmem with heq | hlater
        · exact hle heq.ge
        · exact hle (hx date hlater).le

theorem dateRange_upTo (m : Market) :
    (m.dateRange.filter fun day => day ≤ date) =
      ((m.upTo date "SPY").map Prod.fst).filter fun day => m.startDate ≤ day := by
  unfold Market.dateRange Market.upTo
  cases m.simulationData "SPY" with
  | none => rfl
  | some spy =>
      simp only [Option.elim_some, Frame.upTo, List.filter_map, List.filter_filter]
      congr 1
      exact List.filter_congr fun row _ => Bool.and_comm _ _

/-- A day is at the same place in tables that agree up to it. -/
theorem dateRange_congr (h : AgreeUpTo date m m') {n : ℕ} (hn : m.dateRange[n]? = some date) :
    m'.dateRange[n]? = some date := by
  rw [← getElem?_filter_le_iff (dateRange_sorted _), dateRange_upTo] at hn ⊢
  rw [← h.rows, ← h.startDate]
  exact hn

/-- A day changes the client by the rows up to this day. -/
theorem advanceDay_congr (h : AgreeUpTo date m m') {c : Client} (hday : c.nextDay m = some date) :
    c.advanceDay m = c.advanceDay m' := by
  have hday' : c.nextDay m' = some date := dateRange_congr h hday
  have hcloses : Account.closes m date = Account.closes m' date := by
    funext symbol
    rw [Account.closes, Account.closes, h.bar]
  rw [Client.advanceDay_eq hday, Client.advanceDay_eq hday', Client.opened, Client.opened,
    processSingleOrder_congr h, hcloses]

end

namespace Run

variable {μ : Type} {strategy : Strategy μ} {m m' : Market} {r : Run μ}

theorem callback_day (strategy : Strategy μ) (m : Market) (r : Run μ) :
    (r.callback strategy m).client.currentDate = r.client.currentDate ∧
      (r.callback strategy m).client.currentIndex = r.client.currentIndex ∧
      (r.callback strategy m).finished = r.finished := by
  obtain ⟨-, hdate, hindex⟩ :=
    requests_day r.client (strategy r.memory (r.client.view m)).2
  exact ⟨hdate, hindex, rfl⟩

/-- A run that has reached a day that its table knows. -/
structure At (m : Market) (n : ℕ) (date : ℤ) (r : Run μ) : Prop where
  index : r.client.currentIndex = n
  date : r.client.currentDate = some date
  running : r.finished = false

/-- A turn on a day leads to the next one, by the rows up to it. -/
theorem turn_at (strategy : Strategy μ) {n : ℕ} {date next : ℤ} (h : r.At m n date)
    (hnext : m.dateRange[n + 1]? = some next) (hlater : date < next) (hagree : AgreeUpTo next m m') :
    (r.turn strategy m).At m (n + 1) next ∧ r.turn strategy m = r.turn strategy m' := by
  have hview := view_congr (hagree.mono hlater.le) h.date
  have hcallback : r.callback strategy m = r.callback strategy m' := by
    rw [callback, callback, hview]
  obtain ⟨-, hindex, hfinished⟩ := callback_day strategy m r
  have hday : (r.callback strategy m).client.nextDay m = some next := by
    rw [Client.nextDay, hindex, h.index, hnext]
  have hturn (m : Market) : r.turn strategy m = (r.callback strategy m).advance m := by
    rw [turn, h.running]
    rfl
  rw [hturn, hturn, ← hcallback, advance, advance, ← advanceDay_congr hagree hday]
  refine ⟨?_, rfl⟩
  rw [Client.advanceDay_eq hday]
  exact ⟨congrArg (· + 1) (hindex.trans h.index), rfl, hfinished.trans h.running⟩

/-- The run up to a day is the same for tables that agree up to it. -/
theorem after_congr {initialCash : ℚ} {memory : μ} {n : ℕ} {date : ℤ}
    (hdate : m.dateRange[n]? = some date) (hagree : AgreeUpTo date m m') :
    ∃ r, after strategy m initialCash memory n = some r ∧
      after strategy m' initialCash memory n = some r ∧ r.At m n date := by
  induction n generalizing date with
  | zero =>
      have hdate' := dateRange_congr hagree hdate
      refine ⟨first initialCash memory date, ?_, ?_, rfl, rfl, rfl⟩
      · rw [after, start, hdate]
        rfl
      · rw [after, start, hdate']
        rfl
  | succ n ih =>
      obtain ⟨prev, hprev⟩ : ∃ prev, m.dateRange[n]? = some prev := by
        obtain ⟨hn, -⟩ := List.getElem?_eq_some_iff.mp hdate
        exact ⟨_, List.getElem?_eq_getElem (Nat.lt_of_succ_lt hn)⟩
      have hlater : prev < date := dateRange_lt hprev hdate
      obtain ⟨r, hr, hr', hat⟩ := ih hprev (hagree.mono hlater.le)
      obtain ⟨hat', hsame⟩ := turn_at strategy hat hdate hlater hagree
      refine ⟨r.turn strategy m, ?_, ?_, hat'⟩
      · obtain ⟨first, hfirst, rfl⟩ := Option.map_eq_some_iff.mp hr
        rw [after, hfirst]
        rfl
      · obtain ⟨first, hfirst, rfl⟩ := Option.map_eq_some_iff.mp hr'
        rw [after, hfirst, hsame]
        rfl

end Run

/-! ## No look-ahead -/

theorem mem_tail {rows : List (ℤ × Bar)} {limit : ℤ} {row : ℤ × Bar}
    (h : row ∈ Client.tail rows limit) : row ∈ rows := by
  unfold Client.tail at h
  split at h
  next => exact List.mem_of_mem_drop h
  next => exact List.mem_of_mem_drop h

/-- What a run may use of its tables. -/
structure Blind {μ : Type} (m : Market) (r : Run μ) : Prop where
  /-- Every trade executes an order of an earlier day at the open of its own. -/
  trades : ∀ t ∈ r.client.account.tradeHistory, ∃ o ∈ r.client.processed, Executes m o t
  /-- No order is processed twice. -/
  once : (r.client.processed.map PendingOrder.orderId).Nodup
  /-- No order becomes two trades. -/
  tradedOnce : (r.client.account.tradeHistory.map Trade.orderId).Nodup
  /-- No row of a later day is read. -/
  bars : ∀ symbol limit, ∀ row ∈ r.client.getBars m symbol limit,
    ∃ date, r.client.currentDate = some date ∧ row.1 ≤ date

theorem Queue.processed_nodup {m : Market} {c : Client} (h : Queue m c) :
    (c.processed.map PendingOrder.orderId).Nodup := by
  have honce := h.once
  rw [List.map_append] at honce
  exact honce.sublist (List.sublist_append_left _ _)

theorem Queue.blind {μ : Type} {m : Market} {r : Run μ} (h : Queue m r.client) : Blind m r where
  trades := h.trades
  once := h.processed_nodup
  tradedOnce := h.processed_nodup.sublist h.history
  bars := by
    intro symbol limit row hrow
    obtain ⟨date, hdate, -⟩ := h.day
    refine ⟨date, hdate, ?_⟩
    rw [getBars_eq m hdate] at hrow
    have hmem := mem_tail hrow
    unfold Market.upTo at hmem
    cases hframe : m.simulationData symbol with
    | none =>
        rw [hframe] at hmem
        cases hmem
    | some f =>
        rw [hframe] at hmem
        exact of_decide_eq_true (List.mem_filter.mp hmem).2

/-- A backtest does not look ahead, whatever the strategy: its orders wait for a later
day, are processed once and read no row of a later day; and tables that agree up to a
day lead to the same account on this day. -/
theorem no_lookahead {μ : Type} (strategy : Strategy μ) (m : Market) (initialCash : ℚ)
    (memory : μ) :
    (∀ n r, Run.after strategy m initialCash memory n = some r → Blind m r) ∧
    ∀ m' d, AgreeUpTo d m m' → ∀ n date, m.dateRange[n]? = some date → date ≤ d →
      ∃ r r', Run.after strategy m initialCash memory n = some r ∧
        Run.after strategy m' initialCash memory n = some r' ∧
        r.client.currentDate = some date ∧ r'.client.currentDate = some date ∧
        r.client.account = r'.client.account := by
  refine ⟨fun n r h => (Run.after_queue h).blind, ?_⟩
  intro m' d hagree n date hdate hle
  obtain ⟨r, hr, hr', hat⟩ := Run.after_congr hdate (hagree.mono hle)
  exact ⟨r, r, hr, hr', hat.date, hat.date, rfl⟩

/-- The share and the fund double on the third day. -/
def amDrittenDoppelt : Frame where
  rows := [(1, .flat 100), (2, .flat 100), (3, .flat 200)]
  sorted := tage_sorted

def dritterTagAnders : Market :=
  { dreiTage with
    simulationData symbol :=
      if symbol = "SPY" ∨ symbol = "AAPL" then some amDrittenDoppelt else none }

def kaufeTaeglich : Strategy Unit := fun _ _ => ((), [.submitOrder "AAPL" 1 .buy])

theorem bisZumZweitenGleich : AgreeUpTo 2 dreiTage dritterTagAnders where
  rows := by
    intro symbol
    by_cases h : symbol = "SPY" ∨ symbol = "AAPL"
    · simp only [Market.upTo, dreiTage, dritterTagAnders, h, if_true]
      rfl
    · simp only [Market.upTo, dreiTage, dritterTagAnders, h, if_false]
  startDate := rfl
  slippagePercent := rfl
  commissionPerTrade := rfl
  divisionRaises := rfl

/-- Two orders become trades, on the second and the third day; and on the second day nothing shows
that the third one will be another. -/
theorem no_lookahead_dreiTage :
    (∃ r, Run.after kaufeTaeglich dreiTage 1000 () 2 = some r ∧
      r.client.account.tradeHistory.map Trade.timestamp = [2, 3] ∧ Blind dreiTage r) ∧
    ∃ r r', Run.after kaufeTaeglich dreiTage 1000 () 1 = some r ∧
      Run.after kaufeTaeglich dritterTagAnders 1000 () 1 = some r' ∧
      r.client.currentDate = some 2 ∧ r'.client.currentDate = some 2 ∧
      r.client.account = r'.client.account := by
  have hrun := no_lookahead kaufeTaeglich dreiTage 1000 ()
  exact ⟨⟨_, rfl, by decide +kernel, hrun.1 2 _ rfl⟩,
    hrun.2 dritterTagAnders 2 bisZumZweitenGleich 1 2 rfl le_rfl⟩

end Backtest
