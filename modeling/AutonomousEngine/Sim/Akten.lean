import AutonomousEngine.Sim.Broker

/-!
# The records of the orders of a simulated day

An order carries what was filled of it and at which price, and readers reconstruct entries
from that.  The price is the one of the last fill, the quantity is rounded, and a single
cancellation does not ask whether the order is done with.  So a record is right in a run
in which the quantity of an order that is filled is not below its rounding, an order is filled
further at the price of its first fill only and while more than the rounding is outstanding,
and no cancellation names an order that was filled or rejected (`akten_stimmen`).  That no fill
goes beyond the quantity follows (`Beleg.fillQuantity_le`).
-/

namespace Sim

open Basis

/-! ## Fills -/

/-- An order is filled at a price: it is open and triggered, something is outstanding, and the
cash or the position suffices. -/
def Fuellt (u : Umfeld) (d : Depot) (o : SimOrder) (price : ℚ) : Prop :=
  o.status.terminal = false ∧ u.rejects o.symbol = false ∧ u.price o.symbol = some price ∧
    isTriggered o price = true ∧ 0 < fillQuantity u o ∧
    match o.side with
    | .buy => fillQuantity u o * price ≤ d.cash
    | .sell => ∃ pos, d.positions.get? o.symbol = some pos ∧ fillQuantity u o ≤ pos.qty

/-- The quantity that is recorded as filled. -/
def SimOrder.gefuellt (o : SimOrder) : ℚ := o.filledQty.getD 0

/-- An order that was filled before is filled further at the price of that fill, and while what
is outstanding is not finer than the rounding. -/
def Nachgefuellt (o : SimOrder) (price : ℚ) : Prop :=
  ∀ t, o.filledQty = some t → o.filledAvgPrice = some price ∧ 0 < roundTo 6 (o.qty - t)

/-- An order that is filled has a quantity that is not rounded up. -/
def SauberGefuellt (u : Umfeld) (d : Depot) (o : SimOrder) : Prop :=
  ∀ price, Fuellt u d o price → roundTo 6 o.qty ≤ o.qty ∧ Nachgefuellt o price

/-- The cash that an order moves, to the book or from it. -/
def umsatz (u : Umfeld) (d : Depot) (o : SimOrder) : ℚ :=
  match o.side with
  | .buy => d.cash - (processOrder u d o).1.cash
  | .sell => (processOrder u d o).1.cash - d.cash

/-- What a call makes of an order, with the cash that is moved for it. -/
inductive Wandel (u : Umfeld) (o : SimOrder) : SimOrder → ℚ → Prop where
  | bleibt : Wandel u o o 0
  | abgelehnt (hopen : o.status.terminal = false) : Wandel u o { o with status := .rejected } 0
  | storniert (hopen : o.status.terminal = false) : Wandel u o { o with status := .canceled } 0
  | gefuellt {price : ℚ} (hopen : o.status.terminal = false) (hpos : 0 < fillQuantity u o)
      (hqty : roundTo 6 o.qty ≤ o.qty) (hagain : Nachgefuellt o price) :
      Wandel u o (o.recordFill (fillQuantity u o) price) (fillQuantity u o * price)

theorem umsatz_of_same {u : Umfeld} {d : Depot} {o : SimOrder} (h : (processOrder u d o).1 = d) :
    umsatz u d o = 0 := by
  rw [umsatz, h, sub_self]
  cases o.side <;> rfl

/-- An order that is filled takes the recorded price and moves the cash of the fill. -/
theorem Fuellt.processOrder {u : Umfeld} {d : Depot} {o : SimOrder} {price : ℚ}
    (h : Fuellt u d o price) :
    (Sim.processOrder u d o).2 = o.recordFill (fillQuantity u o) price ∧
      umsatz u d o = fillQuantity u o * price := by
  obtain ⟨hopen, hrejects, hprice, htrigger, hpos, hside⟩ := h
  have hstep : Sim.processOrder u d o = fuelle d o (fillQuantity u o) price := by
    simp [Sim.processOrder, hopen, hrejects, hprice, htrigger, not_le.mpr hpos]
  rw [umsatz, hstep, fuelle]
  cases hcase : o.side with
  | buy =>
      rw [hcase] at hside
      simp only [if_pos hside, Depot.buy, true_and]
      exact sub_sub_cancel _ _
  | sell =>
      rw [hcase] at hside
      obtain ⟨pos, hget, hqty⟩ := hside
      simp only [hget, if_pos hqty, Depot.sell, true_and]
      exact add_sub_cancel_left _ _

/-- An order that is not filled moves no cash, and at most it is rejected. -/
theorem processOrder_of_not {u : Umfeld} {d : Depot} {o : SimOrder}
    (h : ∀ price, ¬Fuellt u d o price) : Wandel u o (processOrder u d o).2 (umsatz u d o) := by
  have hsame (heq : processOrder u d o = (d, o)) :
      Wandel u o (processOrder u d o).2 (umsatz u d o) := by
    rw [umsatz_of_same (by rw [heq]), heq]
    exact .bleibt
  cases hopen : o.status.terminal with
  | true => exact hsame (by simp [processOrder, hopen])
  | false =>
      cases hrejects : u.rejects o.symbol with
      | true =>
          have heq : processOrder u d o = (d, { o with status := .rejected }) := by
            simp [processOrder, hopen, hrejects]
          rw [umsatz_of_same (by rw [heq]), heq]
          exact .abgelehnt hopen
      | false =>
          cases hprice : u.price o.symbol with
          | none => exact hsame (by simp [processOrder, hopen, hrejects, hprice])
          | some price =>
              by_cases hready : isTriggered o price = true ∧ 0 < fillQuantity u o
              · obtain ⟨htrigger, hpos⟩ := hready
                have hstep : processOrder u d o = fuelle d o (fillQuantity u o) price := by
                  simp [processOrder, hopen, hrejects, hprice, htrigger, not_le.mpr hpos]
                have hnot := fun hside =>
                  h price ⟨hopen, hrejects, hprice, htrigger, hpos, hside⟩
                refine hsame (hstep.trans ?_)
                rw [fuelle]
                cases hcase : o.side with
                | buy =>
                    rw [hcase] at hnot
                    exact if_neg hnot
                | sell =>
                    rw [hcase] at hnot
                    cases hget : d.positions.get? o.symbol with
                    | none => rfl
                    | some pos => exact if_neg fun hqty => hnot ⟨pos, hget, hqty⟩
              · refine hsame ?_
                rw [not_and_or, Bool.not_eq_true, not_lt] at hready
                rcases hready with htrigger | hqty
                · simp [processOrder, hopen, hrejects, hprice, htrigger]
                · simp [processOrder, hopen, hrejects, hprice, hqty]

theorem processOrder_wandel {u : Umfeld} {d : Depot} {o : SimOrder} (h : SauberGefuellt u d o) :
    Wandel u o (processOrder u d o).2 (umsatz u d o) := by
  by_cases hfills : ∃ price, Fuellt u d o price
  · obtain ⟨price, hprice⟩ := hfills
    obtain ⟨hqty, hagain⟩ := h price hprice
    obtain ⟨horder, hcash⟩ := hprice.processOrder
    rw [horder, hcash]
    exact .gefuellt hprice.1 hprice.2.2.2.2.1 hqty hagain
  · exact processOrder_of_not fun price hprice => hfills ⟨price, hprice⟩

/-! ## What a record says -/

/-- A record agrees with the cash that was moved for it: the recorded quantity at the recorded
price, before it was rounded.  When the two quantities differ nothing but a rest that is
finer than the rounding is outstanding. -/
structure Beleg (o : SimOrder) (geld : ℚ) : Prop where
  hoechstens : ∀ t, o.filledQty = some t → t ≤ o.qty
  menge : ∃ q, roundTo 6 q = o.gefuellt ∧ q * o.filledAvgPrice.getD 0 = geld ∧
    (q = o.gefuellt ∨ roundTo 6 (o.qty - o.gefuellt) ≤ 0)
  leer : o.filledQty = none → geld = 0

theorem Beleg.raster {o : SimOrder} {geld : ℚ} (h : Beleg o geld) :
    roundTo 6 o.gefuellt = o.gefuellt := by
  obtain ⟨q, hq, -⟩ := h.menge
  rw [← hq, roundTo_roundTo]

/-- What rounding to a unit leaves of a number is rounded to nothing. -/
theorem roundTo_rest (n : ℕ) (x : ℚ) : roundTo n (x - roundTo n x) ≤ 0 := by
  have hpos : (0 : ℚ) < 10 ^ n := by positivity
  have hhalf : (x - roundTo n x) * 10 ^ n ≤ 1 / 2 := by
    have hle := sub_le_roundTo n x
    rw [div_div] at hle
    have hrest : x - roundTo n x ≤ 1 / (2 * 10 ^ n) := by linarith
    calc (x - roundTo n x) * 10 ^ n ≤ 1 / (2 * 10 ^ n) * 10 ^ n :=
          mul_le_mul_of_nonneg_right hrest hpos.le
      _ = 1 / 2 := by field_simp
  have hzero : roundHalfEven (1 / 2) = 0 := by decide +kernel
  rw [roundTo]
  refine div_nonpos_of_nonpos_of_nonneg ?_ hpos.le
  have hmono := roundHalfEven_mono hhalf
  rw [hzero] at hmono
  exact_mod_cast hmono

/-- A fill is everything that is outstanding, or a part of it that is rounded. -/
theorem fillQuantity_cases {u : Umfeld} {o : SimOrder} (hpos : 0 < fillQuantity u o) :
    fillQuantity u o = o.qty - o.gefuellt ∨
      ∃ part < o.qty - o.gefuellt, fillQuantity u o = roundTo 6 part := by
  rw [fillQuantity] at hpos ⊢
  split at hpos
  next => exact absurd hpos (lt_irrefl 0)
  next hout =>
    rw [if_neg hout]
    split
    next => exact .inl rfl
    next ratio _ =>
      split
      next hratio =>
        exact .inr ⟨_, mul_lt_of_lt_one_right (not_le.mp hout) hratio.2, rfl⟩
      next => exact .inl rfl

/-- What is rounded to itself is a multiple of the last place. -/
theorem mul_eq_of_roundTo_self {n : ℕ} {x : ℚ} (h : roundTo n x = x) :
    x * 10 ^ n = roundHalfEven (x * 10 ^ n) := by
  have hpos : (10 : ℚ) ^ n ≠ 0 := by positivity
  conv_lhs => rw [← h, roundTo]
  exact div_mul_cancel₀ _ hpos

/-- The sum of two multiples of the last place is one. -/
theorem roundTo_add_self {n : ℕ} {x y : ℚ} (hx : roundTo n x = x) (hy : roundTo n y = y) :
    roundTo n (x + y) = x + y := by
  refine roundTo_of_mul_eq (k := roundHalfEven (x * 10 ^ n) + roundHalfEven (y * 10 ^ n)) ?_
  rw [add_mul, mul_eq_of_roundTo_self hx, mul_eq_of_roundTo_self hy]
  push_cast [roundHalfEven_intCast]
  rfl

/-- A multiple of the last place and the rounding of less than what is left of a number stay
below the number, unless this one is rounded up. -/
theorem add_roundTo_le {n : ℕ} {x y z : ℚ} (hx : roundTo n x = x) (hz : roundTo n z ≤ z)
    (h : y < z - x) : x + roundTo n y ≤ z := by
  by_contra hlt
  have hgrid := roundTo_add_self hx (roundTo_roundTo n y)
  have hnear := roundTo_le_add n y
  have hpos : (0 : ℚ) < 1 / 2 / 10 ^ n := by positivity
  have hround : roundTo n z = x + roundTo n y :=
    roundTo_of_near (mul_eq_of_roundTo_self hgrid) (abs_lt.mpr ⟨by linarith, by linarith⟩)
  exact hlt (hround ▸ hz)

/-- Before a fill the record agrees at the price of the fill, and what was filled was not
rounded. -/
theorem Beleg.vorher {o : SimOrder} {geld price : ℚ} (h : Beleg o geld)
    (hagain : Nachgefuellt o price) : o.gefuellt * price = geld := by
  cases ht : o.filledQty with
  | none => rw [SimOrder.gefuellt, ht, Option.getD_none, zero_mul, h.leer ht]
  | some t =>
      obtain ⟨hprice, hcoarse⟩ := hagain t ht
      have hgefuellt : o.gefuellt = t := by rw [SimOrder.gefuellt, ht, Option.getD_some]
      obtain ⟨q, -, hgeld, hq | hrest⟩ := h.menge
      · rw [← hq, ← hgeld, hprice, Option.getD_some]
      · rw [hgefuellt] at hrest
        exact absurd hcoarse (not_lt.mpr hrest)

theorem Beleg.fillQuantity_le {u : Umfeld} {o : SimOrder} {geld : ℚ} (h : Beleg o geld)
    (hpos : 0 < fillQuantity u o) (hqty : roundTo 6 o.qty ≤ o.qty) :
    o.gefuellt + fillQuantity u o ≤ o.qty := by
  rcases fillQuantity_cases hpos with hall | ⟨part, hpart, heq⟩
  · rw [hall, add_sub_cancel]
  · rw [heq]
    exact add_roundTo_le h.raster hqty hpart

theorem Beleg.recordFill {u : Umfeld} {o : SimOrder} {geld price : ℚ} (h : Beleg o geld)
    (hpos : 0 < fillQuantity u o) (hqty : roundTo 6 o.qty ≤ o.qty) (hagain : Nachgefuellt o price) :
    Beleg (o.recordFill (fillQuantity u o) price) (geld + fillQuantity u o * price) where
  hoechstens t ht := by
    cases ht
    exact (roundTo_mono (h.fillQuantity_le hpos hqty)).trans hqty
  menge := by
    have hbefore := h.vorher hagain
    refine ⟨o.gefuellt + fillQuantity u o, rfl, ?_, ?_⟩
    · show (o.gefuellt + fillQuantity u o) * price = geld + fillQuantity u o * price
      rw [add_mul, hbefore]
    · show o.gefuellt + fillQuantity u o = roundTo 6 (o.gefuellt + fillQuantity u o) ∨
        roundTo 6 (o.qty - roundTo 6 (o.gefuellt + fillQuantity u o)) ≤ 0
      rcases fillQuantity_cases hpos with hall | ⟨part, -, heq⟩
      · rw [hall, add_sub_cancel]
        exact .inr (roundTo_rest 6 o.qty)
      · rw [heq]
        exact .inl (roundTo_add_self h.raster (roundTo_roundTo 6 part)).symm
  leer hnone := by cases hnone

/-- Every change of an order keeps its record in agreement. -/
theorem Wandel.beleg {u : Umfeld} {o o' : SimOrder} {m geld : ℚ} (hw : Wandel u o o' m)
    (h : Beleg o geld) : Beleg o' (geld + m) := by
  cases hw with
  | bleibt => simpa using h
  | abgelehnt hopen =>
      rw [add_zero]
      exact ⟨h.hoechstens, h.menge, h.leer⟩
  | storniert hopen =>
      rw [add_zero]
      exact ⟨h.hoechstens, h.menge, h.leer⟩
  | gefuellt hopen hpos hqty hagain => exact h.recordFill hpos hqty hagain

/-- What is filled is never less than before, and an order that is done with stays as it is. -/
theorem Wandel.fortschritt {u : Umfeld} {o o' : SimOrder} {m geld : ℚ} (hw : Wandel u o o' m)
    (h : Beleg o geld) :
    o.gefuellt ≤ o'.gefuellt ∧ (o.status.terminal = true → o' = o) := by
  cases hw with
  | bleibt => exact ⟨le_rfl, fun _ => rfl⟩
  | abgelehnt hopen => exact ⟨le_rfl, fun ht => by rw [hopen] at ht; cases ht⟩
  | storniert hopen => exact ⟨le_rfl, fun ht => by rw [hopen] at ht; cases ht⟩
  | gefuellt hopen hpos hqty hagain =>
      refine ⟨?_, fun ht => by rw [hopen] at ht; cases ht⟩
      have hmono := roundTo_mono (n := 6) (le_add_of_nonneg_right hpos.le :
        o.gefuellt ≤ o.gefuellt + fillQuantity u o)
      rw [h.raster] at hmono
      exact hmono

/-! ## A pass over the orders -/

/-- The cash that a pass moves for each order. -/
def umsaetze (u : Umfeld) (d : Depot) (os : List SimOrder) : List ℚ :=
  (feed (fun d o => ((processOrder u d o).1, umsatz u d o)) d os).2

theorem feed_umsatz (u : Umfeld) (d : Depot) (os : List SimOrder) :
    (feed (fun d o => ((processOrder u d o).1, umsatz u d o)) d os).1 =
      (feed (processOrder u) d os).1 := by
  induction os generalizing d with
  | nil => rfl
  | cons o os ih => exact ih _

theorem pass_wandel {u : Umfeld} {d : Depot} {os : List SimOrder}
    (h : Along (processOrder u) (SauberGefuellt u) d os) {i : ℕ} {o : SimOrder}
    (ho : os[i]? = some o) :
    ∃ o', (feed (processOrder u) d os).2[i]? = some o' ∧
      Wandel u o o' ((umsaetze u d os).getD i 0) := by
  refine ⟨_, by rw [getElem?_feed, ho, Option.map_some], ?_⟩
  rw [List.getD_eq_getElem?_getD, umsaetze, getElem?_feed, ho, Option.map_some, Option.getD_some,
    feed_umsatz]
  exact processOrder_wandel (h.of_getElem? ho)

theorem pass_none (u : Umfeld) (d : Depot) {os : List SimOrder} {i : ℕ} (ho : os[i]? = none) :
    (feed (processOrder u) d os).2[i]? = none ∧ (umsaetze u d os).getD i 0 = 0 := by
  rw [List.getD_eq_getElem?_getD, umsaetze, getElem?_feed, getElem?_feed, ho]
  exact ⟨rfl, rfl⟩

/-! ## Calls and runs -/

/-- The record that a request begins with. -/
def SimOrder.neu (id : String) (request : OrderRequest) : SimOrder :=
  { request with id := id, status := .accepted, filledQty := none, filledAvgPrice := none }

theorem neu_beleg (id : String) (request : OrderRequest) : Beleg (.neu id request) 0 where
  hoechstens t ht := by cases ht
  menge := ⟨0, roundTo_of_mul_eq (k := 0) (by norm_num), zero_mul _, .inl rfl⟩
  leer _ := rfl

namespace VirtualLiveBroker

/-- The broker of a depot before its first order. -/
def start (d : Depot) : VirtualLiveBroker := { depot := d, orders := [] }

/-- The cash that a call moves for each order. -/
def umsaetze (b : VirtualLiveBroker) (c : Umfeld × Aufruf) : List ℚ :=
  match c.2 with
  | .submitOrder id request => Sim.umsaetze c.1 b.depot (b.orders ++ [.neu id request])
  | .processOrders => Sim.umsaetze c.1 b.depot b.orders
  | _ => []

/-- The cash that a run moves for the order at a place of the book. -/
def geld : VirtualLiveBroker → List (Umfeld × Aufruf) → ℕ → ℚ
  | _, [], _ => 0
  | b, c :: cs, i => (b.umsaetze c).getD i 0 + (b.schritt c).geld cs i

/-- A call that leaves the records right: a pass fills cleanly, and a single cancellation names
no order that was filled or rejected. -/
def Sauber (b : VirtualLiveBroker) (c : Umfeld × Aufruf) : Prop :=
  match c.2 with
  | .submitOrder id request =>
      Along (processOrder c.1) (SauberGefuellt c.1) b.depot (b.orders ++ [.neu id request])
  | .processOrders => Along (processOrder c.1) (SauberGefuellt c.1) b.depot b.orders
  | .cancelOrderById id => ∀ o ∈ b.orders, o.id = id → o.status ≠ .filled ∧ o.status ≠ .rejected
  | _ => True

variable {b : VirtualLiveBroker} {c : Umfeld × Aufruf} {i : ℕ}

theorem storniert_wandel (u : Umfeld) (o : SimOrder) : Wandel u o (storniert o) 0 := by
  cases hopen : o.status.terminal with
  | true =>
      rw [storniert, if_pos hopen]
      exact .bleibt
  | false =>
      rw [storniert, if_neg (by rw [hopen]; exact Bool.false_ne_true)]
      exact .storniert hopen

/-- A cancellation of an order that is open or was canceled. -/
theorem canceled_wandel (u : Umfeld) {o : SimOrder}
    (h : o.status ≠ .filled ∧ o.status ≠ .rejected) :
    Wandel u o { o with status := .canceled } 0 := by
  cases hstatus : o.status with
  | accepted => exact .storniert (by rw [hstatus]; rfl)
  | partiallyFilled => exact .storniert (by rw [hstatus]; rfl)
  | canceled =>
      have hsame : { o with status := .canceled } = o := by rw [← hstatus]
      rw [hsame]
      exact .bleibt
  | filled => exact absurd hstatus h.1
  | rejected => exact absurd hstatus h.2

theorem schritt_wandel (h : b.Sauber c) {o : SimOrder} (ho : b.orders[i]? = some o) :
    ∃ o', (b.schritt c).orders[i]? = some o' ∧ Wandel c.1 o o' ((b.umsaetze c).getD i 0) := by
  obtain ⟨u, c⟩ := c
  cases c with
  | submitOrder id request =>
      refine pass_wandel h ?_
      rw [List.getElem?_append_left (List.getElem?_eq_some_iff.mp ho).1]
      exact ho
  | processOrders => exact pass_wandel h ho
  | cancelOrders =>
      refine ⟨storniert o, ?_, storniert_wandel u o⟩
      show (b.orders.map storniert)[i]? = _
      rw [List.getElem?_map, ho, Option.map_some]
  | closeAllPositions =>
      refine ⟨storniert o, ?_, storniert_wandel u o⟩
      show (b.orders.map storniert)[i]? = _
      rw [List.getElem?_map, ho, Option.map_some]
  | markToMarket => exact ⟨o, ho, .bleibt⟩
  | cancelOrderById id =>
      refine ⟨if o.id = id then { o with status := .canceled } else o, ?_, ?_⟩
      · show (b.orders.map fun o => if o.id = id then { o with status := .canceled } else o)[i]? = _
        rw [List.getElem?_map, ho, Option.map_some]
      · split
        next hid => exact canceled_wandel u (h o (List.mem_of_getElem? ho) hid)
        next => exact .bleibt

/-- What a clean call puts behind the book: nothing, or a new order that it passes over. -/
theorem schritt_none (c : Umfeld × Aufruf) (h : b.Sauber c) (ho : b.orders[i]? = none) :
    (b.schritt c).orders[i]? = none ∧ (b.umsaetze c).getD i 0 = 0 ∨
      ∃ id request o', (b.schritt c).orders[i]? = some o' ∧
        Wandel c.1 (.neu id request) o' ((b.umsaetze c).getD i 0) := by
  obtain ⟨u, c⟩ := c
  cases c with
  | submitOrder id request =>
      cases hnew : (b.orders ++ [SimOrder.neu id request])[i]? with
      | none => exact .inl (pass_none u b.depot hnew)
      | some o =>
          have hlast : o = .neu id request := by
            rw [List.getElem?_append_right (List.getElem?_eq_none_iff.mp ho)] at hnew
            simpa using List.mem_of_getElem? hnew
          obtain ⟨o', ho', hw⟩ := pass_wandel h hnew
          rw [hlast] at hw
          exact .inr ⟨id, request, o', ho', hw⟩
  | processOrders => exact .inl (pass_none u b.depot ho)
  | cancelOrders =>
      refine .inl ⟨?_, rfl⟩
      show (b.orders.map storniert)[i]? = none
      rw [List.getElem?_map, ho, Option.map_none]
  | closeAllPositions =>
      refine .inl ⟨?_, rfl⟩
      show (b.orders.map storniert)[i]? = none
      rw [List.getElem?_map, ho, Option.map_none]
  | markToMarket => exact .inl ⟨ho, rfl⟩
  | cancelOrderById id =>
      refine .inl ⟨?_, rfl⟩
      show (b.orders.map fun o =>
        if o.id = id then { o with status := .canceled } else o)[i]? = none
      rw [List.getElem?_map, ho, Option.map_none]

/-- The record at a place of the book agrees with the cash; without one none was moved. -/
def Akte (b : VirtualLiveBroker) (i : ℕ) (geld : ℚ) : Prop :=
  (b.orders[i]?).elim (geld = 0) (Beleg · geld)

/-- A clean call keeps the record at a place, and begins the record of a new order. -/
theorem schritt_akte (h : b.Sauber c) {geld : ℚ} (ha : b.Akte i geld) :
    (b.schritt c).Akte i (geld + (b.umsaetze c).getD i 0) := by
  rw [Akte] at ha ⊢
  cases ho : b.orders[i]? with
  | some o =>
      obtain ⟨o', ho', hw⟩ := schritt_wandel h ho
      rw [ho, Option.elim_some] at ha
      rw [ho', Option.elim_some]
      exact hw.beleg ha
  | none =>
      rw [ho, Option.elim_none] at ha
      rcases schritt_none c h ho with ⟨hnone, hcash⟩ | ⟨id, request, o', ho', hw⟩
      · rw [hnone, Option.elim_none, ha, hcash, add_zero]
      · rw [ho', Option.elim_some, ha]
        exact hw.beleg (neu_beleg id request)

theorem lauf_akte {cs : List (Umfeld × Aufruf)}
    (h : ∀ vor c nach, cs = vor ++ c :: nach → (b.lauf vor).Sauber c) {cash : ℚ}
    (ha : b.Akte i cash) : (b.lauf cs).Akte i (cash + b.geld cs i) := by
  induction cs generalizing b cash with
  | nil => rwa [geld, add_zero]
  | cons c cs ih =>
      have hfirst : b.Sauber c := h [] c cs rfl
      have hrest : ∀ vor c' nach, cs = vor ++ c' :: nach → ((b.schritt c).lauf vor).Sauber c' :=
        fun vor c' nach hcs => h (c :: vor) c' nach (by rw [hcs, List.cons_append])
      rw [geld, ← add_assoc]
      exact ih hrest (schritt_akte hfirst ha)

end VirtualLiveBroker

/-- The records of a run.  What is filled of an order is never less than before and never more
than its quantity; the recorded quantity, but for its rounding, at the recorded price is the
cash that was moved; and a record that is done with does not change. -/
structure Akten (d : Depot) (cs : List (Umfeld × Aufruf)) : Prop where
  fortschritt : ∀ vor c nach, cs = vor ++ c :: nach → ∀ (i : ℕ) o,
    ((VirtualLiveBroker.start d).lauf vor).orders[i]? = some o →
      ∃ o', (((VirtualLiveBroker.start d).lauf vor).schritt c).orders[i]? = some o' ∧
        o.gefuellt ≤ o'.gefuellt ∧ (o.status.terminal = true → o' = o)
  hoechstens : ∀ vor nach, cs = vor ++ nach → ∀ o ∈ ((VirtualLiveBroker.start d).lauf vor).orders,
    ∀ t, o.filledQty = some t → t ≤ o.qty
  geld : ∀ vor nach, cs = vor ++ nach → ∀ (i : ℕ) o,
    ((VirtualLiveBroker.start d).lauf vor).orders[i]? = some o →
      ∃ q, roundTo 6 q = o.gefuellt ∧
        q * o.filledAvgPrice.getD 0 = (VirtualLiveBroker.start d).geld vor i

/-- In a run of clean calls the records are right. -/
theorem akten_stimmen {d : Depot} {cs : List (Umfeld × Aufruf)}
    (h : ∀ vor c nach, cs = vor ++ c :: nach →
      ((VirtualLiveBroker.start d).lauf vor).Sauber c) : Akten d cs := by
  have hbeleg : ∀ vor nach, cs = vor ++ nach → ∀ (i : ℕ) o,
      ((VirtualLiveBroker.start d).lauf vor).orders[i]? = some o →
        Beleg o ((VirtualLiveBroker.start d).geld vor i) := by
    intro vor nach hcs i o ho
    have hvor : ∀ vor' c nach', vor = vor' ++ c :: nach' →
        ((VirtualLiveBroker.start d).lauf vor').Sauber c := by
      intro vor' c nach' hsplit
      exact h vor' c (nach' ++ nach) (by rw [hcs, hsplit, List.append_assoc, List.cons_append])
    have hrun : ((VirtualLiveBroker.start d).lauf vor).Akte i
        (0 + (VirtualLiveBroker.start d).geld vor i) := VirtualLiveBroker.lauf_akte hvor rfl
    rw [VirtualLiveBroker.Akte, ho, Option.elim_some, zero_add] at hrun
    exact hrun
  constructor
  · intro vor c nach hcs i o ho
    obtain ⟨o', ho', hw⟩ := VirtualLiveBroker.schritt_wandel (h vor c nach hcs) ho
    exact ⟨o', ho', hw.fortschritt (hbeleg vor _ hcs i o ho)⟩
  · intro vor nach hcs o ho
    obtain ⟨i, hi⟩ := List.mem_iff_getElem?.mp ho
    exact (hbeleg vor nach hcs i o hi).hoechstens
  · intro vor nach hcs i o ho
    obtain ⟨q, hq, hcash, -⟩ := (hbeleg vor nach hcs i o ho).menge
    exact ⟨q, hq, hcash⟩

/-! ## Runs -/

def leeresDepot : Depot := { cash := 100000, positions := .empty }

def zuPreis (price : ℚ) (ratio : Option ℚ) : Umfeld where
  price _ := some price
  rejects _ := false
  ratio _ := ratio

/-- A purchase in two halves at one price, a cancellation of what is open, and closing. -/
def zweiHaelften : List (Umfeld × Aufruf) :=
  [(zuPreis 100 (some (1 / 2)), .submitOrder "1" ⟨"AAPL", 10, .buy, none⟩),
    (zuPreis 100 none, .processOrders), (zuPreis 100 none, .cancelOrders)]

theorem sauberGefuellt_of_price {u : Umfeld} {d : Depot} {o : SimOrder} {p : ℚ}
    (hp : u.price o.symbol = some p) (hqty : roundTo 6 o.qty ≤ o.qty)
    (hagain : Nachgefuellt o p) : SauberGefuellt u d o := by
  rintro price ⟨-, -, hprice, -⟩
  obtain rfl := Option.some.inj (hp.symm.trans hprice)
  exact ⟨hqty, hagain⟩

/-- A clean call and a clean run behind it make a clean run. -/
theorem sauber_cons {b : VirtualLiveBroker} {c : Umfeld × Aufruf} {cs : List (Umfeld × Aufruf)}
    (h : b.Sauber c)
    (hcs : ∀ vor c' nach, cs = vor ++ c' :: nach → ((b.schritt c).lauf vor).Sauber c') :
    ∀ vor c' nach, c :: cs = vor ++ c' :: nach → (b.lauf vor).Sauber c' := by
  intro vor c' nach hsplit
  cases vor with
  | nil =>
      rw [List.nil_append, List.cons.injEq] at hsplit
      rw [← hsplit.1]
      exact h
  | cons c'' vor =>
      rw [List.cons_append, List.cons.injEq] at hsplit
      rw [← hsplit.1]
      exact hcs vor c' nach hsplit.2

def ersteHaelfte : SimOrder :=
  ⟨⟨"AAPL", 10, .buy, none⟩, "1", .partiallyFilled, some 5, some 100⟩

theorem zweiHaelften_sauber : ∀ vor c nach, zweiHaelften = vor ++ c :: nach →
    ((VirtualLiveBroker.start leeresDepot).lauf vor).Sauber c := by
  have hfirst : SauberGefuellt (zuPreis 100 (some (1 / 2))) leeresDepot
      (.neu "1" ⟨"AAPL", 10, .buy, none⟩) :=
    sauberGefuellt_of_price rfl (by decide +kernel) fun t ht => by cases ht
  have hsecond (d : Depot) : SauberGefuellt (zuPreis 100 none) d ersteHaelfte :=
    sauberGefuellt_of_price rfl (by decide +kernel) fun t ht => by
      cases ht
      exact ⟨rfl, by decide +kernel⟩
  have horders : ((VirtualLiveBroker.start leeresDepot).schritt
      (zuPreis 100 (some (1 / 2)), .submitOrder "1" ⟨"AAPL", 10, .buy, none⟩)).orders =
      [ersteHaelfte] := by decide +kernel
  refine sauber_cons ⟨hfirst, trivial⟩ (sauber_cons ?_ (sauber_cons trivial ?_))
  · show Along _ _ _ _
    rw [horders]
    exact ⟨hsecond _, trivial⟩
  · intro vor c nach hnil
    cases vor <;> cases hnil

theorem zweiHaelften_akten : Akten leeresDepot zweiHaelften :=
  akten_stimmen zweiHaelften_sauber

def zweiPreise : List (Umfeld × Aufruf) :=
  [(zuPreis 100 (some (1 / 2)), .submitOrder "1" ⟨"AAPL", 10, .buy, none⟩),
    (zuPreis 110 none, .processOrders)]

/-- A filled order is canceled by its id. -/
def spaeterStorno : List (Umfeld × Aufruf) :=
  [(zuPreis 100 none, .submitOrder "1" ⟨"AAPL", 10, .buy, none⟩),
    (zuPreis 100 none, .cancelOrderById "1")]

def siebenStellen : List (Umfeld × Aufruf) :=
  [(zuPreis 100 none, .submitOrder "1" ⟨"AAPL", 10000006 / 10000000, .buy, none⟩)]

theorem zweiPreise_falsch : ¬Akten leeresDepot zweiPreise := by
  intro h
  have horder : ((VirtualLiveBroker.start leeresDepot).lauf zweiPreise).orders[0]? =
      some ⟨⟨"AAPL", 10, .buy, none⟩, "1", .filled, some 10, some 110⟩ := by decide +kernel
  have hcash : (VirtualLiveBroker.start leeresDepot).geld zweiPreise 0 = 1050 := by decide +kernel
  obtain ⟨q, hq, hvalue⟩ := h.geld zweiPreise [] rfl 0 _ horder
  rw [hcash] at hvalue
  have hten : roundTo 6 q = 10 := hq
  have hnear := roundTo_le_add 6 q
  rw [hten] at hnear
  have heq : q * 110 = 1050 := hvalue
  norm_num at hnear
  linarith

theorem spaeterStorno_falsch : ¬Akten leeresDepot spaeterStorno := by
  intro h
  have hbefore : ((VirtualLiveBroker.start leeresDepot).lauf (spaeterStorno.take 1)).orders[0]? =
      some ⟨⟨"AAPL", 10, .buy, none⟩, "1", .filled, some 10, some 100⟩ := by decide +kernel
  have hafter : (((VirtualLiveBroker.start leeresDepot).lauf (spaeterStorno.take 1)).schritt
      (zuPreis 100 none, .cancelOrderById "1")).orders[0]? =
      some ⟨⟨"AAPL", 10, .buy, none⟩, "1", .canceled, some 10, some 100⟩ := by decide +kernel
  obtain ⟨o', ho', -, hsame⟩ := h.fortschritt (spaeterStorno.take 1) _ [] rfl 0 _ hbefore
  rw [hafter, hsame rfl] at ho'
  cases ho'

theorem siebenStellen_falsch : ¬Akten leeresDepot siebenStellen := by
  intro h
  have horder : ((VirtualLiveBroker.start leeresDepot).lauf siebenStellen).orders[0]? =
      some ⟨⟨"AAPL", 10000006 / 10000000, .buy, none⟩, "1", .filled, some (1000001 / 1000000),
        some 100⟩ := by decide +kernel
  have hle := h.hoechstens siebenStellen [] rfl _ (List.mem_of_getElem? horder) _ rfl
  norm_num at hle

/-- A second price, a late cancellation and a seventh place each make a record wrong. -/
theorem akten_falsch : ¬Akten leeresDepot zweiPreise ∧ ¬Akten leeresDepot spaeterStorno ∧
    ¬Akten leeresDepot siebenStellen :=
  ⟨zweiPreise_falsch, spaeterStorno_falsch, siebenStellen_falsch⟩

end Sim
