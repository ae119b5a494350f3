import AutonomousEngine.Sim.Broker
import Mathlib.Algebra.Order.BigOperators.Group.List

/-!
# The ledger of a simulated day

The equity is what two runs of a day are compared by, so no call may make or lose
any.  Filling an order does not: what a purchase or a sale moves between the cash
and a position is worth the same on both sides, as long as the position is valued
at the price of the fill (`buy_equity`, `sell_equity`).  And neither the cash nor a
quantity becomes negative (`Gesund`).

Closing all positions is a shortcut that does not book their worth: every position
that is held is lost (`closeAllPositions_equity_iff`).  So a run keeps its ledger
exactly when no such call finds a position (`bilanz_iff`).
-/

namespace Sim

open Basis

/-- The cash is not negative, and what is held has a quantity and a price. -/
structure Gesund (d : Depot) : Prop where
  cash : 0 ≤ d.cash
  positions : ∀ s pos, d.positions.get? s = some pos → 0 < pos.qty ∧ 0 < pos.currentPrice

/-- The positions are valued at the prices, where there are any. -/
def Marked (u : Umfeld) (d : Depot) : Prop :=
  ∀ s pos price, d.positions.get? s = some pos → u.price s = some price → pos.currentPrice = price

def Umfeld.Positive (u : Umfeld) : Prop := ∀ s price, u.price s = some price → 0 < price

def worth (_ : String) (p : DummyPosition) : ℚ := p.qty * p.currentPrice

/-! ## What an order does -/

theorem fuelle_cases (d : Depot) (o : SimOrder) (qty price : ℚ) :
    (fuelle d o qty price).1 = d ∨
    qty * price ≤ d.cash ∧ (fuelle d o qty price).1 = d.buy o.symbol qty price ∨
    ∃ pos, d.positions.get? o.symbol = some pos ∧ qty ≤ pos.qty ∧
      (fuelle d o qty price).1 = d.sell o.symbol pos qty price := by
  unfold fuelle
  split
  next =>
    split
    next h => exact .inr (.inl ⟨h, rfl⟩)
    next => exact .inl rfl
  next =>
    split
    next => exact .inl rfl
    next pos hpos =>
      split
      next h => exact .inr (.inr ⟨pos, hpos, h, rfl⟩)
      next => exact .inl rfl

/-- An order leaves the depot alone, or buys or sells at the recorded price. -/
theorem processOrder_cases (u : Umfeld) (d : Depot) (o : SimOrder) :
    (processOrder u d o).1 = d ∨
    ∃ qty price, 0 < qty ∧ u.price o.symbol = some price ∧
      (qty * price ≤ d.cash ∧ (processOrder u d o).1 = d.buy o.symbol qty price ∨
      ∃ pos, d.positions.get? o.symbol = some pos ∧ qty ≤ pos.qty ∧
        (processOrder u d o).1 = d.sell o.symbol pos qty price) := by
  unfold processOrder
  split
  next => exact .inl rfl
  next =>
    split
    next => exact .inl rfl
    next =>
      split
      next => exact .inl rfl
      next price hprice =>
        split
        next => exact .inl rfl
        next =>
          split
          next => exact .inl rfl
          next hqty =>
            rcases fuelle_cases d o (fillQuantity u o) price with h | h
            · exact .inl h
            · exact .inr ⟨fillQuantity u o, price, not_le.mp hqty, hprice, h⟩

/-! ## Health -/

section

variable {u : Umfeld} {d : Depot} {symbol : String} {qty price : ℚ}

theorem Gesund.buy (h : Gesund d) (hqty : 0 < qty) (hprice : 0 < price)
    (hcash : qty * price ≤ d.cash) : Gesund (d.buy symbol qty price) where
  cash := sub_nonneg.mpr hcash
  positions := by
    intro s pos hpos
    simp only [Depot.buy, Dict.get?_set] at hpos
    split at hpos
    next =>
      obtain rfl := Option.some.inj hpos
      cases halt : d.positions.get? symbol with
      | none => exact ⟨hqty, hprice⟩
      | some alt => exact ⟨add_pos (h.positions symbol alt halt).1 hqty, hprice⟩
    next => exact h.positions s pos hpos

theorem Gesund.sell (h : Gesund d) (hqty : 0 < qty) (hprice : 0 < price) {alt : DummyPosition} :
    Gesund (d.sell symbol alt qty price) where
  cash := add_nonneg h.cash (mul_pos hqty hprice).le
  positions := by
    intro s pos hpos
    simp only [Depot.sell] at hpos
    split at hpos
    next =>
      rw [Dict.get?_erase] at hpos
      split at hpos
      next => cases hpos
      next => exact h.positions s pos hpos
    next hleft =>
      rw [Dict.get?_set] at hpos
      split at hpos
      next =>
        obtain rfl := Option.some.inj hpos
        exact ⟨not_le.mp hleft, hprice⟩
      next => exact h.positions s pos hpos

theorem Gesund.processOrder (hu : u.Positive) (h : Gesund d) (o : SimOrder) :
    Gesund (processOrder u d o).1 := by
  rcases processOrder_cases u d o with hsame | ⟨qty, price, hqty, hprice, ⟨hcash, hbuy⟩ |
    ⟨pos, -, -, hsell⟩⟩
  · rw [hsame]
    exact h
  · rw [hbuy]
    exact h.buy hqty (hu _ _ hprice) hcash
  · rw [hsell]
    exact h.sell hqty (hu _ _ hprice)

/-! ## Equity at the price of the fill -/

theorem equity_eq (d : Depot) : d.equity = d.cash + d.positions.sumBy worth := rfl

theorem buy_equity (hmark : ∀ pos, d.positions.get? symbol = some pos → pos.currentPrice = price) :
    (d.buy symbol qty price).equity = d.equity := by
  simp only [equity_eq, Depot.buy, Dict.sumBy_set]
  cases halt : d.positions.get? symbol with
  | none =>
      simp only [Dict.part, halt, Option.elim_none, worth, aufgestockt, DummyPosition.neu]
      linarith
  | some alt =>
      simp only [Dict.part, halt, Option.elim_some, worth, aufgestockt, hmark alt halt]
      linarith

theorem sell_equity {alt : DummyPosition} (halt : d.positions.get? symbol = some alt)
    (hmark : alt.currentPrice = price) (hqty : qty ≤ alt.qty) :
    (d.sell symbol alt qty price).equity = d.equity := by
  simp only [equity_eq, Depot.sell]
  split
  next hleft =>
    have hall : qty = alt.qty := le_antisymm hqty (sub_nonpos.mp hleft)
    simp only [Dict.sumBy_erase, Dict.part, halt, Option.elim_some, worth, hmark, hall]
    linarith
  next =>
    simp only [Dict.sumBy_set, Dict.part, halt, Option.elim_some, worth, hmark]
    linarith

theorem Marked.buy (h : Marked u d) (hprice : u.price symbol = some price) :
    Marked u (d.buy symbol qty price) := by
  intro s pos p hpos hp
  simp only [Depot.buy, Dict.get?_set] at hpos
  split at hpos
  next hs =>
    subst hs
    obtain rfl := Option.some.inj hpos
    obtain rfl := Option.some.inj (hprice.symm.trans hp)
    unfold aufgestockt
    split <;> rfl
  next => exact h s pos p hpos hp

theorem Marked.sell (h : Marked u d) (hprice : u.price symbol = some price)
    {alt : DummyPosition} : Marked u (d.sell symbol alt qty price) := by
  intro s pos p hpos hp
  simp only [Depot.sell] at hpos
  split at hpos
  next =>
    rw [Dict.get?_erase] at hpos
    split at hpos
    next => cases hpos
    next => exact h s pos p hpos hp
  next =>
    rw [Dict.get?_set] at hpos
    split at hpos
    next hs =>
      subst hs
      obtain rfl := Option.some.inj hpos
      exact Option.some.inj (hprice.symm.trans hp)
    next => exact h s pos p hpos hp

/-- An order at the prices the positions are valued at keeps these values and the
equity. -/
theorem processOrder_equity (h : Marked u d) (o : SimOrder) :
    Marked u (processOrder u d o).1 ∧ (processOrder u d o).1.equity = d.equity := by
  rcases processOrder_cases u d o with hsame | ⟨qty, price, -, hprice, ⟨-, hbuy⟩ |
    ⟨pos, hpos, hqty, hsell⟩⟩
  · rw [hsame]
    exact ⟨h, rfl⟩
  · rw [hbuy]
    exact ⟨h.buy hprice, buy_equity fun pos hpos => h _ _ _ hpos hprice⟩
  · rw [hsell]
    exact ⟨h.sell hprice, sell_equity hpos (h _ _ _ hpos hprice) hqty⟩

end

/-! ## What a call does -/

namespace VirtualLiveBroker

variable {u : Umfeld} {b : VirtualLiveBroker}

theorem processOrders_gesund (hu : u.Positive) (h : Gesund b.depot) :
    Gesund (b.processOrders u).depot :=
  feed_invariant (P := fun _ _ => True) (fun _ o hd _ => hd.processOrder hu o) h
    (along_true _ _ _)

theorem processOrders_equity (h : Marked u b.depot) :
    Marked u (b.processOrders u).depot ∧ (b.processOrders u).depot.equity = b.depot.equity :=
  feed_invariant (P := fun _ _ => True) (I := fun d => Marked u d ∧ d.equity = b.depot.equity)
    (fun _ o hd _ =>
      have hstep := processOrder_equity hd.1 o
      ⟨hstep.1, hstep.2.trans hd.2⟩)
    ⟨h, rfl⟩ (along_true _ _ _)

theorem markToMarket_gesund (hu : u.Positive) (h : Gesund b.depot) :
    Gesund (b.markToMarket u).depot where
  cash := h.cash
  positions := by
    intro s pos hpos
    simp only [markToMarket, Dict.get?_mapValues, Option.map_eq_some_iff] at hpos
    obtain ⟨alt, halt, rfl⟩ := hpos
    cases hprice : u.price s with
    | none => exact h.positions s alt halt
    | some price => exact ⟨(h.positions s alt halt).1, hu s price hprice⟩

theorem markToMarket_equity (h : Marked u b.depot) :
    (b.markToMarket u).depot.equity = b.depot.equity := by
  simp only [equity_eq, markToMarket, Dict.sumBy_mapValues]
  congr 1
  refine Dict.sumBy_congr fun s pos hpos => ?_
  cases hprice : u.price s with
  | none => rfl
  | some price =>
      show pos.qty * price = pos.qty * pos.currentPrice
      rw [h s pos price hpos hprice]

/-- Closing all positions keeps the equity exactly when none is held. -/
theorem closeAllPositions_equity_iff (h : Gesund b.depot) :
    b.closeAllPositions.depot.equity = b.depot.equity ↔ b.depot.positions.entries = [] := by
  have hclosed : b.closeAllPositions.depot.equity = b.depot.cash := by
    simp [equity_eq, closeAllPositions]
  rw [hclosed, equity_eq, left_eq_add, Dict.sumBy]
  constructor
  · intro hsum
    by_contra hne
    have hpos := List.sum_pos (b.depot.positions.entries.map fun e => worth e.1 e.2)
      (fun x hx => by
        obtain ⟨e, he, rfl⟩ := List.mem_map.mp hx
        have hworth := h.positions e.1 e.2 (Dict.mem_entries_iff.mp he)
        exact mul_pos hworth.1 hworth.2)
      (by simpa using hne)
    exact hpos.ne' hsum
  · intro hnil
    rw [hnil, List.map_nil, List.sum_nil]

/-- Every call keeps the depot healthy. -/
theorem schritt_gesund (h : Gesund b.depot) {c : Umfeld × Aufruf} (hu : c.1.Positive) :
    Gesund (b.schritt c).depot := by
  obtain ⟨u, c⟩ := c
  cases c with
  | submitOrder id request => exact processOrders_gesund hu h
  | processOrders => exact processOrders_gesund hu h
  | cancelOrders => exact h
  | cancelOrderById id => exact h
  | closeAllPositions => exact ⟨h.cash, fun s pos hpos => by cases hpos⟩
  | markToMarket => exact markToMarket_gesund hu h

/-- Every call but the closing of positions keeps the equity at unchanged prices. -/
theorem schritt_equity_iff (h : Gesund b.depot) {c : Umfeld × Aufruf} (hm : Marked c.1 b.depot) :
    (b.schritt c).depot.equity = b.depot.equity ↔
      (c.2 = .closeAllPositions → b.depot.positions.entries = []) := by
  obtain ⟨u, c⟩ := c
  cases c with
  | submitOrder id request =>
      refine iff_of_true ?_ fun hc => by cases hc
      refine (processOrders_equity ?_).2
      exact hm
  | processOrders => exact iff_of_true (processOrders_equity hm).2 fun hc => by cases hc
  | cancelOrders => exact iff_of_true rfl fun hc => by cases hc
  | cancelOrderById id => exact iff_of_true rfl fun hc => by cases hc
  | closeAllPositions =>
      exact (closeAllPositions_equity_iff h).trans ⟨fun hnil _ => hnil, fun hnil => hnil rfl⟩
  | markToMarket => exact iff_of_true (markToMarket_equity hm) fun hc => by cases hc

theorem lauf_gesund (h : Gesund b.depot) {cs : List (Umfeld × Aufruf)}
    (hu : ∀ c ∈ cs, c.1.Positive) : Gesund (b.lauf cs).depot := by
  induction cs generalizing b with
  | nil => exact h
  | cons c cs ih =>
      exact ih (schritt_gesund h (hu c (.head _))) fun c' hc' => hu c' (.tail _ hc')

end VirtualLiveBroker

/-! ## The ledger of a run -/

/-- The cash and the quantities are never negative, and a call at unchanged prices
keeps the equity. -/
structure Bilanz (b : VirtualLiveBroker) (cs : List (Umfeld × Aufruf)) : Prop where
  nichtnegativ : ∀ vor nach, cs = vor ++ nach →
    0 ≤ (b.lauf vor).depot.cash ∧
      ∀ s pos, (b.lauf vor).depot.positions.get? s = some pos → 0 ≤ pos.qty
  equity : ∀ vor c nach, cs = vor ++ c :: nach → Marked c.1 (b.lauf vor).depot →
    ((b.lauf vor).schritt c).depot.equity = (b.lauf vor).depot.equity

/-- A run keeps its ledger exactly when no closing of all positions at unchanged
prices finds one. -/
theorem bilanz_iff {b : VirtualLiveBroker} (hb : Gesund b.depot) {cs : List (Umfeld × Aufruf)}
    (hu : ∀ c ∈ cs, c.1.Positive) :
    Bilanz b cs ↔ ∀ vor c nach, cs = vor ++ c :: nach → Marked c.1 (b.lauf vor).depot →
      c.2 = .closeAllPositions → (b.lauf vor).depot.positions.entries = [] := by
  have hgesund : ∀ vor nach, cs = vor ++ nach → Gesund (b.lauf vor).depot := by
    rintro vor nach rfl
    exact VirtualLiveBroker.lauf_gesund hb fun c hc => hu c (List.mem_append_left _ hc)
  constructor
  · intro h vor c nach hcs hm
    exact (VirtualLiveBroker.schritt_equity_iff (hgesund vor _ hcs) hm).mp
      (h.equity vor c nach hcs hm)
  · intro h
    constructor
    · intro vor nach hcs
      have hd := hgesund vor nach hcs
      exact ⟨hd.cash, fun s pos hpos => (hd.positions s pos hpos).1.le⟩
    · intro vor c nach hcs hm
      exact (VirtualLiveBroker.schritt_equity_iff (hgesund vor _ hcs) hm).mpr (h vor c nach hcs hm)

def VirtualLiveBroker.neu : VirtualLiveBroker where
  depot := { cash := 100000, positions := .empty }
  orders := []

def hundert : Umfeld where
  price _ := some 100
  rejects _ := false
  ratio _ := none

/-- Buys ten shares, rests a stop below them, and marks them. -/
def kaufen : List (Umfeld × Aufruf) :=
  [(hundert, .submitOrder "1" ⟨"AAPL", 10, .buy, none⟩),
    (hundert, .submitOrder "2" ⟨"AAPL", 10, .sell, some 90⟩), (hundert, .markToMarket)]

theorem neu_gesund : Gesund VirtualLiveBroker.neu.depot :=
  ⟨by norm_num [VirtualLiveBroker.neu], fun _ _ h => by cases h⟩

theorem hundert_positive : hundert.Positive := by
  intro s price h
  obtain rfl := Option.some.inj h
  norm_num

def hundertHalb : Umfeld := { hundert with ratio := fun _ => some (1 / 2) }

/-- Buys ten shares in two halves, sells them, and closes the book that is empty then. -/
def handel : List (Umfeld × Aufruf) :=
  [(hundertHalb, .submitOrder "1" ⟨"AAPL", 10, .buy, none⟩), (hundert, .processOrders),
    (hundert, .submitOrder "2" ⟨"AAPL", 10, .sell, none⟩), (hundert, .closeAllPositions)]

theorem handel_positive : ∀ c ∈ handel, c.1.Positive := by
  have hhalb : hundertHalb.Positive := hundert_positive
  simp [handel, hundert_positive, hhalb]

/-- The half is five shares, and the book is closed with the cash that it began with. -/
theorem kaufen_bilanz :
    ((VirtualLiveBroker.neu.lauf (handel.take 1)).depot.positions.get? "AAPL").map
        DummyPosition.qty = some 5 ∧
      (VirtualLiveBroker.neu.lauf handel).depot.cash = 100000 ∧
      Bilanz VirtualLiveBroker.neu handel := by
  refine ⟨by decide +kernel, by decide +kernel,
    (bilanz_iff neu_gesund handel_positive).mpr fun vor c nach hcs _ hc => ?_⟩
  have hvor : vor = handel.take vor.length := by rw [hcs, List.take_left]
  have hcall : handel[vor.length]? = some c := by
    rw [hcs, List.getElem?_append_right le_rfl, Nat.sub_self, List.getElem?_cons_zero]
  rw [hvor]
  generalize vor.length = n at hcall
  match n with
  | 0 | 1 | 2 =>
      cases hcall
      cases hc
  | 3 => decide +kernel
  | n + 4 => cases hcall

/-- Closing ten shares at 100 loses a thousand. -/
theorem schliessen_verliert :
    ¬Bilanz VirtualLiveBroker.neu (kaufen ++ [(hundert, .closeAllPositions)]) := by
  intro h
  have hheld : (VirtualLiveBroker.neu.lauf kaufen).depot.positions.entries =
      [("AAPL", ⟨10, 100, 100, 1000⟩)] := by decide +kernel
  have hm : Marked hundert (VirtualLiveBroker.neu.lauf kaufen).depot := by
    intro s pos price hpos hprice
    have hmem := Dict.mem_entries_iff.mpr hpos
    rw [hheld, List.mem_singleton] at hmem
    obtain ⟨rfl, rfl⟩ := Prod.mk.inj hmem
    exact Option.some.inj hprice
  have hequity := h.equity kaufen (hundert, .closeAllPositions) [] rfl hm
  have hu : ∀ c ∈ kaufen, c.1.Positive := by
    simp [kaufen, hundert_positive]
  have hgesund := VirtualLiveBroker.lauf_gesund neu_gesund hu
  have hnil := (VirtualLiveBroker.closeAllPositions_equity_iff hgesund).mp hequity
  rw [hheld] at hnil
  cases hnil

end Sim
