import AutonomousEngine.Basis.Binary64
import AutonomousEngine.Basis.Cover
import AutonomousEngine.Basis.Dict

/-!
# The entry time of a position from the broker's orders

After a start the engine does not know since when it holds a position.  It reads the orders of
the broker page by page, from the newest to the oldest, until the bought quantities cover every
position, and takes the newest buys that cover a position.  The oldest of them is its entry time.

The broker gives aware times, which are instants.  The entry time is stored without a zone, as the
local clock shows it, and read back as if the clock were the one of UTC.

The quantities of the broker are decimal numbers.  The engine reads them as doubles, and adds
doubles.
-/

namespace EntryTime

open Basis

/-- A quantity of the broker: a number, or a text, with the number that it writes if it writes one.
A text is not empty. -/
inductive Quantity where
  | number (q : ℚ)
  | text (q : Option ℚ)
deriving DecidableEq

namespace Quantity

def truthy : Quantity → Bool
  | number q => q ≠ 0
  | text _ => true

def value : Quantity → Option ℚ
  | number q => some q
  | text q => q

/-- `float`: the double next to the number. -/
def float (q : Quantity) : Option ℚ := q.value.map nearest

end Quantity

inductive Side where
  | buy
  | sell
deriving DecidableEq

/-- An order.  The times of the broker are aware. -/
structure Order where
  symbol : String
  side : Side
  filledQty : Option Quantity
  qty : Option Quantity
  filledAt : Option ℤ
  submittedAt : ℤ
deriving DecidableEq

structure Position where
  symbol : String
  qty : Option Quantity

/-- A time without a zone is what a clock shows. -/
inductive Datetime where
  | naive (clock : ℤ)
  | aware (instant : ℤ)
deriving DecidableEq

/-- What the broker answers; nothing when a call raises. -/
structure Client where
  getAllPositions : Option (List Position)
  getOrders : ℕ → Option ℤ → Option (List Order)

/-! ## The entry time of some fills -/

section

variable (lokal : ℤ → ℤ)

/-- `_to_naive_local`, with what the local clock shows at an instant. -/
def toNaiveLocal : Datetime → ℤ
  | .aware t => lokal t
  | .naive w => w

namespace Order

/-- `filled_qty or qty or 0`. -/
def counted (o : Order) : Quantity :=
  ((o.filledQty.filter Quantity.truthy).or (o.qty.filter Quantity.truthy)).getD (.number 0)

/-- `float(filled_qty or qty or 0)`, and nothing for what is no number. -/
def quantity (o : Order) : ℚ := o.counted.float.getD 0

/-- `filled_at or submitted_at`. -/
def time (o : Order) : ℤ := o.filledAt.getD o.submittedAt

def Counts (o : Order) : Prop := o.side = .buy ∧ 0 < o.quantity

instance (o : Order) : Decidable o.Counts := inferInstanceAs (Decidable (_ ∧ _))

end Order

/-- The buys among some fills, with their local times. -/
def buys (fills : List Order) : List (ℤ × ℚ) :=
  (fills.filter fun o => decide o.Counts).map fun o =>
    (toNaiveLocal lokal (.aware o.time), o.quantity)

def addDouble (a q : ℚ) : ℚ := nearest (a + q)

def entryTimeFromFills (fills : List Order) (positionQty : ℚ) : Option Datetime :=
  (coverTime addDouble |positionQty| (buys lokal fills)).map .naive

end

/-! ## The pages -/

def maxReconcilePages : ℕ := 20

/-- Adds an order to the bought quantity of a symbol. -/
def addBuy (sym : String) (sum : ℚ) (o : Order) : ℚ :=
  if o.symbol = sym ∧ o.side = .buy then o.counted.float.elim sum (addDouble sum) else sum

def buyQty (sym : String) (orders : List Order) : ℚ := orders.foldl (addBuy sym) 0

/-- Whether every held position is covered. -/
def covered (held : Dict String ℚ) (orders : List Order) : Bool :=
  held.entries.all fun p => decide (|p.2| ≤ buyQty p.1 orders)

/-- The time of submission of the oldest order on a page. -/
def oldest (page : List Order) : Option ℤ := (page.map Order.submittedAt).min?

/-- The loop of `_collect_fills` over at most `n` pages, behind the orders that were read.  The
orders of the symbols are kept in one list. -/
def collectFills (client : Client) (held : Dict String ℚ) (pageSize : ℕ) :
    ℕ → Option ℤ → List Order → Option (List Order)
  | 0, _, orders => some orders
  | n + 1, bis, orders =>
      (client.getOrders pageSize bis).bind fun page =>
        if page = [] then some orders
        else if page.length < pageSize then some (orders ++ page)
        else if covered held (orders ++ page) then some (orders ++ page)
        else
          match oldest page with
          | none => some (orders ++ page)
          | some bis => collectFills client held pageSize n (some bis) (orders ++ page)

/-! ## The reconciliation -/

abbrev TradeHistory : Type := Dict String (List Datetime)

def Position.quantity (p : Position) : ℚ :=
  (((p.qty.filter Quantity.truthy).getD (.number 0)).float).getD 0

/-- Adds a position that has no entry time. -/
def hold (tradeHistory : TradeHistory) (held : Dict String ℚ) (p : Position) : Dict String ℚ :=
  if p.symbol = "" ∨ (tradeHistory.get? p.symbol).isSome then held
  else if p.quantity = 0 then held
  else held.set p.symbol p.quantity

/-- The held positions without an entry time. -/
def heldOf (tradeHistory : TradeHistory) (positions : List Position) : Dict String ℚ :=
  positions.foldl (hold tradeHistory) Dict.empty

def fillsOf (sym : String) (orders : List Order) : List Order :=
  orders.filter fun o => decide (o.symbol = sym)

variable (lokal : ℤ → ℤ)

def storeEntry (orders : List Order) (tradeHistory : TradeHistory) (p : String × ℚ) :
    TradeHistory :=
  match entryTimeFromFills lokal (fillsOf p.1 orders) p.2 with
  | some entry => tradeHistory.set p.1 [entry]
  | none => tradeHistory

/-- `reconcile_entry_time_from_alpaca`, with the size of a page. -/
def reconcileEntryTimeFromAlpaca (client : Option Client) (pageSize : ℕ)
    (tradeHistory : TradeHistory) : TradeHistory :=
  match client with
  | none => tradeHistory
  | some client =>
      match client.getAllPositions with
      | none => tradeHistory
      | some positions =>
          let held := heldOf tradeHistory positions
          if held.entries.isEmpty then tradeHistory
          else
            match collectFills client held pageSize maxReconcilePages none [] with
            | none => tradeHistory
            | some orders => held.entries.foldl (storeEntry lokal orders) tradeHistory

def ensureAwareUtc : Datetime → Datetime
  | .naive clock => .aware clock
  | .aware t => .aware t

/-! ## What is stored -/

variable {lokal} {orders : List Order} {tradeHistory : TradeHistory}

theorem get?_storeEntry (p : String × ℚ) (sym : String) :
    (storeEntry lokal orders tradeHistory p).get? sym =
      if p.1 = sym then
        ((entryTimeFromFills lokal (fillsOf p.1 orders) p.2).map fun e => [e]).or
          (tradeHistory.get? sym)
      else tradeHistory.get? sym := by
  rw [storeEntry]
  cases entryTimeFromFills lokal (fillsOf p.1 orders) p.2 with
  | none => simp
  | some e => simp

theorem get?_foldl_storeEntry_of_notMem {held : List (String × ℚ)} {sym : String}
    (h : sym ∉ held.map Prod.fst) :
    (held.foldl (storeEntry lokal orders) tradeHistory).get? sym = tradeHistory.get? sym := by
  induction held generalizing tradeHistory with
  | nil => rfl
  | cons p held ih =>
      rw [List.map_cons, List.mem_cons, not_or] at h
      rw [List.foldl_cons, ih h.2, get?_storeEntry, if_neg (Ne.symm h.1)]

/-- The entry time of a held position is stored. -/
theorem get?_foldl_storeEntry {held : List (String × ℚ)} (hnodup : (held.map Prod.fst).Nodup)
    {sym : String} {qty : ℚ} (hsym : (sym, qty) ∈ held) :
    (held.foldl (storeEntry lokal orders) tradeHistory).get? sym =
      ((entryTimeFromFills lokal (fillsOf sym orders) qty).map fun e => [e]).or
        (tradeHistory.get? sym) := by
  induction held generalizing tradeHistory with
  | nil => exact absurd hsym List.not_mem_nil
  | cons p held ih =>
      obtain ⟨hp, hheld⟩ := List.nodup_cons.mp hnodup
      rw [List.foldl_cons]
      rcases List.mem_cons.mp hsym with rfl | hmem
      · rw [get?_foldl_storeEntry_of_notMem hp, get?_storeEntry, if_pos rfl]
      · have hne : p.1 ≠ sym := fun heq => hp (heq ▸ List.mem_map_of_mem hmem)
        rw [ih hheld hmem, get?_storeEntry, if_neg hne]

theorem get?_hold {held : Dict String ℚ} {p : Position} {sym : String}
    (h : ((hold tradeHistory held p).get? sym).isSome) (hheld : (tradeHistory.get? sym).isSome) :
    (held.get? sym).isSome := by
  rw [hold] at h
  split_ifs at h with hskip hzero
  · exact h
  · exact h
  · rw [Dict.get?_set] at h
    split at h
    next heq =>
      rw [← heq] at hheld
      exact absurd (.inr hheld) hskip
    next => exact h

theorem get?_foldl_hold {positions : List Position} {held : Dict String ℚ} {sym : String}
    (h : ((positions.foldl (hold tradeHistory) held).get? sym).isSome)
    (hheld : (tradeHistory.get? sym).isSome) : (held.get? sym).isSome := by
  induction positions generalizing held with
  | nil => exact h
  | cons p positions ih => exact get?_hold (ih h) hheld

/-- A position that has an entry time is left out. -/
theorem get?_of_heldOf {positions : List Position} {sym : String}
    (h : ((heldOf tradeHistory positions).get? sym).isSome) : tradeHistory.get? sym = none := by
  by_contra hsome
  exact absurd (get?_foldl_hold h (Option.isSome_iff_ne_none.mpr hsome)) (by simp)

/-- A held position is not empty. -/
theorem ne_zero_of_hold {held : Dict String ℚ} {p : Position} {sym : String}
    (hheld : ∀ q, held.get? sym = some q → q ≠ 0) :
    ∀ q, (hold tradeHistory held p).get? sym = some q → q ≠ 0 := by
  intro q hq
  rw [hold] at hq
  split_ifs at hq with hskip hzero
  · exact hheld q hq
  · exact hheld q hq
  · rw [Dict.get?_set] at hq
    split at hq
    next => exact Option.some.inj hq ▸ hzero
    next => exact hheld q hq

theorem ne_zero_of_heldOf {positions : List Position} {sym : String} {q : ℚ}
    (h : (heldOf tradeHistory positions).get? sym = some q) : q ≠ 0 := by
  have hfold (positions : List Position) (held : Dict String ℚ)
      (hheld : ∀ q, held.get? sym = some q → q ≠ 0) :
      ∀ q, (positions.foldl (hold tradeHistory) held).get? sym = some q → q ≠ 0 := by
    induction positions generalizing held with
    | nil => exact hheld
    | cons p positions ih => exact ih _ (ne_zero_of_hold hheld)
  exact hfold positions Dict.empty (by simp) q h

end EntryTime
