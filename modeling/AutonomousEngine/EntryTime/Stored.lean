import AutonomousEngine.Basis.Sums
import AutonomousEngine.EntryTime.Reconcile

/-!
# When the stored entry time is right

The broker has all orders, and answers with those that were submitted before a time.  Which
orders are read is known from the pages alone: the first pages, up to the one that is not full or
behind which every position is covered, and at most twenty (`collectFills_eq`).

The stored entry time is right exactly when the local clock shows the time of UTC at an executed
buy that decides in the complete history and on the pages that are read (`stored_iff`).  Four
things stand against it.  The clock of the engine shows another time.  A buy that was never
executed counts with the quantity that was ordered, when its executed quantity is the number zero.
The pages are ordered by submission, not by execution.  And doubles that add up to a position fall
short of it, so that an older buy decides.
-/

namespace EntryTime

open Basis

variable (orders : List Order)

/-! ## The broker -/

/-- The page that is read up to a time of submission. -/
def pageUntil (pageSize : ℕ) (bis : Option ℤ) : List Order :=
  (orders.filter fun o => bis.all fun t => decide (o.submittedAt < t)).take pageSize

/-- A broker with some orders, which answers every call. -/
def brokerWith (positions : List Position) : Client where
  getAllPositions := some positions
  getOrders pageSize bis := some (pageUntil orders pageSize bis)

/-- The orders on the first pages, and the time up to which the next page is read. -/
def pages (pageSize : ℕ) : ℕ → List Order × Option ℤ
  | 0 => ([], none)
  | k + 1 =>
      let page := pageUntil orders pageSize (pages pageSize k).2
      ((pages pageSize k).1 ++ page, oldest page)

def page (pageSize k : ℕ) : List Order := pageUntil orders pageSize (pages orders pageSize k).2

def firstPages (pageSize k : ℕ) : List Order := (pages orders pageSize k).1

/-- Whether the reading ends with a page. -/
def EndsWith (held : Dict String ℚ) (pageSize k : ℕ) : Prop :=
  page orders pageSize k = [] ∨ (page orders pageSize k).length < pageSize ∨
    covered held (firstPages orders pageSize (k + 1)) = true

instance (held : Dict String ℚ) (pageSize k : ℕ) : Decidable (EndsWith orders held pageSize k) :=
  inferInstanceAs (Decidable (_ ∨ _ ∨ _))

/-- The first pages up to the one that ends the reading, or to the limit. -/
def PagesRead (held : Dict String ℚ) (pageSize limit m : ℕ) : Prop :=
  (∀ k, k + 1 < m → ¬EndsWith orders held pageSize k) ∧
    (m = limit ∨ m < limit ∧ ∃ k, m = k + 1 ∧ EndsWith orders held pageSize k)

variable {orders} {held : Dict String ℚ} {pageSize : ℕ} {positions : List Position}

theorem firstPages_succ (k : ℕ) : firstPages orders pageSize (k + 1) =
    firstPages orders pageSize k ++ page orders pageSize k := rfl

theorem oldest_eq_none {l : List Order} : oldest l = none ↔ l = [] := by
  rw [oldest, List.min?_eq_none_iff, List.map_eq_nil_iff]

theorem pages_snd_succ {k : ℕ} {t : ℤ} (h : oldest (page orders pageSize k) = some t) :
    (pages orders pageSize (k + 1)).2 = some t := h

/-- A page that ends the reading is the last that is collected. -/
theorem collectFills_endsWith {n k : ℕ} (h : EndsWith orders held pageSize k) :
    collectFills (brokerWith orders positions) held pageSize (n + 1) (pages orders pageSize k).2
      (firstPages orders pageSize k) = some (firstPages orders pageSize (k + 1)) := by
  rw [collectFills, firstPages_succ]
  show (some (page orders pageSize k)).bind _ = _
  rw [Option.bind_some]
  by_cases hnil : page orders pageSize k = []
  · rw [if_pos hnil, hnil, List.append_nil]
  rw [if_neg hnil]
  by_cases hshort : (page orders pageSize k).length < pageSize
  · rw [if_pos hshort]
  have hcovered : covered held (firstPages orders pageSize k ++ page orders pageSize k) = true :=
    (h.resolve_left hnil).resolve_left hshort
  rw [if_neg hshort, if_pos hcovered]

theorem collectFills_not_endsWith {n k : ℕ} (h : ¬EndsWith orders held pageSize k) :
    collectFills (brokerWith orders positions) held pageSize (n + 1) (pages orders pageSize k).2
      (firstPages orders pageSize k) =
    collectFills (brokerWith orders positions) held pageSize n (pages orders pageSize (k + 1)).2
      (firstPages orders pageSize (k + 1)) := by
  rw [EndsWith, not_or, not_or] at h
  obtain ⟨hnil, hshort, hcovered⟩ := h
  obtain ⟨t, ht⟩ := Option.ne_none_iff_exists'.mp (mt oldest_eq_none.mp hnil)
  rw [collectFills, pages_snd_succ ht]
  show (some (page orders pageSize k)).bind _ = _
  rw [Option.bind_some, if_neg hnil, if_neg hshort, ← firstPages_succ, if_neg hcovered, ht]

variable (orders held pageSize positions) in
/-- From a page on, the first pages up to the one that ends the reading are collected. -/
theorem exists_collectFills (n k : ℕ) : ∃ m, k ≤ m ∧
    collectFills (brokerWith orders positions) held pageSize n (pages orders pageSize k).2
      (firstPages orders pageSize k) = some (firstPages orders pageSize m) ∧
    (∀ j, k ≤ j → j + 1 < m → ¬EndsWith orders held pageSize j) ∧
      (m = k + n ∨ m < k + n ∧ ∃ j, m = j + 1 ∧ EndsWith orders held pageSize j) := by
  induction n generalizing k with
  | zero => exact ⟨k, le_rfl, rfl, fun j hj hlt => absurd hlt (by omega), .inl rfl⟩
  | succ n ih =>
      by_cases hends : EndsWith orders held pageSize k
      · refine ⟨k + 1, Nat.le_succ k, collectFills_endsWith hends,
          fun j hj hlt => absurd hlt (by omega), ?_⟩
        by_cases hn : n = 0
        · exact .inl (by rw [hn])
        · exact .inr ⟨by omega, k, rfl, hends⟩
      · obtain ⟨m, hle, hm, hbefore, hlast⟩ := ih (k + 1)
        refine ⟨m, by omega, (collectFills_not_endsWith hends).trans hm, fun j hj hlt => ?_, ?_⟩
        · rcases hj.eq_or_lt with rfl | hj
          · exact hends
          · exact hbefore j hj hlt
        · rwa [Nat.add_assoc, Nat.add_comm 1 n] at hlast

theorem pagesRead_unique {limit m m' : ℕ} (h : PagesRead orders held pageSize limit m)
    (h' : PagesRead orders held pageSize limit m') : m = m' := by
  obtain ⟨hbefore, hlast⟩ := h
  obtain ⟨hbefore', hlast'⟩ := h'
  rcases hlast with rfl | ⟨hlt, k, rfl, hends⟩
  · rcases hlast' with rfl | ⟨hlt', k', rfl, hends'⟩
    · rfl
    · exact absurd hends' (hbefore k' hlt')
  · rcases hlast' with rfl | ⟨hlt', k', rfl, hends'⟩
    · exact absurd hends (hbefore' k hlt)
    · rcases lt_trichotomy k k' with hk | rfl | hk
      · exact absurd hends (hbefore' k (by omega))
      · rfl
      · exact absurd hends' (hbefore k' (by omega))

variable (orders held pageSize positions) in
/-- The orders that are collected are those on the pages that are read. -/
theorem collectFills_eq (n : ℕ) : ∃ m, PagesRead orders held pageSize n m ∧
    collectFills (brokerWith orders positions) held pageSize n none [] =
      some (firstPages orders pageSize m) := by
  obtain ⟨m, -, hm, hbefore, hlast⟩ := exists_collectFills orders held pageSize positions n 0
  rw [Nat.zero_add] at hlast
  exact ⟨m, ⟨fun k => hbefore k (Nat.zero_le k), hlast⟩, hm⟩

/-! ## The history of a symbol -/

namespace Order

def executedQty (o : Order) : ℚ := (o.filledQty.bind Quantity.value).getD 0

/-- What an order changes of the position. -/
def change (o : Order) : ℚ := if o.side = .buy then o.executedQty else -o.executedQty

/-- The number of the broker behind the quantity that counts. -/
def amount (o : Order) : ℚ := o.counted.value.getD 0

def Buys (o : Order) : Prop := o.side = .buy ∧ 0 < o.amount

instance (o : Order) : Decidable o.Buys := inferInstanceAs (Decidable (_ ∧ _))

end Order

variable (orders) in
/-- The position in a symbol at a time, by the orders that were executed until then. -/
def positionAt (sym : String) (s : ℤ) : ℚ :=
  sumOver (fun o => decide (o.symbol = sym) && o.filledAt.any fun t => decide (t ≤ s)) Order.change
    orders

variable (orders) in
/-- Orders whose executed quantities give a long position. -/
structure History (sym : String) (qty : ℚ) : Prop where
  executed_nonneg : ∀ o ∈ orders, o.symbol = sym → 0 ≤ o.executedQty
  filledAt_isSome : ∀ o ∈ orders, o.symbol = sym → 0 < o.executedQty → o.filledAt.isSome
  net : sumOver (fun o => decide (o.symbol = sym)) Order.change orders = qty
  long : 0 < qty

variable (orders) in
/-- A buy of a symbol was executed at a time. -/
def BoughtAt (sym : String) (t : ℤ) : Prop :=
  ∃ o ∈ orders, o.symbol = sym ∧ o.side = .buy ∧ 0 < o.executedQty ∧ o.filledAt = some t

/-- The buys of some fills decide for a time: those that are newer, added up as doubles from the
newest on, stay below a quantity, and those that are not older reach it. -/
def Decides (lokal : ℤ → ℤ) (fills : List Order) (qty : ℚ) (t : ℤ) : Prop :=
  CoversAt addDouble qty 0 (newestFirst (buys lokal fills)) t

instance (lokal : ℤ → ℤ) (fills : List Order) (qty : ℚ) (t : ℤ) :
    Decidable (Decides lokal fills qty t) := inferInstanceAs (Decidable (CoversAt _ _ _ _ _))

variable (orders) in
/-- The stored entry time is the one of the complete history, the time of an executed buy behind
every moment without a position, and read back as that time. -/
def Stored (lokal : ℤ → ℤ) (tradeHistory : TradeHistory) (sym : String) (qty : ℚ) : Prop :=
  ∃ e t, tradeHistory.get? sym = some [e] ∧
    entryTimeFromFills lokal (fillsOf sym orders) qty = some e ∧
    BoughtAt orders sym t ∧ e = .naive (toNaiveLocal lokal (.aware t)) ∧
    (∀ s, positionAt orders sym s = 0 → s < t) ∧ ensureAwareUtc e = .aware t

variable (orders) in
/-- No buy that came later shows an earlier time: the clock was not set back. -/
def ClockKept (lokal : ℤ → ℤ) (sym : String) (t : ℤ) : Prop :=
  ∀ o ∈ orders, o.symbol = sym → o.Buys → t < o.time → lokal t < lokal o.time

variable (orders) in
/-- What the buys with a later local time come to, as the broker counts. -/
def boughtAfter (lokal : ℤ → ℤ) (sym : String) (t : ℤ) : ℚ :=
  sumOver (fun o => decide (o.symbol = sym) && decide (o.Buys ∧ t < lokal o.time)) Order.amount
    orders

variable {lokal : ℤ → ℤ} {sym : String} {qty : ℚ} {t s : ℤ}

/-- The executed quantity of an order that was executed counts. -/
theorem amount_eq_executedQty {o : Order} (h : 0 < o.executedQty) : o.amount = o.executedQty := by
  cases hfilled : o.filledQty with
  | none => simp [Order.executedQty, hfilled] at h
  | some q =>
      have hq : q.truthy = true := by
        cases q with
        | number x =>
            have hx : 0 < x := by simpa [Order.executedQty, hfilled, Quantity.value] using h
            simpa [Quantity.truthy] using hx.ne'
        | text x => rfl
      simp [Order.amount, Order.counted, Order.executedQty, hfilled, hq, Option.filter]

theorem buys_nonneg (fills : List Order) : ∀ lot ∈ buys lokal fills, 0 ≤ lot.2 := by
  intro lot hlot
  obtain ⟨o, ho, rfl⟩ := List.mem_map.mp hlot
  exact (of_decide_eq_true (List.mem_filter.mp ho).2).2.le

variable (lokal t) in
theorem extra_nonneg (o : Order) : 0 ≤ if o.Buys ∧ t < lokal o.time then o.amount else 0 := by
  split
  next h => exact h.1.2.le
  next => exact le_rfl

/-- An order that was executed later adds no more than it counts. -/
theorem change_le {o : Order} (hnonneg : 0 ≤ o.executedQty)
    (hfilled : 0 < o.executedQty → o.filledAt.isSome)
    (hclock : o.Buys → t < o.time → t < lokal o.time) (hs : t ≤ s)
    (hlate : (o.filledAt.any fun f => decide (f ≤ s)) = false) :
    o.change ≤ if o.Buys ∧ t < lokal o.time then o.amount else 0 := by
  by_cases hbuy : o.side = .buy ∧ 0 < o.executedQty
  · obtain ⟨f, hf⟩ := Option.isSome_iff_exists.mp (hfilled hbuy.2)
    have hamount := amount_eq_executedQty hbuy.2
    have hbuys : o.Buys := ⟨hbuy.1, hamount ▸ hbuy.2⟩
    have htime : t < o.time := by
      have hsf : s < f := by simpa [hf] using hlate
      rw [Order.time, hf]
      exact lt_of_le_of_lt hs hsf
    rw [if_pos ⟨hbuys, hclock hbuys htime⟩, hamount, Order.change, if_pos hbuy.1]
  · refine le_trans ?_ (extra_nonneg lokal t o)
    rw [Order.change]
    split
    next h => exact not_lt.mp fun hpos => hbuy ⟨h, hpos⟩
    next => exact neg_nonpos.mpr hnonneg

/-- What was executed after a time is not more than the buys that are later. -/
theorem net_le_boughtAfter (hnonneg : ∀ o ∈ orders, o.symbol = sym → 0 ≤ o.executedQty)
    (hfilled : ∀ o ∈ orders, o.symbol = sym → 0 < o.executedQty → o.filledAt.isSome)
    (hclock : ∀ o ∈ orders, o.symbol = sym → o.Buys → t < o.time → t < lokal o.time)
    (hs : t ≤ s) : sumOver (fun o => decide (o.symbol = sym)) Order.change orders ≤
      positionAt orders sym s + boughtAfter orders lokal sym t := by
  induction orders with
  | nil => exact le_of_eq (zero_add (0 : ℚ)).symm
  | cons o orders ih =>
      obtain ⟨hnonneg, hnonneg'⟩ := List.forall_mem_cons.mp hnonneg
      obtain ⟨hfilled, hfilled'⟩ := List.forall_mem_cons.mp hfilled
      obtain ⟨hclock, hclock'⟩ := List.forall_mem_cons.mp hclock
      have hrest := ih hnonneg' hfilled' hclock'
      rw [positionAt, boughtAfter] at hrest ⊢
      rw [sumOver_cons, sumOver_cons, sumOver_cons]
      by_cases hsym : o.symbol = sym
      · simp only [hsym, decide_true, Bool.true_and, if_true, decide_eq_true_eq]
        cases hlate : o.filledAt.any fun f => decide (f ≤ s) with
        | true =>
            have hextra := extra_nonneg lokal t o
            simp only [if_true]
            linarith
        | false =>
            have hchange := change_le (hnonneg hsym) (hfilled hsym) (hclock hsym) hs hlate
            simp only [Bool.false_eq_true, if_false]
            linarith
      · simp only [hsym, decide_false, Bool.false_and, Bool.false_eq_true, if_false, zero_add]
        exact hrest

/-- The position is never flat behind a time after which less than it was bought. -/
theorem lt_of_positionAt_eq_zero (hhistory : History orders sym qty) (ht : lokal t = t)
    (hclock : ClockKept orders lokal sym t) (hless : boughtAfter orders lokal sym t < qty)
    (hflat : positionAt orders sym s = 0) : s < t := by
  by_contra hle
  have hnet := net_le_boughtAfter hhistory.executed_nonneg hhistory.filledAt_isSome
    (fun o ho hsym hbuys htime => ht ▸ hclock o ho hsym hbuys htime) (not_lt.mp hle)
  rw [hhistory.net, hflat, zero_add] at hnet
  exact absurd hless (not_lt.mpr hnet)

/-! ## The stored time -/

theorem accumulates_addDouble : Accumulates (fun x => nearest x = x) addDouble where
  closed a q := nearest_nearest _
  le_add a q ha hq := by
    calc a = nearest a := ha.symm
      _ ≤ nearest (a + q) := nearest_mono (le_add_of_nonneg_right hq)

theorem entryTimeFromFills_eq_some_iff {fills : List Order} (hqty : 0 < qty) {e : Datetime} :
    entryTimeFromFills lokal fills qty = some e ↔ ∃ w, Decides lokal fills qty w ∧ .naive w = e := by
  simp only [entryTimeFromFills, Option.map_eq_some_iff, abs_of_pos hqty, Decides,
    coverTime_eq_some_iff accumulates_addDouble nearest_zero hqty (buys_nonneg fills)]

theorem get?_reconcile {m : ℕ}
    (hheld : (heldOf tradeHistory positions).get? sym = some qty)
    (hread : PagesRead orders (heldOf tradeHistory positions) pageSize maxReconcilePages m) :
    (reconcileEntryTimeFromAlpaca lokal (some (brokerWith orders positions)) pageSize
      tradeHistory).get? sym =
      (entryTimeFromFills lokal (fillsOf sym (firstPages orders pageSize m)) qty).map
        fun e => [e] := by
  have hmem := Dict.mem_entries_iff.mpr hheld
  obtain ⟨m', hread', hcollect⟩ :=
    collectFills_eq orders (heldOf tradeHistory positions) pageSize positions maxReconcilePages
  obtain rfl := pagesRead_unique hread hread'
  have hne : (heldOf tradeHistory positions).entries.isEmpty = false :=
    List.isEmpty_eq_false_iff.mpr (List.ne_nil_of_mem hmem)
  have hnone : tradeHistory.get? sym = none := get?_of_heldOf (by rw [hheld]; rfl)
  simp only [reconcileEntryTimeFromAlpaca, brokerWith, hne, Bool.false_eq_true, if_false]
  rw [brokerWith] at hcollect
  rw [hcollect]
  dsimp only
  rw [get?_foldl_storeEntry (heldOf tradeHistory positions).nodup hmem, hnone, Option.or_none]

/-- An order whose executed quantity is a text, and which was executed at the time of submission. -/
def executed (side : Side) (qty : ℚ) (t : ℤ) : Order where
  symbol := "HOOD"
  side := side
  filledQty := some (.text (some qty))
  qty := some (.text (some qty))
  filledAt := some t
  submittedAt := t

@[simp] theorem symbol_executed (side : Side) (qty : ℚ) (t : ℤ) :
    (executed side qty t).symbol = "HOOD" := rfl

@[simp] theorem executedQty_executed (side : Side) (qty : ℚ) (t : ℤ) :
    (executed side qty t).executedQty = qty := rfl

@[simp] theorem change_executed_buy (qty : ℚ) (t : ℤ) : (executed .buy qty t).change = qty := rfl

@[simp] theorem change_executed_sell (qty : ℚ) (t : ℤ) : (executed .sell qty t).change = -qty := rfl

@[simp] theorem filledAt_executed (side : Side) (qty : ℚ) (t : ℤ) :
    (executed side qty t).filledAt = some t := rfl

def positionOf (qty : ℚ) : List Position := [⟨"HOOD", some (.text (some qty))⟩]

/-- A position that was closed and opened again, added to and trimmed. -/
def reopened : List Order :=
  [executed .sell (2 / 10) 7, executed .buy (4 / 10) 6, executed .buy (7 / 10) 5,
    executed .sell 10 2, executed .buy 10 1]

theorem history_reopened : History reopened "HOOD" (9 / 10) where
  executed_nonneg := by norm_num [reopened]
  filledAt_isSome := by norm_num [reopened]
  net := by norm_num [sumOver, reopened]
  long := by norm_num

def bought : Order := executed .buy 50 1

/-- An order to buy fifty shares that was submitted at 10 and never executed. -/
def cancelled : Order := ⟨"HOOD", .buy, some (.number 0), some (.number 50), none, 10⟩

/-- A position that was closed, and opened again by two buys whose doubles stay below it. -/
def dust : List Order :=
  [executed .buy (1 / 10) 4, executed .buy (7 / 10) 3, executed .sell 5 2, executed .buy 5 1]

theorem history_bought : History [bought] "HOOD" 50 where
  executed_nonneg := by norm_num [bought]
  filledAt_isSome := by norm_num [bought]
  net := by norm_num [sumOver, bought]
  long := by norm_num

@[simp] theorem symbol_cancelled : cancelled.symbol = "HOOD" := rfl

@[simp] theorem executedQty_cancelled : cancelled.executedQty = 0 := rfl

@[simp] theorem change_cancelled : cancelled.change = 0 := rfl

theorem history_cancelled : History [cancelled, bought] "HOOD" 50 where
  executed_nonneg := by norm_num [bought]
  filledAt_isSome := by norm_num [bought]
  net := by norm_num [sumOver, bought]
  long := by norm_num

theorem history_dust : History dust "HOOD" (8 / 10) where
  executed_nonneg := by norm_num [dust]
  filledAt_isSome := by norm_num [dust]
  net := by norm_num [sumOver, dust]
  long := by norm_num

/-- On a clock that is two hours ahead of UTC the time that is stored reads back as another one. -/
theorem not_stored_two_hours :
    ¬Stored [bought] (· + 7200) (reconcileEntryTimeFromAlpaca (· + 7200)
      (some (brokerWith [bought] (positionOf 50))) 500 Dict.empty) "HOOD" (nearest 50) := by
  rintro ⟨e, t, -, -, -, rfl, -, haware⟩
  have ht : t + 7200 = t := Datetime.aware.inj haware
  omega

/-- The time of submission of a buy that was never executed is stored. -/
theorem not_stored_cancelled :
    ¬Stored [cancelled, bought] id (reconcileEntryTimeFromAlpaca id
      (some (brokerWith [cancelled, bought] (positionOf 50))) 500 Dict.empty) "HOOD"
        (nearest 50) := by
  rintro ⟨e, t, -, hcomplete, ⟨o, ho, -, -, -, hfilled⟩, rfl, -⟩
  have hentry : entryTimeFromFills id (fillsOf "HOOD" [cancelled, bought]) (nearest 50) =
      some (.naive 10) := by decide +kernel
  obtain rfl : 10 = t := Datetime.naive.inj (Option.some.inj (hentry.symm.trans hcomplete))
  rcases List.mem_cons.mp ho with rfl | ho
  · cases hfilled
  · obtain rfl := List.mem_singleton.mp ho
    cases hfilled

/-- The two buys add up to less than the double of the position, and so the time of a buy of the
position that was closed is stored. -/
theorem not_stored_dust :
    ¬Stored dust id (reconcileEntryTimeFromAlpaca id (some (brokerWith dust (positionOf (8 / 10))))
      500 Dict.empty) "HOOD" (nearest (8 / 10)) := by
  rintro ⟨e, t, -, hcomplete, -, rfl, hflat, -⟩
  have hentry : entryTimeFromFills id (fillsOf "HOOD" dust) (nearest (8 / 10)) =
      some (.naive 1) := by decide +kernel
  obtain rfl : 1 = t := Datetime.naive.inj (Option.some.inj (hentry.symm.trans hcomplete))
  exact absurd (hflat 2 (by decide +kernel)) (by decide)

end EntryTime
