import AutonomousEngine.Basis.ExtRat
import AutonomousEngine.Basis.Transition
import AutonomousEngine.Verkauf.Schranken

/-!
# The day limit of the approval gate

`should_hold` decides whether an order runs without a human.  An order under the
limit of a trade and under the limit of the day does, and its value is booked on
a counter of the New York calendar date.  Every other order waits, unless the
gate is off (`HITL_AUTONOMOUS_UNLIMITED`) or the order sells what is held.

A price or a quantity is whatever `float` makes of a field, so it may be
infinite or NaN.  The counter is read and booked through a backend that may not
be there: then the counter is zero and the booking does nothing.  A backend that
raises makes the gate hold.

The date is read from the clock twice, for the counter and for the booking.  A
counter outlives its date, since its time to live is 48 hours.
-/

namespace Hitl

open Basis

namespace Gate

/-! ## The order -/

/-- A field of an event, by what `float` does with it. -/
inductive Angabe where
  | fehlt
  | zahl (x : ExtRat)
  /-- `TypeError` or `ValueError`. -/
  | unlesbar
  /-- `OverflowError`. -/
  | zuGross
deriving DecidableEq, Repr

/-- `float(x or 0.0)`, and `none` when it raises. -/
def Angabe.float : Angabe → Option ExtRat
  | .fehlt => some 0
  | .zahl x => some x
  | .unlesbar | .zuGross => none

/-- The quantity of the executor: what is no number counts as zero. -/
def Angabe.calculated : Angabe → Option ExtRat
  | .fehlt | .unlesbar => some 0
  | .zahl x => some x.abs
  | .zuGross => none

structure Event where
  action : String
  currentPrice : Angabe
  positionQty : Angabe
  suggestedQuantity : Angabe
deriving DecidableEq, Repr

/-- What `get_redis` gives, and what the command to it does. -/
inductive Backend where
  | da
  | keiner
  | wirft
  /-- A booking raises after it took effect. -/
  | wirftDanach
deriving DecidableEq, Repr

/-- A call of `should_hold`, with what it meets outside. -/
structure Aufruf where
  event : Event
  calculatedQty : Angabe
  /-- The answer of `has_pending`, and `none` when it raises. -/
  pending : Option Bool
  lesen : Backend
  datumLesen : String
  buchen : Backend
  datumBuchen : String
deriving DecidableEq, Repr

namespace Aufruf

variable (a : Aufruf)

/-- The quantity: of the executor, of the event, or the position that is sold. -/
def qty : Option ExtRat := do
  let signed ← a.event.positionQty.float
  let calculated ← a.calculatedQty.calculated
  let qty ← if calculated ≤ 0 then a.event.suggestedQuantity.float.map ExtRat.abs
    else some calculated
  return if qty ≤ 0 ∧ a.event.action = "SELL" then signed.abs else qty

def orderValue : Option ExtRat := do
  let price ← a.event.currentPrice.float
  let qty ← a.qty
  return qty * price

/-- `reduces_position`: a sale of what is held. -/
def ReducesPosition : Prop :=
  a.event.action = "SELL" ∧ ∃ signed, a.event.positionQty.float = some signed ∧ 0 < signed

instance : Decidable a.ReducesPosition :=
  inferInstanceAs (Decidable (a.event.action = "SELL" ∧
    ∃ signed, a.event.positionQty.float = some signed ∧ 0 < signed))

end Aufruf

/-! ## The counter -/

abbrev DayNotional : Type := String → Option ExtRat

namespace DayNotional

variable (z : DayNotional) (nyDate : String)

def stand : ExtRat := (z nyDate).getD 0

def current : Backend → Option ExtRat
  | .da => some (z.stand nyDate)
  | .keiner => some 0
  | .wirft | .wirftDanach => none

/-- `INCRBYFLOAT`. -/
def incr (amount : ExtRat) : DayNotional :=
  Function.update z nyDate (some (z.stand nyDate + amount))

def add (amount : ExtRat) : Backend → DayNotional × Option ExtRat
  | .da => (z.incr nyDate amount, some (z.stand nyDate + amount))
  | .keiner => (z, some 0)
  | .wirft => (z, none)
  | .wirftDanach => (z.incr nyDate amount, none)

@[simp] theorem stand_incr_self (amount : ExtRat) :
    (z.incr nyDate amount).stand nyDate = z.stand nyDate + amount := by
  simp [stand, incr]

@[simp] theorem stand_incr_of_ne {nyDate' : String} (amount : ExtRat) (h : nyDate' ≠ nyDate) :
    (z.incr nyDate amount).stand nyDate' = z.stand nyDate' := by
  simp [stand, incr, h]

end DayNotional

/-! ## The decision -/

structure Config where
  hitlMaxValuePerTrade : ExtRat
  hitlMaxValuePerDay : ExtRat
  hitlAutonomousUnlimited : Bool
  hitlAlwaysAllowRiskReducingSells : Bool
deriving DecidableEq, Repr

/-- The branch a decision took, as its audit event says. -/
inductive Branch where
  | autonomousUnlimited
  | riskReducingSell
  | pending
  | queued (breached : String)
  | underLimit (dayNotionalAfter : ExtRat)
  /-- The gate raised. -/
  | fehler
deriving DecidableEq, Repr

/-- What `should_hold` answers. -/
def Branch.hold : Branch → Bool
  | .autonomousUnlimited | .riskReducingSell | .underLimit _ => false
  | .pending | .queued _ | .fehler => true

section Entscheidung

variable (cfg : Config) (z : DayNotional) (a : Aufruf)

def threshold (orderValue : ExtRat) : DayNotional × Option Branch :=
  match z.current a.datumLesen a.lesen with
  | none => (z, none)
  | some dayNotional =>
      if cfg.hitlMaxValuePerTrade < orderValue then (z, some (.queued "per_trade"))
      else if cfg.hitlMaxValuePerDay < dayNotional + orderValue then (z, some (.queued "per_day"))
      else
        ((z.add a.datumBuchen orderValue a.buchen).1,
          (z.add a.datumBuchen orderValue a.buchen).2.map .underLimit)

/-- `_decide`, and `none` when it raises. -/
def decide : DayNotional × Option Branch :=
  match a.qty, a.orderValue with
  | some qty, some orderValue =>
      if cfg.hitlAutonomousUnlimited then (z, some .autonomousUnlimited)
      else if a.ReducesPosition ∧ cfg.hitlAlwaysAllowRiskReducingSells then
        (z, some .riskReducingSell)
      else
        match a.pending with
        | none => (z, none)
        | some true => (z, some .pending)
        | some false =>
            if orderValue ≤ 0 then
              (z, some (.queued (if a.event.action = "SELL" ∧ qty ≤ 0 then "unknown_sell_size"
                else "unknown_value")))
            else threshold cfg z a orderValue
  | _, _ => (z, none)

/-- `should_hold`: the counters after it, and its branch. -/
def shouldHold : DayNotional × Branch := ((decide cfg z a).1, (decide cfg z a).2.getD .fehler)

/-! ## What a call books -/

/-- The call gets to the booking of a value. -/
structure Bucht (orderValue : ExtRat) : Prop where
  begrenzt : cfg.hitlAutonomousUnlimited = false
  keineAusnahme : ¬(a.ReducesPosition ∧ cfg.hitlAlwaysAllowRiskReducingSells)
  nichtPending : a.pending = some false
  orderValue_eq : a.orderValue = some orderValue
  bewertbar : ¬orderValue ≤ 0
  dayNotional : ∃ n, z.current a.datumLesen a.lesen = some n ∧
    ¬cfg.hitlMaxValuePerDay < n + orderValue
  perTrade : ¬cfg.hitlMaxValuePerTrade < orderValue

theorem threshold_cases (orderValue : ExtRat) :
    (∃ n, z.current a.datumLesen a.lesen = some n ∧ ¬cfg.hitlMaxValuePerDay < n + orderValue ∧
      ¬cfg.hitlMaxValuePerTrade < orderValue ∧
      threshold cfg z a orderValue = ((z.add a.datumBuchen orderValue a.buchen).1,
        (z.add a.datumBuchen orderValue a.buchen).2.map .underLimit)) ∨
    (threshold cfg z a orderValue).1 = z ∧
      ∀ total, (threshold cfg z a orderValue).2 ≠ some (.underLimit total) := by
  unfold threshold
  split
  next => exact .inr ⟨rfl, by simp⟩
  next n hn =>
    split
    next => exact .inr ⟨rfl, by simp⟩
    next htrade =>
      split
      next => exact .inr ⟨rfl, by simp⟩
      next hday => exact .inl ⟨n, hn, hday, htrade, rfl⟩

/-- A call books its value, or it leaves the counters alone and is not under the
limit. -/
theorem shouldHold_cases :
    (∃ v, Bucht cfg z a v ∧ shouldHold cfg z a = ((z.add a.datumBuchen v a.buchen).1,
      ((z.add a.datumBuchen v a.buchen).2.map .underLimit).getD .fehler)) ∨
    (shouldHold cfg z a).1 = z ∧ ∀ total, (shouldHold cfg z a).2 ≠ .underLimit total := by
  unfold shouldHold Gate.decide
  split
  next qty v hqty hv =>
    split
    next => exact .inr ⟨rfl, by simp⟩
    next hunlimited =>
      split
      next => exact .inr ⟨rfl, by simp⟩
      next hausnahme =>
        split
        next => exact .inr ⟨rfl, by simp⟩
        next => exact .inr ⟨rfl, by simp⟩
        next hpending =>
          split
          next => exact .inr ⟨rfl, by simp⟩
          next hpos =>
            rcases threshold_cases cfg z a v with
              ⟨n, hn, hday, htrade, heq⟩ | ⟨hz, hne⟩
            · exact .inl ⟨v, ⟨by simpa using hunlimited, hausnahme, hpending, hv, hpos,
                ⟨n, hn, hday⟩, htrade⟩, by rw [heq]⟩
            · refine .inr ⟨hz, fun total h => ?_⟩
              cases hb : (threshold cfg z a v).2 with
              | none => simp [hb] at h
              | some b => exact hne total (by simpa [hb] using h)
  next => exact .inr ⟨rfl, by simp⟩

end Entscheidung

/-! ## The verdict on a sale

The way of a sale to the broker asks only whether the gate holds an order, and
its quantities are numbers (`Verkauf.hitlHoldsOrder`).  On numbers the two agree
(`hold_shouldHold`). -/

section Verdikt

open Verkauf (HitlLage SignalEvent hitlQty hitlHoldsOrder)

def actionText : Verkauf.Action → String
  | .buy => "BUY"
  | .sell => "SELL"
  | .hold => "HOLD"

theorem actionText_eq_sell_iff {action : Verkauf.Action} :
    actionText action = "SELL" ↔ action = .sell := by
  cases action <;> simp [actionText]

def policy (p : HitlLage) : Config where
  hitlMaxValuePerTrade := .of p.maxValuePerTrade
  hitlMaxValuePerDay := .of p.maxValuePerDay
  hitlAutonomousUnlimited := p.autonomousUnlimited
  hitlAlwaysAllowRiskReducingSells := p.alwaysAllowRiskReducingSells

/-- The call that is made for an event on a date. -/
def aufruf (p : HitlLage) (event : SignalEvent) (calculatedQty : ℚ) (nyDate : String) : Aufruf where
  event :=
    { action := actionText event.action
      currentPrice := .zahl (.of event.decisionContext.currentPrice)
      positionQty := .zahl (.of event.decisionContext.positionQty)
      suggestedQuantity := .zahl (.of event.suggestedQuantity) }
  calculatedQty := .zahl (.of calculatedQty)
  pending := p.hasPending
  lesen := if p.dayNotional.isSome then .da else .wirft
  datumLesen := nyDate
  buchen := if p.buchbar then .da else .wirft
  datumBuchen := nyDate

variable {p : HitlLage} {event : SignalEvent} {calculatedQty : ℚ} {nyDate : String}

theorem qty_aufruf :
    (aufruf p event calculatedQty nyDate).qty = some (.of (hitlQty event calculatedQty)) := by
  simp only [Aufruf.qty, aufruf, Angabe.float, Angabe.calculated, ExtRat.abs_of,
    Option.map_some, actionText_eq_sell_iff, hitlQty, abs_pos]
  by_cases hq : calculatedQty = 0
  · by_cases hs : event.suggestedQuantity = 0
    · by_cases ha : event.action = .sell <;> simp [hq, hs, ha]
    · simp [hq, hs]
  · simp [hq]

theorem orderValue_aufruf : (aufruf p event calculatedQty nyDate).orderValue =
    some (.of (hitlQty event calculatedQty * event.decisionContext.currentPrice)) := by
  rw [Aufruf.orderValue, qty_aufruf]
  rfl

theorem hold_threshold {z : DayNotional} (hz : ∀ n, p.dayNotional = some n → z.stand nyDate = .of n)
    (orderValue : ℚ) :
    ((threshold (policy p) z (aufruf p event calculatedQty nyDate) (.of orderValue)).2.getD
        .fehler).hold =
      match p.dayNotional with
      | none => true
      | some dayNotional =>
          if p.maxValuePerTrade < orderValue ∨ p.maxValuePerDay < dayNotional + orderValue then true
          else !p.buchbar := by
  cases hn : p.dayNotional with
  | none => simp [threshold, aufruf, hn, DayNotional.current, Branch.hold]
  | some n =>
      by_cases ht : p.maxValuePerTrade < orderValue
      · simp [threshold, aufruf, hn, DayNotional.current, policy, ht, Branch.hold]
      · by_cases hd : p.maxValuePerDay < n + orderValue
        · simp [threshold, aufruf, hn, DayNotional.current, hz n hn, policy, ht, hd, Branch.hold]
        · cases hb : p.buchbar <;>
            simp [threshold, aufruf, hn, DayNotional.current, DayNotional.add, hz n hn, policy, ht,
              hd, hb, Branch.hold]

/-- The gate holds what the way of a sale takes it to hold. -/
theorem hold_shouldHold {z : DayNotional} (hp : p.enabled = true)
    (hz : ∀ n, p.dayNotional = some n → z.stand nyDate = .of n) :
    (shouldHold (policy p) z (aufruf p event calculatedQty nyDate)).2.hold =
      hitlHoldsOrder p event calculatedQty := by
  have hred : (aufruf p event calculatedQty nyDate).ReducesPosition ↔
      event.action = .sell ∧ 0 < event.decisionContext.positionQty := by
    simp [Aufruf.ReducesPosition, aufruf, actionText_eq_sell_iff, Angabe.float]
  have hpending : (aufruf p event calculatedQty nyDate).pending = p.hasPending := rfl
  simp only [shouldHold, Gate.decide, qty_aufruf, orderValue_aufruf, hred, hpending,
    ExtRat.of_le_zero, hitlHoldsOrder, hp, Bool.not_true, Bool.false_eq_true, if_false, and_assoc]
  cases hu : p.autonomousUnlimited with
  | true => simp [policy, hu, Branch.hold]
  | false =>
      by_cases hr : event.action = .sell ∧ 0 < event.decisionContext.positionQty ∧
          p.alwaysAllowRiskReducingSells = true
      · simp [policy, hu, hr, Branch.hold]
      · simp only [policy, hu, hr, Bool.false_eq_true, if_false]
        cases p.hasPending with
        | none => rfl
        | some pending =>
            cases pending with
            | true => rfl
            | false =>
                dsimp only
                split
                next => rfl
                next => exact hold_threshold hz _

end Verdikt

/-! ## Sequences of calls -/

/-- The counters, and every call with its branch. -/
structure Welt where
  dayNotional : DayNotional
  calls : List (Aufruf × Branch)

def Welt.nach (cfg : Config) (w : Welt) (a : Aufruf) : Welt where
  dayNotional := (shouldHold cfg w.dayNotional a).1
  calls := w.calls ++ [(a, (shouldHold cfg w.dayNotional a).2)]

/-- Calls one after the other, from no counter. -/
def system (cfg : Config) : System Welt Aufruf where
  start w := w.dayNotional = (fun _ => none) ∧ w.calls = []
  step w a w' := w' = w.nach cfg a

/-- The value of a call that was released under the limits on a date. -/
def freigabe (nyDate : String) (c : Aufruf × Branch) : Option ExtRat :=
  match c.2 with
  | .underLimit _ => if c.1.datumBuchen = nyDate then c.1.orderValue else none
  | _ => none

/-- The values released under the limits on a date. -/
def Welt.freigaben (w : Welt) (nyDate : String) : List ExtRat :=
  w.calls.filterMap (freigabe nyDate)

/-- What was released on a date is within the limit of the day, and an order that
runs under the limits had its counter read and booked. -/
structure Eingehalten (cfg : Config) (w : Welt) : Prop where
  summe : ∀ nyDate, w.freigaben nyDate ≠ [] →
    (w.freigaben nyDate).sum ≤ cfg.hitlMaxValuePerDay
  gezaehlt : ∀ c ∈ w.calls, c.2.hold = false →
    c.2 = .autonomousUnlimited ∨ c.2 = .riskReducingSell ∨ c.1.lesen = .da ∧ c.1.buchen = .da

/-- A booking with numbers, a counter and one date. -/
def Geregelt (cfg : Config) (w : Welt) (a : Aufruf) (_ : Welt) : Prop :=
  ∀ v, Bucht cfg w.dayNotional a v →
    match a.buchen with
    | .da => v ≠ .nan ∧ cfg.hitlMaxValuePerDay ≠ .nan ∧ a.lesen ≠ .keiner ∧
        (a.datumBuchen = a.datumLesen ∨ w.dayNotional a.datumBuchen = none)
    | .keiner => False
    | .wirft => True
    | .wirftDanach => v ≠ .nan

/-- The counter covers what was released. -/
structure Gedeckt (cfg : Config) (w : Welt) (nyDate : String) : Prop where
  nonneg : 0 ≤ (w.freigaben nyDate).sum
  gedeckt : (w.freigaben nyDate).sum ≤ w.dayNotional.stand nyDate
  summe : w.freigaben nyDate ≠ [] → (w.freigaben nyDate).sum ≤ cfg.hitlMaxValuePerDay

variable {cfg : Config} {w : Welt} {a : Aufruf} {v : ExtRat} {nyDate : String}

theorem freigaben_append (z : DayNotional) (b : Branch) :
    Welt.freigaben ⟨z, w.calls ++ [(a, b)]⟩ nyDate =
      w.freigaben nyDate ++ (freigabe nyDate (a, b)).toList := by
  rw [Welt.freigaben, List.filterMap_append, Welt.freigaben]
  cases h : freigabe nyDate (a, b) <;> simp [h]

theorem freigabe_of_ne {b : Branch} (h : ∀ total, b ≠ .underLimit total) :
    freigabe nyDate (a, b) = none := by
  unfold freigabe
  split
  next total hb => exact absurd hb (h total)
  next => rfl

/-- A call that is not under the limit may only raise the counters. -/
theorem Gedeckt.ohneFreigabe {z : DayNotional} {b : Branch} (h : Gedeckt cfg w nyDate)
    (hb : ∀ total, b ≠ .underLimit total) (hz : w.dayNotional.stand nyDate ≤ z.stand nyDate) :
    Gedeckt cfg ⟨z, w.calls ++ [(a, b)]⟩ nyDate := by
  have heq : Welt.freigaben ⟨z, w.calls ++ [(a, b)]⟩ nyDate = w.freigaben nyDate := by
    rw [freigaben_append, freigabe_of_ne hb, Option.toList_none, List.append_nil]
  refine ⟨?_, ?_, ?_⟩
  · rw [heq]
    exact h.nonneg
  · rw [heq]
    exact ExtRat.le_trans h.gedeckt hz
  · rw [heq]
    exact h.summe

/-- A counter is a number, and not negative. -/
theorem Gedeckt.stand_nonneg (h : Gedeckt cfg w nyDate) : 0 ≤ w.dayNotional.stand nyDate :=
  ExtRat.le_trans h.nonneg h.gedeckt

/-- The room of the day is measured on a counter that covers the date. -/
theorem Gedeckt.platz (h : ∀ nyDate, Gedeckt cfg w nyDate) (hv : 0 ≤ v)
    (hday : cfg.hitlMaxValuePerDay ≠ .nan)
    (hn : ¬cfg.hitlMaxValuePerDay < w.dayNotional.stand a.datumLesen + v)
    (hdatum : a.datumBuchen = a.datumLesen ∨ w.dayNotional a.datumBuchen = none) :
    (w.freigaben a.datumBuchen).sum + v ≤ cfg.hitlMaxValuePerDay := by
  have hlesen : 0 ≤ w.dayNotional.stand a.datumLesen := (h a.datumLesen).stand_nonneg
  have hsumme : (w.freigaben a.datumBuchen).sum ≤ w.dayNotional.stand a.datumLesen := by
    rcases hdatum with heq | hnone
    · exact heq ▸ (h a.datumBuchen).gedeckt
    · have hnull : w.dayNotional.stand a.datumBuchen = 0 := by simp [DayNotional.stand, hnone]
      exact ExtRat.le_trans (hnull ▸ (h a.datumBuchen).gedeckt) hlesen
  have hnan : w.dayNotional.stand a.datumLesen + v ≠ .nan :=
    (ExtRat.ne_nan_of_le (ExtRat.add_nonneg hlesen hv)).2
  exact ExtRat.le_trans (ExtRat.add_le_add_right (h a.datumBuchen).nonneg hsumme hv)
    (ExtRat.le_of_not_lt hnan hday hn)

/-- A value under the limits is released and booked. -/
theorem Gedeckt.mitFreigabe {total : ExtRat} (h : ∀ nyDate, Gedeckt cfg w nyDate)
    (hwert : a.orderValue = some v) (hv : 0 ≤ v)
    (hplatz : (w.freigaben a.datumBuchen).sum + v ≤ cfg.hitlMaxValuePerDay) :
    Gedeckt cfg ⟨w.dayNotional.incr a.datumBuchen v, w.calls ++ [(a, .underLimit total)]⟩
      nyDate := by
  by_cases hd : a.datumBuchen = nyDate
  · subst hd
    have heq : Welt.freigaben ⟨w.dayNotional.incr a.datumBuchen v,
        w.calls ++ [(a, .underLimit total)]⟩ a.datumBuchen = w.freigaben a.datumBuchen ++ [v] := by
      simp [freigaben_append, freigabe, hwert]
    have hsumme : (w.freigaben a.datumBuchen ++ [v]).sum = (w.freigaben a.datumBuchen).sum + v := by
      rw [List.sum_append, List.sum_singleton]
    obtain ⟨hnonneg, hgedeckt, -⟩ := h a.datumBuchen
    refine ⟨?_, ?_, fun _ => ?_⟩
    · rw [heq, hsumme]
      exact ExtRat.add_nonneg hnonneg hv
    · rw [heq, hsumme, DayNotional.stand_incr_self]
      exact ExtRat.add_le_add_right hnonneg hgedeckt hv
    · rwa [heq, hsumme]
  · have heq : Welt.freigaben ⟨w.dayNotional.incr a.datumBuchen v,
        w.calls ++ [(a, .underLimit total)]⟩ nyDate = w.freigaben nyDate := by
      simp [freigaben_append, freigabe, hd]
    obtain ⟨hnonneg, hgedeckt, hgrenze⟩ := h nyDate
    refine ⟨heq ▸ hnonneg, ?_, heq ▸ hgrenze⟩
    rwa [heq, DayNotional.stand_incr_of_ne _ _ _ fun h => hd h.symm]

theorem Bucht.nonneg {z : DayNotional} (h : Bucht cfg z a v) (hv : v ≠ .nan) : 0 ≤ v :=
  (ExtRat.le_total hv (by simp [ExtRat.zero_def])).resolve_left h.bewertbar

/-- A call keeps the released values covered. -/
theorem Gedeckt.step {w' : Welt} (h : ∀ nyDate, Gedeckt cfg w nyDate)
    (hs : ((system cfg).restrict (Geregelt cfg)).step w a w') : Gedeckt cfg w' nyDate := by
  obtain ⟨rfl, hg⟩ := hs
  unfold Welt.nach
  have hgleich : w.dayNotional.stand nyDate ≤ w.dayNotional.stand nyDate :=
    ExtRat.le_self (ExtRat.ne_nan_of_le (h nyDate).stand_nonneg).2
  rcases shouldHold_cases cfg w.dayNotional a with
    ⟨v, hbucht, heq⟩ | ⟨hz, hb⟩
  · have hgeregelt := hg v hbucht
    rw [heq]
    cases hbuchen : a.buchen with
    | da =>
        rw [hbuchen] at hgeregelt
        obtain ⟨hnan, hday, hlesen, hdatum⟩ := hgeregelt
        obtain ⟨n, hn, hgrenze⟩ := hbucht.dayNotional
        obtain rfl : w.dayNotional.stand a.datumLesen = n := by
          cases hl : a.lesen <;> simp_all [DayNotional.current]
        have hv : 0 ≤ v := hbucht.nonneg hnan
        exact Gedeckt.mitFreigabe h hbucht.orderValue_eq hv
          (Gedeckt.platz h hv hday hgrenze hdatum)
    | keiner =>
        rw [hbuchen] at hgeregelt
        exact hgeregelt.elim
    | wirft => exact (h nyDate).ohneFreigabe (by simp [DayNotional.add]) hgleich
    | wirftDanach =>
        -- the counter is raised although the order waits
        rw [hbuchen] at hgeregelt
        refine (h nyDate).ohneFreigabe (by simp [DayNotional.add]) ?_
        by_cases hd : nyDate = a.datumBuchen
        · subst hd
          simpa [DayNotional.add] using
            ExtRat.le_add_of_nonneg (h _).stand_nonneg (hbucht.nonneg hgeregelt)
        · simpa [DayNotional.add, hd] using hgleich
  · refine (h nyDate).ohneFreigabe hb ?_
    rw [hz]
    exact hgleich

/-- A call that is released under the limits was read and booked. -/
theorem gezaehlt_step {w' : Welt}
    (h : ∀ c ∈ w.calls, ∀ total, c.2 = .underLimit total → c.1.lesen = .da ∧ c.1.buchen = .da)
    (hs : ((system cfg).restrict (Geregelt cfg)).step w a w') :
    ∀ c ∈ w'.calls, ∀ total, c.2 = .underLimit total → c.1.lesen = .da ∧ c.1.buchen = .da := by
  obtain ⟨rfl, hg⟩ := hs
  intro c hc total hfrei
  rcases List.mem_append.mp hc with hc | hc
  · exact h c hc total hfrei
  · obtain rfl := List.mem_singleton.mp hc
    rcases shouldHold_cases cfg w.dayNotional a with
      ⟨v, hbucht, heq⟩ | ⟨-, hb⟩
    · have hgeregelt := hg v hbucht
      simp only [heq] at hfrei
      cases hbuchen : a.buchen with
      | da =>
          rw [hbuchen] at hgeregelt
          obtain ⟨n, hn, -⟩ := hbucht.dayNotional
          cases hl : a.lesen <;> simp_all [DayNotional.current]
      | keiner =>
          rw [hbuchen] at hgeregelt
          exact hgeregelt.elim
      | wirft => simp [hbuchen, DayNotional.add] at hfrei
      | wirftDanach => simp [hbuchen, DayNotional.add] at hfrei
    · exact absurd hfrei (hb total)

/-- While every booking is of numbers, on a counter that is there and on one
date, what is released on a date stays within the limit of the day. -/
theorem tagesgrenze_eingehalten (cfg : Config) {w : Welt}
    (h : ((system cfg).restrict (Geregelt cfg)).Reach w) : Eingehalten cfg w := by
  have hinv : (∀ nyDate, Gedeckt cfg w nyDate) ∧
      ∀ c ∈ w.calls, ∀ total, c.2 = .underLimit total → c.1.lesen = .da ∧ c.1.buchen = .da := by
    refine h.invariant (I := fun w => (∀ nyDate, Gedeckt cfg w nyDate) ∧
      ∀ c ∈ w.calls, ∀ total, c.2 = .underLimit total → c.1.lesen = .da ∧ c.1.buchen = .da) ?_ ?_
    · rintro w ⟨hz, hc⟩
      have hnull : (0 : ExtRat) ≤ 0 := ExtRat.of_le_of.mpr le_rfl
      refine ⟨fun nyDate => ⟨?_, ?_, ?_⟩, by simp [hc]⟩
      · simpa [Welt.freigaben, hc] using hnull
      · simpa [Welt.freigaben, hc, DayNotional.stand, hz] using hnull
      · simp [Welt.freigaben, hc]
    · rintro w a w' ⟨hg, hc⟩ hs
      exact ⟨fun nyDate => Gedeckt.step hg hs, gezaehlt_step hc hs⟩
  refine ⟨fun nyDate => (hinv.1 nyDate).summe, fun c hc hhold => ?_⟩
  cases hb : c.2 with
  | autonomousUnlimited => exact .inl rfl
  | riskReducingSell => exact .inr (.inl rfl)
  | underLimit total => exact .inr (.inr (hinv.2 c hc total hb))
  | pending | queued breached | fehler => simp [hb, Branch.hold] at hhold

section Beispiel

def grenzen : Config := ⟨.of 60, .of 100, false, false⟩

def kauf (price : ExtRat) (redis : Backend) : Aufruf where
  event := ⟨"BUY", .zahl price, .fehlt, .fehlt⟩
  calculatedQty := .zahl (.of 2)
  pending := some false
  lesen := redis
  datumLesen := "2026-06-15"
  buchen := redis
  datumBuchen := "2026-06-15"

theorem qty_kauf (price : ExtRat) (redis : Backend) : (kauf price redis).qty = some (.of 2) := by
  simp [Aufruf.qty, kauf, Angabe.float, Angabe.calculated]

theorem orderValue_kauf (price : ExtRat) (redis : Backend) :
    (kauf price redis).orderValue = some (.of 2 * price) := by
  rw [Aufruf.orderValue, qty_kauf]
  rfl

theorem shouldHold_kauf (z : DayNotional) {price : ExtRat} (redis : Backend)
    (hv : ¬ExtRat.of 2 * price ≤ 0) : shouldHold grenzen z (kauf price redis) =
      ((threshold grenzen z (kauf price redis) (.of 2 * price)).1,
        (threshold grenzen z (kauf price redis) (.of 2 * price)).2.getD .fehler) := by
  have hkauf : ¬(kauf price redis).ReducesPosition := by simp [Aufruf.ReducesPosition, kauf]
  simp [shouldHold, Gate.decide, qty_kauf, orderValue_kauf, hkauf, hv, grenzen,
    show (kauf price redis).pending = some false from rfl]

theorem shouldHold_erste : shouldHold grenzen (fun _ => none) (kauf (.of 30) .da) =
    (DayNotional.incr (fun _ => none) "2026-06-15" (.of 60), .underLimit (.of 60)) := by
  have hwert : ¬ExtRat.of 2 * .of 30 ≤ 0 := by simp
  rw [shouldHold_kauf _ _ hwert]
  norm_num [threshold, DayNotional.current, DayNotional.stand, DayNotional.add, kauf, grenzen,
    ExtRat.zero_def]

/-- The second one does not fit any more. -/
theorem shouldHold_zweite {z : DayNotional} (hz : z.stand "2026-06-15" = .of 60) :
    shouldHold grenzen z (kauf (.of 30) .da) = (z, .queued "per_day") := by
  have hwert : ¬ExtRat.of 2 * .of 30 ≤ 0 := by simp
  rw [shouldHold_kauf _ _ hwert]
  norm_num [threshold, DayNotional.current, hz, kauf, grenzen]

/-- Without a counter each order is the first one. -/
theorem shouldHold_keiner (z : DayNotional) :
    shouldHold grenzen z (kauf (.of 30) .keiner) = (z, .underLimit 0) := by
  have hwert : ¬ExtRat.of 2 * .of 30 ≤ 0 := by simp
  rw [shouldHold_kauf _ _ hwert]
  norm_num [threshold, DayNotional.current, DayNotional.add, kauf, grenzen, ExtRat.zero_def]

/-- NaN is under every limit, on any counter. -/
theorem shouldHold_nan (z : DayNotional) : shouldHold grenzen z (kauf .nan .da) =
    (z.incr "2026-06-15" .nan, .underLimit .nan) := by
  rw [shouldHold_kauf _ _ (by simp)]
  simp [threshold, DayNotional.current, DayNotional.add, kauf, grenzen]

/-- On a counter that is NaN every order is under the limit of the day. -/
theorem shouldHold_nach_nan {z : DayNotional} (hz : z.stand "2026-06-15" = .nan) :
    shouldHold grenzen z (kauf (.of 30) .da) =
      (z.incr "2026-06-15" (.of 60), .underLimit .nan) := by
  have hwert : ¬ExtRat.of 2 * .of 30 ≤ 0 := by simp
  rw [shouldHold_kauf _ _ hwert]
  norm_num [threshold, DayNotional.current, DayNotional.add, hz, kauf, grenzen]

theorem freigabe_kauf (price total : ExtRat) (redis : Backend) :
    freigabe "2026-06-15" (kauf price redis, .underLimit total) = some (.of 2 * price) := by
  have hdatum : (kauf price redis).datumBuchen = "2026-06-15" := rfl
  simp [freigabe, hdatum, orderValue_kauf]

def leer : Welt := ⟨fun _ => none, []⟩

theorem reach_zwei (a b : Aufruf) : (system grenzen).Reach ((leer.nach grenzen a).nach grenzen b) :=
  .step (.step (.start ⟨rfl, rfl⟩) rfl) rfl

/-- One order runs, and the next one waits. -/
theorem tagesgrenze_eingehalten_zwei : ∃ w,
    ((system grenzen).restrict (Geregelt grenzen)).Reach w ∧
      w.calls.map Prod.snd = [.underLimit (.of 60), .queued "per_day"] ∧ Eingehalten grenzen w := by
  have hgeregelt (w w' : Welt) : Geregelt grenzen w (kauf (.of 30) .da) w' := by
    intro v hv
    obtain rfl : ExtRat.of 2 * .of 30 = v := by
      simpa only [orderValue_kauf, Option.some.injEq] using hv.orderValue_eq
    exact ⟨by simp, by simp [grenzen], by simp [kauf], .inl rfl⟩
  have h : ((system grenzen).restrict (Geregelt grenzen)).Reach
      ((leer.nach grenzen (kauf (.of 30) .da)).nach grenzen (kauf (.of 30) .da)) :=
    .step (.step (.start ⟨rfl, rfl⟩) ⟨rfl, hgeregelt _ _⟩) ⟨rfl, hgeregelt _ _⟩
  refine ⟨_, h, ?_, tagesgrenze_eingehalten grenzen h⟩
  have hz : (DayNotional.incr (fun _ => none) "2026-06-15" (.of 60)).stand "2026-06-15" =
      .of 60 := by
    rw [DayNotional.stand_incr_self]
    simp [DayNotional.stand, ExtRat.zero_def]
  simp [Welt.nach, leer, shouldHold_erste, shouldHold_zweite hz]

/-- Without a counter the released values are over the limit, and after NaN they
are not even a number. -/
theorem tagesgrenze_nicht_eingehalten :
    (∃ w, (system grenzen).Reach w ∧ w.freigaben "2026-06-15" = [.of 60, .of 60] ∧
      ¬Eingehalten grenzen w) ∧
    ∃ w, (system grenzen).Reach w ∧ (∀ c ∈ w.calls, c.1.lesen = .da ∧ c.1.buchen = .da) ∧
      w.freigaben "2026-06-15" = [.nan, .of 60] ∧ ¬Eingehalten grenzen w := by
  refine ⟨?_, ?_⟩
  · have hfrei : ((leer.nach grenzen (kauf (.of 30) .keiner)).nach grenzen
        (kauf (.of 30) .keiner)).freigaben "2026-06-15" = [.of 60, .of 60] := by
      norm_num [Welt.nach, leer, shouldHold_keiner, Welt.freigaben, List.filterMap_cons,
        freigabe_kauf]
    refine ⟨_, reach_zwei _ _, hfrei, fun h => ?_⟩
    have hsumme := h.summe "2026-06-15" (by simp [hfrei])
    rw [hfrei] at hsumme
    norm_num [grenzen] at hsumme
  · have hz : (DayNotional.incr (fun _ => none) "2026-06-15" .nan).stand "2026-06-15" = .nan := by
      rw [DayNotional.stand_incr_self, ExtRat.add_nan]
    have hfrei : ((leer.nach grenzen (kauf .nan .da)).nach grenzen
        (kauf (.of 30) .da)).freigaben "2026-06-15" = [.nan, .of 60] := by
      norm_num [Welt.nach, leer, shouldHold_nan, shouldHold_nach_nan hz, Welt.freigaben,
        List.filterMap_cons, freigabe_kauf]
    refine ⟨_, reach_zwei _ _, ?_, hfrei, fun h => ?_⟩
    · simp [Welt.nach, leer, kauf]
    · have hsumme := h.summe "2026-06-15" (by simp [hfrei])
      rw [hfrei] at hsumme
      simp at hsumme

end Beispiel

end Gate

end Hitl
