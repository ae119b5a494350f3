import AutonomousEngine.Basis.ExtRat
import AutonomousEngine.Basis.JsonDict
import Mathlib.Data.Rat.Floor

/-!
# The Iron Dome policy

The limits of trading are read from a stored JSON object, and each one is clamped to a
cap that nobody can move: four of them from above, the window of the wash trades from
below.  A limit that is absent or not usable has a default.

A change of the policy is a loosening when it moves one of the limits to its cap.
Loaded limits are numbers, so a change that is no loosening leaves each of them where it
is or moves it away from its cap (`lockert_eq_false_iff`).
-/

namespace IronDome

open Basis

/-! ## Stored values -/

/-- A value of a JSON object. -/
inductive JsonWert where
  | null
  | bool (b : Bool)
  | ganz (n : ℤ)
  | zahl (x : ExtRat)
  | text (s : String)
  /-- A list or an object. -/
  | zusammengesetzt
deriving DecidableEq

/-- What a policy is loaded from. -/
inductive Quelle where
  | keine
  | objekt (felder : List (String × JsonWert))
  /-- A value that is no object. -/
  | anderes
deriving DecidableEq

/-- `raw.get`. -/
def feld (raw : List (String × JsonWert)) (name : String) : JsonWert :=
  (dictGet name raw).getD .null

/-- What `float` and `int` make of a text. -/
structure Python where
  float : String → Option ExtRat
  int : String → Option ℤ

/-! ## Coercion -/

/-- The first integer that `float` finds too large. -/
def floatGrenze : ℕ := 2 ^ 1024 - 2 ^ 970

def ohneNan (x : ExtRat) : Option ExtRat := if x = .nan then none else some x

variable (P : Python)

/-- `_coerce` to a float.  An `OverflowError` is not caught there: that is the `none` on
the outside. -/
def coerceFloat : JsonWert → Option (Option ExtRat)
  | .null => some none
  | .bool b => some (some (.of b.toNat))
  | .ganz n => if floatGrenze ≤ n.natAbs then none else some (some (.of n))
  | .zahl x => some (ohneNan x)
  | .text s => some ((P.float s).bind ohneNan)
  | .zusammengesetzt => some none

/-- `_coerce` to an integer, which cuts off the places behind the point. -/
def coerceInt : JsonWert → Option (Option ℤ)
  | .null => some none
  | .bool b => some (some b.toNat)
  | .ganz n => some (some n)
  | .zahl .nan => some none
  | .zahl (.of q) => some (some (q.num.tdiv q.den))
  | .zahl _ => none
  | .text s => some (P.int s)
  | .zusammengesetzt => some none

theorem ne_nan_of_ohneNan {x y : ExtRat} (h : ohneNan x = some y) : y ≠ .nan := by
  unfold ohneNan at h
  split at h
  next => cases h
  next hx =>
    cases h
    exact hx

theorem ne_nan_of_coerceFloat {w : JsonWert} {x : ExtRat}
    (h : coerceFloat P w = some (some x)) : x ≠ .nan := by
  cases w with
  | null => cases h
  | bool b =>
      cases h
      intro h
      cases h
  | ganz n =>
      rw [coerceFloat] at h
      split at h
      next => cases h
      next =>
        cases h
        intro h
        cases h
  | zahl y => exact ne_nan_of_ohneNan (Option.some.inj h)
  | text s =>
      obtain ⟨y, -, hy⟩ := Option.bind_eq_some_iff.mp (Option.some.inj h)
      exact ne_nan_of_ohneNan hy
  | zusammengesetzt => cases h

/-! ## Clamping -/

section

variable {α : Type} [LT α] [DecidableLT α]

/-- Python's `min` of two values. -/
def pyMin (x y : α) : α := if y < x then y else x

/-- Python's `max` of two values. -/
def pyMax (x y : α) : α := if x < y then y else x

variable (coerce : JsonWert → Option (Option α))

/-- `_operating_default`.  The strict default holds for what is not usable, also where
the coercion raises. -/
def operatingDefault (wert : JsonWert) (strict : α) : α := ((coerce wert).join).getD strict

def clampCeiling (value : JsonWert) (default ceiling : α) : Option α := do
  match ← coerce value with
  | none => return pyMin default ceiling
  | some v => return pyMin v ceiling

def clampFloor (value : JsonWert) (default floor : α) : Option α := do
  match ← coerce value with
  | none => return default
  | some v => return pyMax v floor

theorem pyMin_eq_or (x y : α) : pyMin x y = x ∨ pyMin x y = y := by
  unfold pyMin
  split
  next => exact .inr rfl
  next => exact .inl rfl

theorem not_lt_pyMin {x y : α} (hy : ¬y < y) : ¬y < pyMin x y := by
  unfold pyMin
  split
  next => exact hy
  next h => exact h

theorem not_pyMax_lt {x y : α} (hy : ¬y < y) : ¬pyMax x y < y := by
  unfold pyMax
  split
  next => exact hy
  next h => exact h

/-- A clamped limit is a value given or the default, under the ceiling. -/
theorem clampCeiling_eq_some {value : JsonWert} {default ceiling y : α}
    (h : clampCeiling coerce value default ceiling = some y) :
    ∃ x, y = pyMin x ceiling ∧ (coerce value = some (some x) ∨
      coerce value = some none ∧ x = default) := by
  unfold clampCeiling at h
  obtain ⟨o, ho, h⟩ := Option.bind_eq_some_iff.mp h
  cases o with
  | none => exact ⟨default, (Option.some.inj h).symm, .inr ⟨ho, rfl⟩⟩
  | some v => exact ⟨v, (Option.some.inj h).symm, .inl ho⟩

theorem clampFloor_eq_some {value : JsonWert} {default floor y : α}
    (h : clampFloor coerce value default floor = some y) :
    (∃ x, y = pyMax x floor ∧ coerce value = some (some x)) ∨
      coerce value = some none ∧ y = default := by
  unfold clampFloor at h
  obtain ⟨o, ho, h⟩ := Option.bind_eq_some_iff.mp h
  cases o with
  | none => exact .inr ⟨ho, (Option.some.inj h).symm⟩
  | some v => exact .inl ⟨v, (Option.some.inj h).symm, ho⟩

end

/-! ## The policy -/

structure IronDomePolicy where
  maxDailyTrades : ℤ
  washTradeWindowSeconds : ℤ
  maxOrderValue : ExtRat
  portfolioStopLossPct : ExtRat
  dailyDrawdownPct : ExtRat
deriving DecidableEq

def maxDailyTradesCeiling : ℤ := 50

def washTradeWindowMinSeconds : ℤ := 30

def maxOrderValueCeiling : ExtRat := .of 100000

def portfolioStopLossPctCeiling : ExtRat := .of (10 / 100)

def dailyDrawdownPctCeiling : ExtRat := .of (20 / 100)

def strictDefault : IronDomePolicy where
  maxDailyTrades := 10
  washTradeWindowSeconds := 60
  maxOrderValue := .of 10000
  portfolioStopLossPct := .of (7 / 100)
  dailyDrawdownPct := .of (175 / 1000)

/-- What the configuration says of the two limits it has. -/
structure Betrieb where
  complianceMaxDailyTrades : JsonWert
  complianceMaxOrderValue : JsonWert

variable (B : Betrieb)

/-- `load_policy` of an object.  There is none where a coercion raises. -/
def loadObjekt (raw : List (String × JsonWert)) : Option IronDomePolicy := do
  let maxDailyTrades ← clampCeiling (coerceInt P) (feld raw "max_daily_trades")
    (operatingDefault (coerceInt P) B.complianceMaxDailyTrades strictDefault.maxDailyTrades)
    maxDailyTradesCeiling
  let washTradeWindowSeconds ← clampFloor (coerceInt P) (feld raw "wash_trade_window_seconds")
    strictDefault.washTradeWindowSeconds washTradeWindowMinSeconds
  let maxOrderValue ← clampCeiling (coerceFloat P) (feld raw "max_order_value")
    (operatingDefault (coerceFloat P) B.complianceMaxOrderValue strictDefault.maxOrderValue)
    maxOrderValueCeiling
  let portfolioStopLossPct ← clampCeiling (coerceFloat P) (feld raw "portfolio_stop_loss_pct")
    strictDefault.portfolioStopLossPct portfolioStopLossPctCeiling
  let dailyDrawdownPct ← clampCeiling (coerceFloat P) (feld raw "daily_drawdown_pct")
    strictDefault.dailyDrawdownPct dailyDrawdownPctCeiling
  return { maxDailyTrades, washTradeWindowSeconds, maxOrderValue, portfolioStopLossPct,
           dailyDrawdownPct }

def loadPolicy : Quelle → Option IronDomePolicy
  | .objekt raw => loadObjekt P B raw
  | _ => some strictDefault

def IronDomePolicy.asdict (p : IronDomePolicy) : List (String × JsonWert) :=
  [("max_daily_trades", .ganz p.maxDailyTrades),
    ("wash_trade_window_seconds", .ganz p.washTradeWindowSeconds),
    ("max_order_value", .zahl p.maxOrderValue),
    ("portfolio_stop_loss_pct", .zahl p.portfolioStopLossPct),
    ("daily_drawdown_pct", .zahl p.dailyDrawdownPct)]

/-! ## Loosening -/

/-- The limits that are looser the higher they are. -/
def higherIsLooser : List (IronDomePolicy → ExtRat) :=
  [fun p => .of p.maxDailyTrades, IronDomePolicy.maxOrderValue,
    IronDomePolicy.portfolioStopLossPct, IronDomePolicy.dailyDrawdownPct]

def lowerIsLooser : List (IronDomePolicy → ExtRat) := [fun p => .of p.washTradeWindowSeconds]

/-- Whether a loaded policy widens a control of another one. -/
def lockert (old new : IronDomePolicy) : Bool :=
  higherIsLooser.any (fun field => field old < field new) ||
    lowerIsLooser.any (fun field => field new < field old)

def isLoosening (oldPolicy newPolicy : Quelle) : Option Bool := do
  let old ← loadPolicy P B oldPolicy
  let new ← loadPolicy P B newPolicy
  return lockert old new

/-! ## Loaded policies -/

/-- A limit that is a number and within its ceiling. -/
structure Unter (ceiling x : ExtRat) : Prop where
  ne_nan : x ≠ .nan
  gedeckelt : ¬ceiling < x

/-- Every limit within its cap. -/
structure IronDomePolicy.Geklemmt (p : IronDomePolicy) : Prop where
  maxDailyTrades : ¬maxDailyTradesCeiling < p.maxDailyTrades
  washTradeWindowSeconds : ¬p.washTradeWindowSeconds < washTradeWindowMinSeconds
  maxOrderValue : Unter maxOrderValueCeiling p.maxOrderValue
  portfolioStopLossPct : Unter portfolioStopLossPctCeiling p.portfolioStopLossPct
  dailyDrawdownPct : Unter dailyDrawdownPctCeiling p.dailyDrawdownPct

theorem strictDefault_geklemmt : strictDefault.Geklemmt := by
  refine ⟨by decide, by decide, ⟨?_, ?_⟩, ⟨?_, ?_⟩, ⟨?_, ?_⟩⟩ <;> decide +kernel

theorem ne_nan_operatingDefault (w : JsonWert) {strict : ExtRat} (h : strict ≠ .nan) :
    operatingDefault (coerceFloat P) w strict ≠ .nan := by
  unfold operatingDefault
  cases hw : (coerceFloat P w).join with
  | none => exact h
  | some x => exact ne_nan_of_coerceFloat P (Option.join_eq_some_iff.mp hw)

/-- A loaded number is within its ceiling. -/
theorem unter_of_clampCeiling {value : JsonWert} {default ceiling y : ExtRat}
    (hd : default ≠ .nan) (hc : ceiling ≠ .nan)
    (h : clampCeiling (coerceFloat P) value default ceiling = some y) : Unter ceiling y := by
  obtain ⟨x, rfl, hx⟩ := clampCeiling_eq_some _ h
  have hnan : x ≠ .nan := by
    rcases hx with hx | ⟨-, rfl⟩
    · exact ne_nan_of_coerceFloat P hx
    · exact hd
  refine ⟨?_, not_lt_pyMin (ExtRat.lt_irrefl ceiling)⟩
  rcases pyMin_eq_or x ceiling with he | he
  · rwa [he]
  · rwa [he]

theorem not_lt_of_clampFloor {value : JsonWert} {default floor y : ℤ} (hd : ¬default < floor)
    (h : clampFloor (coerceInt P) value default floor = some y) : ¬y < floor := by
  rcases clampFloor_eq_some _ h with ⟨x, rfl, -⟩ | ⟨-, rfl⟩
  · exact not_pyMax_lt (lt_irrefl floor)
  · exact hd

/-- What an object is loaded to, limit by limit. -/
structure Felder (raw : List (String × JsonWert)) (p : IronDomePolicy) : Prop where
  maxDailyTrades : clampCeiling (coerceInt P) (feld raw "max_daily_trades")
    (operatingDefault (coerceInt P) B.complianceMaxDailyTrades strictDefault.maxDailyTrades)
    maxDailyTradesCeiling = some p.maxDailyTrades
  washTradeWindowSeconds : clampFloor (coerceInt P) (feld raw "wash_trade_window_seconds")
    strictDefault.washTradeWindowSeconds washTradeWindowMinSeconds =
      some p.washTradeWindowSeconds
  maxOrderValue : clampCeiling (coerceFloat P) (feld raw "max_order_value")
    (operatingDefault (coerceFloat P) B.complianceMaxOrderValue strictDefault.maxOrderValue)
    maxOrderValueCeiling = some p.maxOrderValue
  portfolioStopLossPct : clampCeiling (coerceFloat P) (feld raw "portfolio_stop_loss_pct")
    strictDefault.portfolioStopLossPct portfolioStopLossPctCeiling = some p.portfolioStopLossPct
  dailyDrawdownPct : clampCeiling (coerceFloat P) (feld raw "daily_drawdown_pct")
    strictDefault.dailyDrawdownPct dailyDrawdownPctCeiling = some p.dailyDrawdownPct

theorem loadObjekt_eq_some {raw : List (String × JsonWert)} {p : IronDomePolicy} :
    loadObjekt P B raw = some p ↔ Felder P B raw p := by
  constructor
  · intro h
    obtain ⟨trades, htrades, h⟩ := Option.bind_eq_some_iff.mp h
    obtain ⟨window, hwindow, h⟩ := Option.bind_eq_some_iff.mp h
    obtain ⟨order, horder, h⟩ := Option.bind_eq_some_iff.mp h
    obtain ⟨stop, hstop, h⟩ := Option.bind_eq_some_iff.mp h
    obtain ⟨daily, hdaily, h⟩ := Option.bind_eq_some_iff.mp h
    cases h
    exact ⟨htrades, hwindow, horder, hstop, hdaily⟩
  · intro h
    simp only [loadObjekt, h.maxDailyTrades, h.washTradeWindowSeconds, h.maxOrderValue,
      h.portfolioStopLossPct, h.dailyDrawdownPct, Option.bind_eq_bind, Option.bind_some]
    rfl

/-- What a policy is loaded to never passes a cap. -/
theorem loadPolicy_geklemmt {raw : Quelle} {p : IronDomePolicy}
    (h : loadPolicy P B raw = some p) : p.Geklemmt := by
  cases raw with
  | keine =>
      cases h
      exact strictDefault_geklemmt
  | anderes =>
      cases h
      exact strictDefault_geklemmt
  | objekt raw =>
      have hfelder := (loadObjekt_eq_some P B).mp h
      have hstrict := strictDefault_geklemmt
      refine ⟨?_, ?_, ?_, ?_, ?_⟩
      · obtain ⟨x, hx, -⟩ := clampCeiling_eq_some _ hfelder.maxDailyTrades
        rw [hx]
        exact not_lt_pyMin (lt_irrefl maxDailyTradesCeiling)
      · exact not_lt_of_clampFloor P hstrict.washTradeWindowSeconds hfelder.washTradeWindowSeconds
      · exact unter_of_clampCeiling P
          (ne_nan_operatingDefault P B.complianceMaxOrderValue hstrict.maxOrderValue.ne_nan)
          (fun h => by cases h) hfelder.maxOrderValue
      · exact unter_of_clampCeiling P hstrict.portfolioStopLossPct.ne_nan (fun h => by cases h)
          hfelder.portfolioStopLossPct
      · exact unter_of_clampCeiling P hstrict.dailyDrawdownPct.ne_nan (fun h => by cases h)
          hfelder.dailyDrawdownPct

theorem clampCeiling_zahl {x default ceiling : ExtRat} (h : Unter ceiling x) :
    clampCeiling (coerceFloat P) (.zahl x) default ceiling = some x := by
  rw [clampCeiling, coerceFloat, ohneNan, if_neg h.ne_nan]
  exact congrArg some (if_neg h.gedeckelt)

/-- A loaded policy is stored and loaded again as it is. -/
theorem loadPolicy_asdict {p : IronDomePolicy} (h : p.Geklemmt) :
    loadPolicy P B (.objekt p.asdict) = some p := by
  refine (loadObjekt_eq_some P B).mpr ⟨?_, ?_, ?_, ?_, ?_⟩
  · exact congrArg some (if_neg h.maxDailyTrades)
  · exact congrArg some (if_neg (by have := h.washTradeWindowSeconds; omega))
  · exact clampCeiling_zahl P h.maxOrderValue
  · exact clampCeiling_zahl P h.portfolioStopLossPct
  · exact clampCeiling_zahl P h.dailyDrawdownPct

/-! ## Changes that need one admin -/

/-- No limit is moved to its cap. -/
structure Enger (old new : IronDomePolicy) : Prop where
  maxDailyTrades : new.maxDailyTrades ≤ old.maxDailyTrades
  washTradeWindowSeconds : old.washTradeWindowSeconds ≤ new.washTradeWindowSeconds
  maxOrderValue : new.maxOrderValue ≤ old.maxOrderValue
  portfolioStopLossPct : new.portfolioStopLossPct ≤ old.portfolioStopLossPct
  dailyDrawdownPct : new.dailyDrawdownPct ≤ old.dailyDrawdownPct

theorem not_lt_iff {x y : ExtRat} (hx : x ≠ .nan) (hy : y ≠ .nan) : ¬y < x ↔ x ≤ y :=
  ⟨ExtRat.le_of_not_lt hx hy, ExtRat.not_lt_of_le⟩

/-- Between loaded policies a change is no loosening exactly when it tightens. -/
theorem lockert_eq_false_iff {old new : IronDomePolicy} (ho : old.Geklemmt)
    (hn : new.Geklemmt) : lockert old new = false ↔ Enger old new := by
  have horder := not_lt_iff hn.maxOrderValue.ne_nan ho.maxOrderValue.ne_nan
  have hstop := not_lt_iff hn.portfolioStopLossPct.ne_nan ho.portfolioStopLossPct.ne_nan
  have hdaily := not_lt_iff hn.dailyDrawdownPct.ne_nan ho.dailyDrawdownPct.ne_nan
  simp only [lockert, higherIsLooser, lowerIsLooser, List.any_cons, List.any_nil, Bool.or_false,
    Bool.or_eq_false_iff, decide_eq_false_iff_not, ExtRat.of_lt_of, Int.cast_lt, not_lt, horder,
    hstop, hdaily]
  constructor
  · rintro ⟨⟨htrades, horder, hstop, hdaily⟩, hwindow⟩
    exact ⟨htrades, hwindow, horder, hstop, hdaily⟩
  · intro h
    exact ⟨⟨h.maxDailyTrades, h.maxOrderValue, h.portfolioStopLossPct, h.dailyDrawdownPct⟩,
      h.washTradeWindowSeconds⟩

theorem Enger.refl {p : IronDomePolicy} (h : p.Geklemmt) : Enger p p :=
  ⟨le_rfl, le_rfl, ExtRat.le_self h.maxOrderValue.ne_nan,
    ExtRat.le_self h.portfolioStopLossPct.ne_nan, ExtRat.le_self h.dailyDrawdownPct.ne_nan⟩

theorem Enger.trans {p q r : IronDomePolicy} (h : Enger p q) (h' : Enger q r) : Enger p r :=
  ⟨h'.maxDailyTrades.trans h.maxDailyTrades,
    h.washTradeWindowSeconds.trans h'.washTradeWindowSeconds,
    ExtRat.le_trans h'.maxOrderValue h.maxOrderValue,
    ExtRat.le_trans h'.portfolioStopLossPct h.portfolioStopLossPct,
    ExtRat.le_trans h'.dailyDrawdownPct h.dailyDrawdownPct⟩

theorem isLoosening_of_load {oldPolicy newPolicy : Quelle} {old new : IronDomePolicy}
    (ho : loadPolicy P B oldPolicy = some old) (hn : loadPolicy P B newPolicy = some new) :
    isLoosening P B oldPolicy newPolicy = some (lockert old new) := by
  rw [isLoosening, ho, hn]
  rfl

theorem isLoosening_eq_false {oldPolicy newPolicy : Quelle}
    (h : isLoosening P B oldPolicy newPolicy = some false) :
    ∃ old new, loadPolicy P B oldPolicy = some old ∧ loadPolicy P B newPolicy = some new ∧
      Enger old new := by
  obtain ⟨old, ho, h⟩ := Option.bind_eq_some_iff.mp h
  obtain ⟨new, hn, h⟩ := Option.bind_eq_some_iff.mp h
  exact ⟨old, new, ho, hn, (lockert_eq_false_iff (loadPolicy_geklemmt P B ho)
    (loadPolicy_geklemmt P B hn)).mp (Option.some.inj h)⟩

def ohneZahlen : Python := ⟨fun _ => none, fun _ => none⟩

def auslieferung : Betrieb := ⟨.ganz 10, .zahl (.of 10000)⟩

end IronDome
