import AutonomousEngine.IronDome.Policy

/-!
# Which stored policies load

A policy is loaded at the start and at every reload, and nobody there expects it to fail.
It fails where a coercion raises what is not caught: an infinity in a field of whole
numbers, a whole number too large for a float in the others.  And a negative infinity
passes every ceiling.  Whatever else is stored loads to finite limits within the caps that
load to themselves (`geladen_iff`).
-/

namespace IronDome

open Basis

def Endlich (x : ExtRat) : Prop := ∃ q, x = .of q

def IronDomePolicy.Endlich (p : IronDomePolicy) : Prop :=
  IronDome.Endlich p.maxOrderValue ∧ IronDome.Endlich p.portfolioStopLossPct ∧
    IronDome.Endlich p.dailyDrawdownPct

variable (P : Python) (B : Betrieb)

/-- The source loads to finite limits within the caps, which load to themselves. -/
def Geladen (raw : Quelle) : Prop :=
  ∃ p, loadPolicy P B raw = some p ∧ p.Endlich ∧ p.Geklemmt ∧
    loadPolicy P B (.objekt p.asdict) = some p

/-- A value that a field of whole numbers can hold. -/
def GanzBrauchbar (w : JsonWert) : Prop := w ≠ .zahl .posInf ∧ w ≠ .zahl .negInf

/-- A value that a field of numbers can hold: no whole number too large for a float, and
neither the negative infinity nor a text of it. -/
def ZahlBrauchbar (w : JsonWert) : Prop :=
  (∀ n, w = .ganz n → n.natAbs < floatGrenze) ∧ w ≠ .zahl .negInf ∧
    ∀ s, w = .text s → P.float s ≠ some .negInf

/-- The stored values that load.  The configured order value counts where the object has no
number of its own. -/
structure Ladbar (raw : List (String × JsonWert)) : Prop where
  maxDailyTrades : GanzBrauchbar (feld raw "max_daily_trades")
  washTradeWindowSeconds : GanzBrauchbar (feld raw "wash_trade_window_seconds")
  maxOrderValue : ZahlBrauchbar P (feld raw "max_order_value")
  portfolioStopLossPct : ZahlBrauchbar P (feld raw "portfolio_stop_loss_pct")
  dailyDrawdownPct : ZahlBrauchbar P (feld raw "daily_drawdown_pct")
  betrieb : coerceFloat P (feld raw "max_order_value") = some none →
    operatingDefault (coerceFloat P) B.complianceMaxOrderValue strictDefault.maxOrderValue ≠ .negInf

/-! ## Coercion -/

theorem coerceInt_ne_none_iff (w : JsonWert) : coerceInt P w ≠ none ↔ GanzBrauchbar w := by
  rw [GanzBrauchbar]
  cases w with
  | zahl x => cases x <;> simp [coerceInt]
  | null => simp [coerceInt]
  | bool b => simp [coerceInt]
  | ganz n => simp [coerceInt]
  | text s => simp [coerceInt]
  | zusammengesetzt => simp [coerceInt]

/-- A value is usable exactly when its coercion does not raise and gives no negative
infinity. -/
theorem zahlBrauchbar_iff (w : JsonWert) :
    ZahlBrauchbar P w ↔ ∃ o, coerceFloat P w = some o ∧ o ≠ some .negInf := by
  rw [ZahlBrauchbar]
  cases w with
  | null => simp [coerceFloat]
  | bool b => simp [coerceFloat]
  | zusammengesetzt => simp [coerceFloat]
  | ganz n =>
      rw [coerceFloat]
      split
      next hlarge => simp [hlarge]
      next hsmall => simpa using hsmall
  | zahl x => cases x <;> simp [coerceFloat, ohneNan]
  | text s =>
      cases hs : P.float s with
      | none => simp [coerceFloat, hs]
      | some x => cases x <;> simp [coerceFloat, hs, ohneNan]

/-! ## Clamping -/

theorem endlich_pyMin_iff {x : ExtRat} (h : x ≠ .nan) (c : ℚ) :
    Endlich (pyMin x (.of c)) ↔ x ≠ .negInf := by
  cases x with
  | nan => exact absurd rfl h
  | negInf =>
      have hmin : pyMin .negInf (ExtRat.of c) = .negInf := if_neg (ExtRat.not_lt_negInf _)
      rw [hmin]
      exact iff_of_false (fun ⟨_, hq⟩ => by cases hq) fun hne => hne rfl
  | of q =>
      refine iff_of_true ?_ fun hq => by cases hq
      rcases pyMin_eq_or (.of q) (ExtRat.of c) with hmin | hmin
      · exact ⟨q, hmin⟩
      · exact ⟨c, hmin⟩
  | posInf => exact iff_of_true ⟨c, if_pos rfl⟩ fun hq => by cases hq

variable {P} in
/-- A clamped number is there and finite exactly for a usable value, and without a value for a
usable default. -/
theorem clampCeiling_endlich_iff {w : JsonWert} {default : ExtRat} (hd : default ≠ .nan) (c : ℚ) :
    (∃ y, clampCeiling (coerceFloat P) w default (.of c) = some y ∧ Endlich y) ↔
      ZahlBrauchbar P w ∧ (coerceFloat P w = some none → default ≠ .negInf) := by
  rw [zahlBrauchbar_iff]
  cases hw : coerceFloat P w with
  | none => simp [clampCeiling, hw]
  | some o =>
      cases o with
      | none =>
          have hclamp : clampCeiling (coerceFloat P) w default (.of c) =
              some (pyMin default (.of c)) := by simp [clampCeiling, hw]
          simp [hclamp, endlich_pyMin_iff hd]
      | some x =>
          have hclamp : clampCeiling (coerceFloat P) w default (.of c) =
              some (pyMin x (.of c)) := by simp [clampCeiling, hw]
          simp [hclamp, endlich_pyMin_iff (ne_nan_of_coerceFloat P hw)]

theorem clampCeiling_int_iff (w : JsonWert) (default ceiling : ℤ) :
    (∃ y, clampCeiling (coerceInt P) w default ceiling = some y) ↔ GanzBrauchbar w := by
  rw [← coerceInt_ne_none_iff P]
  cases hw : coerceInt P w with
  | none => simp [clampCeiling, hw]
  | some o => cases o <;> simp [clampCeiling, hw]

theorem clampFloor_int_iff (w : JsonWert) (default floor : ℤ) :
    (∃ y, clampFloor (coerceInt P) w default floor = some y) ↔ GanzBrauchbar w := by
  rw [← coerceInt_ne_none_iff P]
  cases hw : coerceInt P w with
  | none => simp [clampFloor, hw]
  | some o => cases o <;> simp [clampFloor, hw]

/-! ## Loading -/

/-- An object loads to finite limits exactly when each of its fields can be held. -/
theorem loadObjekt_endlich_iff (raw : List (String × JsonWert)) :
    (∃ p, loadObjekt P B raw = some p ∧ p.Endlich) ↔ Ladbar P B raw := by
  have hstop : strictDefault.portfolioStopLossPct ≠ .nan :=
    strictDefault_geklemmt.portfolioStopLossPct.ne_nan
  have hdaily : strictDefault.dailyDrawdownPct ≠ .nan :=
    strictDefault_geklemmt.dailyDrawdownPct.ne_nan
  have horder : operatingDefault (coerceFloat P) B.complianceMaxOrderValue
      strictDefault.maxOrderValue ≠ .nan :=
    ne_nan_operatingDefault P _ strictDefault_geklemmt.maxOrderValue.ne_nan
  constructor
  · rintro ⟨p, hp, hfinite⟩
    have h := (loadObjekt_eq_some P B).mp hp
    obtain ⟨hvalue, hbetrieb⟩ :=
      (clampCeiling_endlich_iff horder _).mp ⟨_, h.maxOrderValue, hfinite.1⟩
    exact
      { maxDailyTrades := (clampCeiling_int_iff P _ _ _).mp ⟨_, h.maxDailyTrades⟩
        washTradeWindowSeconds := (clampFloor_int_iff P _ _ _).mp ⟨_, h.washTradeWindowSeconds⟩
        maxOrderValue := hvalue
        portfolioStopLossPct := ((clampCeiling_endlich_iff hstop _).mp
          ⟨_, h.portfolioStopLossPct, hfinite.2.1⟩).1
        dailyDrawdownPct := ((clampCeiling_endlich_iff hdaily _).mp
          ⟨_, h.dailyDrawdownPct, hfinite.2.2⟩).1
        betrieb := hbetrieb }
  · intro h
    obtain ⟨trades, htrades⟩ := (clampCeiling_int_iff P _ _ _).mpr h.maxDailyTrades
    obtain ⟨window, hwindow⟩ := (clampFloor_int_iff P _ _ _).mpr h.washTradeWindowSeconds
    obtain ⟨order, horder', hfinite⟩ :=
      (clampCeiling_endlich_iff horder _).mpr ⟨h.maxOrderValue, h.betrieb⟩
    obtain ⟨stop, hstop', hfinite'⟩ := (clampCeiling_endlich_iff hstop _).mpr
      ⟨h.portfolioStopLossPct, fun _ hinf => by cases hinf⟩
    obtain ⟨daily, hdaily', hfinite''⟩ := (clampCeiling_endlich_iff hdaily _).mpr
      ⟨h.dailyDrawdownPct, fun _ hinf => by cases hinf⟩
    exact ⟨⟨trades, window, order, stop, daily⟩, (loadObjekt_eq_some P B).mpr
      ⟨htrades, hwindow, horder', hstop', hdaily'⟩, hfinite, hfinite', hfinite''⟩

theorem strictDefault_endlich : strictDefault.Endlich := ⟨⟨_, rfl⟩, ⟨_, rfl⟩, ⟨_, rfl⟩⟩

/-- A source loads to finite limits within the caps, which load to themselves, exactly when it
is no object or an object each field of which can be held. -/
theorem geladen_iff (raw : Quelle) :
    Geladen P B raw ↔ ∀ felder, raw = .objekt felder → Ladbar P B felder := by
  have hload (hex : ∃ p, loadPolicy P B raw = some p ∧ p.Endlich) : Geladen P B raw := by
    obtain ⟨p, hp, hfinite⟩ := hex
    have hcaps := loadPolicy_geklemmt P B hp
    exact ⟨p, hp, hfinite, hcaps, loadPolicy_asdict P B hcaps⟩
  cases raw with
  | keine =>
      refine iff_of_true (hload ⟨_, rfl, strictDefault_endlich⟩) fun felder h => by cases h
  | anderes =>
      refine iff_of_true (hload ⟨_, rfl, strictDefault_endlich⟩) fun felder h => by cases h
  | objekt felder =>
      constructor
      · rintro ⟨p, hp, hfinite, -⟩ felder' h
        cases h
        exact (loadObjekt_endlich_iff P B felder).mp ⟨p, hp, hfinite⟩
      · intro h
        exact hload ((loadObjekt_endlich_iff P B felder).mpr (h felder rfl))

/-- An infinite number of trades and an order value of four hundred digits raise, and a
negative infinite order value is no finite limit. -/
theorem nicht_geladen :
    ¬Geladen ohneZahlen auslieferung (.objekt [("max_daily_trades", .zahl .posInf)]) ∧
      ¬Geladen ohneZahlen auslieferung (.objekt [("max_order_value", .ganz (10 ^ 400))]) ∧
      ¬Geladen ohneZahlen auslieferung (.objekt [("max_order_value", .zahl .negInf)]) := by
  have hnot {felder : List (String × JsonWert)} (h : ¬Ladbar ohneZahlen auslieferung felder) :
      ¬Geladen ohneZahlen auslieferung (.objekt felder) := by
    rintro ⟨p, hp, hfinite, -⟩
    exact h ((loadObjekt_endlich_iff ohneZahlen auslieferung felder).mp ⟨p, hp, hfinite⟩)
  refine ⟨hnot fun h => ?_, hnot fun h => ?_, hnot fun h => ?_⟩
  · exact h.maxDailyTrades.1 rfl
  · have hsmall := h.maxOrderValue.1 (10 ^ 400) rfl
    exact absurd hsmall (by decide +kernel)
  · exact h.maxOrderValue.2.1 rfl

end IronDome
