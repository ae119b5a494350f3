import AutonomousEngine.IronDome.Policy
import AutonomousEngine.Konto.Grenzen

/-!
# What a change with one admin leaves of the controls

A change that is no loosening needs one admin.  It lowers the portfolio stop and the
daily limit or leaves them, so a loss that halts under the old limits is a loss beyond
the new ones as well.  But the stop is only looked at when it is positive: one that is
lowered to zero or below does not halt at all, and the loss is left to the daily limit.

So no control is weakened exactly when the stop stays positive, or the new daily limit
is below the old stop (`nichtSchwaecher_iff`).  Below the old stop it is never passed
without the daily limit being passed as well, as the peak is not below the capital.

Two runs of live calls on the same equities are compared state by state.  As long as
neither has halted they have the same peak.
-/

namespace IronDome

open Basis Konto

/-! ## The limits in force -/

/-- `reload_policy` of the risk manager. -/
def reloadPolicy (p : IronDomePolicy) (s : Sitzung) : Sitzung :=
  s.setze p.portfolioStopLossPct p.dailyDrawdownPct

/-- The comparison of `_check_risk_limits`. -/
def lehntWertAb (p : IronDomePolicy) (value : ExtRat) : Bool := !decide (value ≤ p.maxOrderValue)

/-- The comparison of `check_trade`. -/
def lehntHandelAb (p : IronDomePolicy) (dailyTrades : ℤ) : Bool :=
  decide (p.maxDailyTrades ≤ dailyTrades)

/-- The comparison of `_detect_wash_trade`. -/
def lehntAbstandAb (p : IronDomePolicy) (abstand : ExtRat) : Bool :=
  decide (abstand < .of p.washTradeWindowSeconds)

/-- An equity that is fed to two risk managers, each in a world of its own. -/
structure Zug where
  alt : Umgebung
  neu : Umgebung
  equity : Lage.Equity

/-- Each control that the old limits exert is exerted by the new ones. -/
structure NichtSchwaecher (old new : IronDomePolicy) : Prop where
  halt : ∀ (s : Sitzung) (zuege : List Zug),
    ((reloadPolicy old s).lage.lauf
      (zuege.map fun z => live (z.alt, z.equity))).rm.tradingHalted = true →
    ((reloadPolicy new s).lage.lauf
      (zuege.map fun z => live (z.neu, z.equity))).rm.tradingHalted = true
  wert : ∀ value, lehntWertAb old value = true → lehntWertAb new value = true
  handel : ∀ n, lehntHandelAb old n = true → lehntHandelAb new n = true
  abstand : ∀ t, lehntAbstandAb old t = true → lehntAbstandAb new t = true

/-- The stop stays positive, or the new daily limit is below the old stop. -/
def StopBleibt (old new : IronDomePolicy) : Prop :=
  (0 < old.portfolioStopLossPct → 0 < new.portfolioStopLossPct) ∨
    new.dailyDrawdownPct < old.portfolioStopLossPct

/-! ## Two runs -/

/-- Trading is open under either policy, with the same past. -/
structure Gleichauf (old new : IronDomePolicy) (l l' : Lage) : Prop where
  kapital : 0 < l.rm.sessionStartEquity
  spitze : l.rm.sessionStartEquity ≤ l.rm.peakDailyEquity
  start : l'.rm.sessionStartEquity = l.rm.sessionStartEquity
  peak : l'.rm.peakDailyEquity = l.rm.peakDailyEquity
  triggered : l'.rm.portfolioStopTriggered = l.rm.portfolioStopTriggered
  stop : l.rm.portfolioStopLossPct = old.portfolioStopLossPct
  stop' : l'.rm.portfolioStopLossPct = new.portfolioStopLossPct
  limit : l.rm.dailyDrawdownLimit = l.rm.sessionStartEquity * old.dailyDrawdownPct
  limit' : l'.rm.dailyDrawdownLimit = l.rm.sessionStartEquity * new.dailyDrawdownPct
  offen : l.rm.tradingHalted = false

variable {old new : IronDomePolicy} {l l' : Lage}

theorem spitze_le (rm : RiskManager) (currentEquity : ExtRat)
    (h : rm.sessionStartEquity ≤ rm.peakDailyEquity) :
    rm.sessionStartEquity ≤ rm.spitze currentEquity := by
  unfold RiskManager.spitze
  split
  next hlt => exact ExtRat.le_trans h (ExtRat.le_of_lt hlt)
  next => exact h

/-- An equity that halts under the old limits halts under the new ones. -/
theorem Gleichauf.greiftEin (h : Gleichauf old new l l') (he : Enger old new)
    (hstop : StopBleibt old new) {currentEquity : ExtRat}
    (hgreift : l.rm.GreiftEin currentEquity) : l'.rm.GreiftEin currentEquity := by
  have hspitze : l'.rm.spitze currentEquity = l.rm.spitze currentEquity := by
    rw [RiskManager.spitze, RiskManager.spitze, h.peak]
  have hpct : Lage.pctDown l'.rm currentEquity = Lage.pctDown l.rm currentEquity := by
    rw [Lage.pctDown, Lage.pctDown, h.start]
  have hbreaker : l'.rm.BreakerGreift currentEquity ↔
      l.rm.sessionStartEquity * new.dailyDrawdownPct <
        l.rm.spitze currentEquity - currentEquity := by
    rw [RiskManager.BreakerGreift, h.limit', hspitze]
  rcases hgreift with ⟨htriggered, hunter⟩ | hgreift
  · have hpos : 0 < old.portfolioStopLossPct := by
      rw [← h.stop]
      exact hunter.stop
    have hloss : old.portfolioStopLossPct ≤ Lage.pctDown l.rm currentEquity := by
      rw [← h.stop]
      exact hunter.pctDown
    rcases hstop with hneu | hdaily
    · refine .inl ⟨h.triggered.trans htriggered, ?_, ?_, ?_⟩
      · rw [h.start]
        exact h.kapital
      · rw [h.stop']
        exact hneu hpos
      · rw [h.stop', hpct]
        exact ExtRat.le_trans he.portfolioStopLossPct hloss
    · have hverlust : l.rm.sessionStartEquity * new.dailyDrawdownPct <
          l.rm.sessionStartEquity - currentEquity :=
        ExtRat.mul_lt_sub_of_le_div h.kapital hpos hloss hdaily
      exact .inr (hbreaker.mpr
        (ExtRat.lt_sub_of_le (spitze_le l.rm currentEquity h.spitze) hverlust))
  · rw [RiskManager.BreakerGreift, h.limit] at hgreift
    exact .inr (hbreaker.mpr (ExtRat.mul_lt_of_le h.kapital he.dailyDrawdownPct hgreift))

/-- The run under the new limits has halted, or neither has. -/
def Folgt (old new : IronDomePolicy) (l l' : Lage) : Prop :=
  l'.rm.tradingHalted = true ∨ Gleichauf old new l l'

theorem Folgt.zug (he : Enger old new) (hstop : StopBleibt old new) (h : Folgt old new l l')
    (z : Zug) :
    Folgt old new (l.schritt (live (z.alt, z.equity))) (l'.schritt (live (z.neu, z.equity))) := by
  rcases h with hhalt | h
  · exact .inl ((l'.updateAccountEquity_nurHalt z.neu z.equity).tradingHalted hhalt)
  obtain ⟨alt, neu, equity⟩ := z
  cases equity with
  | keine => exact .inr h
  | unlesbar => exact .inr h
  | zahl x =>
      by_cases hneu : l'.rm.GreiftEin x
      · exact .inl (Lage.tradingHalted_of_greiftEin neu x hneu)
      · have hw := Lage.weiter_of_not_greiftEin alt x fun hg => hneu (h.greiftEin he hstop hg)
        have hw' := Lage.weiter_of_not_greiftEin neu x hneu
        refine .inr ?_
        constructor
        · rw [hw.start]
          exact h.kapital
        · rw [hw.start, hw.spitze]
          exact spitze_le l.rm x h.spitze
        · rw [hw.start, hw'.start, h.start]
        · rw [hw.spitze, hw'.spitze, RiskManager.spitze, RiskManager.spitze, h.peak]
        · rw [hw.triggered, hw'.triggered, h.triggered]
        · rw [hw.stop, h.stop]
        · rw [hw'.stop, h.stop']
        · rw [hw.limit, hw.start, h.limit]
        · rw [hw'.limit, hw.start, h.limit']
        · rw [hw.tradingHalted, h.offen]

theorem Folgt.lauf (he : Enger old new) (hstop : StopBleibt old new) (h : Folgt old new l l')
    (zuege : List Zug) :
    Folgt old new (l.lauf (zuege.map fun z => live (z.alt, z.equity)))
      (l'.lauf (zuege.map fun z => live (z.neu, z.equity))) := by
  induction zuege generalizing l l' with
  | nil => exact h
  | cons z zuege ih => exact ih (h.zug he hstop z)

theorem folgt_reloadPolicy (old new : IronDomePolicy) (s : Sitzung) :
    Folgt old new (reloadPolicy old s).lage (reloadPolicy new s).lage := by
  cases hhalt : s.lage.rm.tradingHalted with
  | true => exact .inl hhalt
  | false =>
      refine .inr ⟨?_, ?_, rfl, rfl, rfl, rfl, rfl, ?_, ?_, hhalt⟩
      · exact s.start ▸ s.kapital
      · exact s.start ▸ s.spitze
      · exact congrArg (· * old.dailyDrawdownPct) s.start.symm
      · exact congrArg (· * new.dailyDrawdownPct) s.start.symm

/-- A tightened policy controls no less, as long as its stop is looked at. -/
theorem nichtSchwaecher_of_stopBleibt (he : Enger old new) (hstop : StopBleibt old new) :
    NichtSchwaecher old new := by
  refine ⟨?_, ?_, ?_, ?_⟩
  · intro s zuege hhalt
    rcases (folgt_reloadPolicy old new s).lauf he hstop zuege with hneu | hgleich
    · exact hneu
    · rw [hgleich.offen] at hhalt
      cases hhalt
  · intro value h
    simp only [lehntWertAb, Bool.not_eq_true', decide_eq_false_iff_not] at h ⊢
    exact fun hle => h (ExtRat.le_trans hle he.maxOrderValue)
  · intro n h
    simp only [lehntHandelAb, decide_eq_true_eq] at h ⊢
    exact he.maxDailyTrades.trans h
  · intro t h
    simp only [lehntAbstandAb, decide_eq_true_eq] at h ⊢
    refine ExtRat.lt_of_lt_of_le h (ExtRat.of_le_of.mpr ?_)
    exact Int.cast_le.mpr he.washTradeWindowSeconds

/-! ## A stop that is not looked at -/

def hundert : Sitzung :=
  .neu (.of 100) strictDefault.dailyDrawdownPct strictDefault.portfolioStopLossPct none
    (by decide +kernel)

def verlust (q : ℚ) : Zug := ⟨ruhigeUmgebung, ruhigeUmgebung, .zahl (.of (100 - 100 * q))⟩

theorem pctDown_hundert (p : IronDomePolicy) (q : ℚ) :
    Lage.pctDown (reloadPolicy p hundert).lage.rm (.of (100 - 100 * q)) = .of q := by
  show (ExtRat.of 100 - .of (100 - 100 * q)) / .of 100 = .of q
  rw [ExtRat.of_sub_of, ExtRat.of_div_of]
  congr 1
  ring

theorem spitze_hundert (p : IronDomePolicy) {q : ℚ} (h : 0 ≤ q) :
    (reloadPolicy p hundert).lage.rm.spitze (.of (100 - 100 * q)) = .of 100 := by
  refine if_neg ?_
  show ¬ExtRat.of 100 < .of (100 - 100 * q)
  rw [ExtRat.of_lt_of]
  linarith

/-- A loss as great as the stop halts. -/
theorem hundert_haelt {p : IronDomePolicy} {q : ℚ} (hq : 0 < q)
    (h : p.portfolioStopLossPct = .of q) :
    ((reloadPolicy p hundert).lage.schritt (live (ruhigeUmgebung, .zahl (.of (100 - 100 * q))))
      ).rm.tradingHalted = true := by
  refine Lage.tradingHalted_of_greiftEin ruhigeUmgebung _ (.inl ⟨rfl, hundert.kapital, ?_, ?_⟩)
  · show 0 < p.portfolioStopLossPct
    rw [h]
    exact ExtRat.zero_lt_of.mpr hq
  · show p.portfolioStopLossPct ≤ _
    rw [pctDown_hundert, h]
    exact ExtRat.of_le_of.mpr le_rfl

/-- Without a stop, a loss within the daily limit does not halt. -/
theorem hundert_offen {p : IronDomePolicy} {q : ℚ} (hq : 0 ≤ q)
    (hstop : ¬0 < p.portfolioStopLossPct) (hnan : p.dailyDrawdownPct ≠ .nan)
    (hdaily : ¬p.dailyDrawdownPct < .of q) :
    ((reloadPolicy p hundert).lage.schritt (live (ruhigeUmgebung, .zahl (.of (100 - 100 * q))))
      ).rm.tradingHalted = false := by
  refine (Lage.weiter_of_not_greiftEin ruhigeUmgebung _ ?_).tradingHalted
  rintro (⟨-, hunter⟩ | hbreaker)
  · exact hstop hunter.stop
  · rw [RiskManager.BreakerGreift, spitze_hundert p hq, ExtRat.of_sub_of] at hbreaker
    have hlimit : ExtRat.of 100 * p.dailyDrawdownPct < .of (100 - (100 - 100 * q)) := hbreaker
    cases hd : p.dailyDrawdownPct with
    | nan => exact hnan hd
    | negInf => exact hdaily (by rw [hd]; rfl)
    | of d =>
        rw [hd, ExtRat.of_mul_of, ExtRat.of_lt_of] at hlimit
        rw [hd, ExtRat.of_lt_of] at hdaily
        linarith
    | posInf =>
        rw [hd, ExtRat.of_mul_posInf (by norm_num)] at hlimit
        exact ExtRat.not_posInf_lt _ hlimit

theorem stopBleibt_of_nichtSchwaecher (ho : old.Geklemmt) (hn : new.Geklemmt)
    (h : NichtSchwaecher old new) : StopBleibt old new := by
  by_contra hnot
  obtain ⟨himp, hdaily⟩ := not_or.mp hnot
  obtain ⟨hpos, hstop⟩ := Classical.not_imp.mp himp
  have hdeckel := ho.portfolioStopLossPct.gedeckelt
  cases hs : old.portfolioStopLossPct with
  | nan => exact ho.portfolioStopLossPct.ne_nan hs
  | negInf =>
      rw [hs] at hpos
      cases hpos
  | posInf =>
      rw [hs] at hdeckel
      exact hdeckel rfl
  | of q =>
      rw [hs] at hpos hdaily
      have hq : 0 < q := ExtRat.zero_lt_of.mp hpos
      have hhalt := h.halt hundert [verlust q] (hundert_haelt hq hs)
      have hoffen := hundert_offen hq.le hstop hn.dailyDrawdownPct.ne_nan hdaily
      cases hhalt.symm.trans hoffen

theorem nichtSchwaecher_iff (ho : old.Geklemmt) (hn : new.Geklemmt) (he : Enger old new) :
    NichtSchwaecher old new ↔ StopBleibt old new :=
  ⟨stopBleibt_of_nichtSchwaecher ho hn, nichtSchwaecher_of_stopBleibt he⟩

/-! ## Changes with one admin -/

/-- A change that needs one admin weakens no control exactly when the stop that it loads
stays positive, or the daily limit that it loads is below the stop in force. -/
theorem isLoosening_nichtSchwaecher_iff (P : Python) (B : Betrieb)
    (oldPolicy newPolicy : List (String × JsonWert))
    (h : isLoosening P B (.objekt oldPolicy) (.objekt newPolicy) = some false) :
    ∃ old new, loadPolicy P B (.objekt oldPolicy) = some old ∧
      loadPolicy P B (.objekt newPolicy) = some new ∧
      (NichtSchwaecher old new ↔ StopBleibt old new) := by
  obtain ⟨old, new, ho, hn, he⟩ := isLoosening_eq_false P B h
  exact ⟨old, new, ho, hn, nichtSchwaecher_iff (loadPolicy_geklemmt P B ho)
    (loadPolicy_geklemmt P B hn) he⟩

/-- A stop of five percent instead of seven. -/
theorem fuenf_statt_sieben :
    ∃ old new, loadPolicy ohneZahlen auslieferung (.objekt []) = some old ∧
      loadPolicy ohneZahlen auslieferung
        (.objekt [("portfolio_stop_loss_pct", .zahl (.of (5 / 100)))]) = some new ∧
      (NichtSchwaecher old new ↔ StopBleibt old new) :=
  isLoosening_nichtSchwaecher_iff ohneZahlen auslieferung [] _ (by decide +kernel)

/-- A stop of zero is no loosening, and a loss of seven percent no longer halts. -/
theorem null_ist_keine_lockerung :
    isLoosening ohneZahlen auslieferung (.objekt [])
        (.objekt [("portfolio_stop_loss_pct", .ganz 0)]) = some false ∧
      ∃ old new, loadPolicy ohneZahlen auslieferung (.objekt []) = some old ∧
        loadPolicy ohneZahlen auslieferung
          (.objekt [("portfolio_stop_loss_pct", .ganz 0)]) = some new ∧
        ((reloadPolicy old hundert).lage.lauf
          [live (ruhigeUmgebung, .zahl (.of 93))]).rm.tradingHalted = true ∧
        ((reloadPolicy new hundert).lage.lauf
          [live (ruhigeUmgebung, .zahl (.of 93))]).rm.tradingHalted = false := by
  have he : (93 : ℚ) = 100 - 100 * (7 / 100) := by norm_num
  rw [he]
  refine ⟨by decide +kernel, strictDefault, { strictDefault with portfolioStopLossPct := .of 0 },
    by decide +kernel, by decide +kernel, hundert_haelt (by norm_num) rfl, ?_⟩
  exact hundert_offen (by norm_num) (by decide +kernel) (by decide +kernel) (by decide +kernel)

end IronDome
