import AutonomousEngine.Bemessung.Deckel

/-!
# The size of a position

The target of a position, from its conviction or from equal weights, goes through the caps
and the exit of the funnel.  The size before the exit keeps to every cap; the size that is
returned is that one rounded, or nothing (`calculatePositionSize_gedeckelt`).
-/

namespace Bemessung

open Basis

/-! ## The target -/

inductive Confidence where
  | high
  | medium
  | low
deriving DecidableEq

/-- A call of the sizing.  The last four are the factors of the VIX ladder, of the forecast
volatility, of the skew and of the coverage. -/
structure Auftrag where
  stopLossAtrMultiplier : ℚ
  atr : Option ℚ
  confidence : Confidence
  sizeScaler : ℚ
  numStocksInStrategy : ℤ
  currentPrice : ℚ
  accountCash : ℚ
  allowFractional : Bool
  convictionScore : ℚ
  vixRiskScaler : ℚ
  volScaler : ℚ
  skewTilt : ℚ
  coverageDiscount : ℚ

def confidenceScaler : Confidence → ℚ
  | .high => 3 / 2
  | .medium => 1
  | .low => 1 / 2

section

variable (cfg : Konfig) (rm : RiskManager) (a : Auftrag)

def reductionScaler : ℚ := if rm.tradingReduced = true then 1 / 2 else 1

def sizingRiskScaler : ℚ :=
  a.vixRiskScaler * confidenceScaler a.confidence * a.sizeScaler * reductionScaler rm *
    a.volScaler * a.skewTilt * a.coverageDiscount

/-- The weight of a position in a book of equal weights. -/
def cleanW : ℚ :=
  let baseW : ℚ := 1 / (max 1 cfg.effectiveMaxPositions : ℤ)
  if cfg.cleanWeightSizing = .b then baseW * a.volScaler * a.skewTilt * a.coverageDiscount
  else baseW

/-- The weight of a position by its conviction. -/
def convictionPct : ℚ :=
  cfg.minPositionPercent +
    (cfg.maxPositionPercentSizing - cfg.minPositionPercent) * max 0 (min 1 a.convictionScore)

def sizingTargetValue : ℚ :=
  if cfg.cleanWeightSizing = .a ∨ cfg.cleanWeightSizing = .b then
    rm.totalCapital * min (cleanW cfg a) cfg.maxPositionPercent
  else
    rm.totalCapital * min (convictionPct cfg a) cfg.maxPositionPercent * sizingRiskScaler rm a

/-- The size before the caps, with the target it was made from. -/
def sizingTarget (atr : ℚ) : Option (ℚ × Option ℚ) :=
  if cfg.enableDynamicSizing = true ∧ 0 < a.currentPrice then
    some (sizingTargetValue cfg rm a / a.currentPrice, some (sizingTargetValue cfg rm a))
  else
    let n : ℤ := if a.numStocksInStrategy ≤ 0 then 1 else a.numStocksInStrategy
    let dollarRiskPerShare := atr * a.stopLossAtrMultiplier
    if dollarRiskPerShare ≤ 0 then none
    else some (rm.totalCapital * rm.riskPerTradePercent / n * sizingRiskScaler rm a /
      dollarRiskPerShare, none)

/-! ## The funnel -/

def nachCash (atr numShares : ℚ) : ℚ :=
  stepComplianceOrderValue cfg rm a.currentPrice
    (stepMaxLossPerTrade rm a.currentPrice atr a.stopLossAtrMultiplier
      (stepKelly cfg (stepTotalExposureCap cfg rm a.currentPrice numShares)))

def cappedSize (atr : ℚ) (target : Option ℚ) (numShares : ℚ) : ℚ :=
  nachCash cfg rm a atr
    (stepCash cfg rm a.currentPrice a.accountCash a.numStocksInStrategy target
      (stepPositionCap cfg rm a.currentPrice numShares))

def calculatePositionSize : ℚ :=
  match a.atr with
  | none => 0
  | some atr =>
      if atr ≤ 0 then 0
      else if rm.tradingHalted = true ∨ rm.isHalted = true then 0
      else
        match sizingTarget cfg rm a atr with
        | none => 0
        | some sized => sizingOrderFloor cfg a.currentPrice a.allowFractional
            (cappedSize cfg rm a atr sized.2 sized.1)

end

/-- A call returns nothing, or what the exit makes of a size behind the caps. -/
theorem calculatePositionSize_cases (cfg : Konfig) (rm : RiskManager) (a : Auftrag) :
    calculatePositionSize cfg rm a = 0 ∨ ∃ atr target numShares, a.atr = some atr ∧ 0 < atr ∧
      Gerundet a.allowFractional (cappedSize cfg rm a atr target numShares)
        (calculatePositionSize cfg rm a) := by
  rw [calculatePositionSize.eq_def]
  split
  next => exact .inl rfl
  next atr hatr =>
    split_ifs with hle hhalt
    · exact .inl rfl
    · exact .inl rfl
    · split
      next => exact .inl rfl
      next sized _ =>
        exact .inr ⟨atr, sized.2, sized.1, hatr, not_le.mp hle, gerundet_sizingOrderFloor _ _⟩

/-! ## The size keeps to the caps -/

/-- A size keeps to every cap.  A cap below nothing allows nothing, and so does a client
that does not know its positions. -/
structure Gedeckelt (cfg : Konfig) (rm : RiskManager) (a : Auftrag) (x : ℚ) : Prop where
  nonneg : 0 ≤ x
  position_cap : x * a.currentPrice ≤ max 0 (rm.totalCapital * cfg.maxPositionPercent)
  cash : x * a.currentPrice ≤
    max 0 (a.accountCash - cfg.riskCashBufferUsd) / slots a.numStocksInStrategy
  total_exposure_cap : ∀ pct positions, cfg.maxTotalExposurePct = some pct →
    rm.client = some (some positions) →
    x * a.currentPrice ≤ max 0 (rm.totalCapital * pct - totalPositionValue positions)
  exposure_unknown : ∀ pct, cfg.maxTotalExposurePct = some pct → rm.client = some none → x = 0
  max_loss_per_trade : ∀ atr, a.atr = some atr →
    x * (atr * a.stopLossAtrMultiplier) ≤ max 0 rm.maxLossPerTrade
  compliance_order_value : 0 < maxOrderValue cfg rm →
    x * a.currentPrice ≤ maxOrderValue cfg rm * (9999 / 10000)

section

variable {cfg : Konfig} {rm : RiskManager} {a : Auftrag}

theorem mul_le_of_le_max_div {x c price : ℚ} (hprice : 0 < price) (h : x ≤ max 0 (c / price)) :
    x * price ≤ max 0 c := by
  calc x * price ≤ max 0 (c / price) * price := mul_le_mul_of_nonneg_right h hprice.le
    _ = max 0 c := by rw [max_mul_of_nonneg _ _ hprice.le, zero_mul, div_mul_cancel₀ _ hprice.ne']

theorem slot_nonneg (cash : ℚ) (n : ℤ) : 0 ≤ max 0 cash / slots n :=
  div_nonneg (le_max_left _ _) (by exact_mod_cast (one_le_slots n).trans' zero_le_one)

theorem gedeckelt_zero : Gedeckelt cfg rm a 0 where
  nonneg := le_rfl
  position_cap := by rw [zero_mul]; exact le_max_left _ _
  cash := by rw [zero_mul]; exact slot_nonneg _ _
  total_exposure_cap _ _ _ _ := by rw [zero_mul]; exact le_max_left _ _
  exposure_unknown _ _ _ := rfl
  max_loss_per_trade _ _ := by rw [zero_mul]; exact le_max_left _ _
  compliance_order_value h := by rw [zero_mul]; exact mul_nonneg h.le (by norm_num)

/-- What is behind the exposure shrinks. -/
theorem shrinks_stepKelly_comp (hkelly : ∀ kelly, cfg.kellyFractionCap = some kelly → kelly ≤ 1)
    (atr : ℚ) : Shrinks (stepComplianceOrderValue cfg rm a.currentPrice ∘
      stepMaxLossPerTrade rm a.currentPrice atr a.stopLossAtrMultiplier ∘ stepKelly cfg) :=
  shrinks_stepComplianceOrderValue.comp
    ((shrinks_stepMaxLossPerTrade _ _).comp (shrinks_stepKelly hkelly))

theorem shrinks_nachCash (hkelly : ∀ kelly, cfg.kellyFractionCap = some kelly → kelly ≤ 1)
    (atr : ℚ) : Shrinks (nachCash cfg rm a atr) :=
  (shrinks_stepKelly_comp hkelly atr).comp shrinks_stepTotalExposureCap

theorem max_loss_of_pos (hprice : 0 < a.currentPrice) {atr : ℚ} (hatr : 0 < atr)
    (hmul : 0 < a.stopLossAtrMultiplier) (target : Option ℚ) (numShares : ℚ) :
    cappedSize cfg rm a atr target numShares * (atr * a.stopLossAtrMultiplier) ≤
      max 0 rm.maxLossPerTrade := by
  have hrisk : 0 < atr * a.stopLossAtrMultiplier := mul_pos hatr hmul
  rw [cappedSize, nachCash]
  refine (mul_le_mul_of_nonneg_right (shrinks_stepComplianceOrderValue _) hrisk.le).trans ?_
  rw [max_mul_of_nonneg _ _ hrisk.le, zero_mul]
  exact max_le (le_max_left _ _) (stepMaxLossPerTrade_mul_le hprice hatr hmul _)

/-- A size behind the caps keeps to all of them. -/
theorem gedeckelt_cappedSize (hprice : 0 < a.currentPrice)
    (hforbid : cfg.riskForbidLeverage = true)
    (hkelly : ∀ kelly, cfg.kellyFractionCap = some kelly → kelly ≤ 1) {atr : ℚ}
    (hatr : a.atr = some atr) (hpos : 0 < atr) (target : Option ℚ) (numShares : ℚ)
    (hx : 0 ≤ cappedSize cfg rm a atr target numShares) :
    Gedeckelt cfg rm a (cappedSize cfg rm a atr target numShares) where
  nonneg := hx
  position_cap :=
    mul_le_of_le_max_div hprice (((shrinks_nachCash hkelly atr).comp
      (shrinks_stepCash _ _ target)).le_max (caps_stepPositionCap hprice numShares))
  cash := by
    have hcash : cappedSize cfg rm a atr target numShares ≤
        max 0 (max 0 (a.accountCash - cfg.riskCashBufferUsd) / slots a.numStocksInStrategy /
          a.currentPrice) :=
      (shrinks_nachCash hkelly atr).le_max (caps_stepCash hprice hforbid _ _ target _)
    have hslot := mul_le_of_le_max_div hprice hcash
    rwa [max_eq_right (slot_nonneg _ _)] at hslot
  total_exposure_cap pct positions hpct hclient :=
    mul_le_of_le_max_div hprice ((shrinks_stepKelly_comp hkelly atr).le_max
      (caps_stepTotalExposureCap hprice hpct hclient _))
  exposure_unknown pct hpct hclient := by
    have hzero : cappedSize cfg rm a atr target numShares ≤ max 0 0 :=
      (shrinks_stepKelly_comp hkelly atr).le_max (caps_stepTotalExposureCap_none hprice hpct hclient _)
    rw [max_self] at hzero
    exact le_antisymm hzero hx
  max_loss_per_trade atr' hatr' := by
    obtain rfl : atr' = atr := Option.some.inj (hatr'.symm.trans hatr)
    rcases le_or_gt a.stopLossAtrMultiplier 0 with hmul | hmul
    · exact (mul_nonpos_of_nonneg_of_nonpos hx (mul_nonpos_of_nonneg_of_nonpos hpos.le hmul)).trans
        (le_max_left _ _)
    · exact max_loss_of_pos hprice hpos hmul target numShares
  compliance_order_value hlimit := by
    have hcap : cappedSize cfg rm a atr target numShares ≤
        max 0 (maxOrderValue cfg rm * (9999 / 10000) / a.currentPrice) :=
      caps_stepComplianceOrderValue hprice hlimit _
    have hvalue := mul_le_of_le_max_div hprice hcap
    rwa [max_eq_right (mul_nonneg hlimit.le (by norm_num))] at hvalue

/-- The size that is returned is a size that keeps to every cap, rounded to six places and
cut to whole shares where there are no fractions, or nothing. -/
theorem calculatePositionSize_gedeckelt (hprice : 0 < a.currentPrice)
    (hforbid : cfg.riskForbidLeverage = true)
    (hkelly : ∀ kelly, cfg.kellyFractionCap = some kelly → kelly ≤ 1) :
    ∃ x, Gedeckelt cfg rm a x ∧ Gerundet a.allowFractional x (calculatePositionSize cfg rm a) ∧
      0 ≤ calculatePositionSize cfg rm a ∧
      calculatePositionSize cfg rm a ≤ x + 1 / 2 / 10 ^ 6 := by
  obtain ⟨x, hx, hround⟩ : ∃ x, Gedeckelt cfg rm a x ∧
      Gerundet a.allowFractional x (calculatePositionSize cfg rm a) := by
    rcases calculatePositionSize_cases cfg rm a with hzero | ⟨atr, target, n, hatr, hpos, hround⟩
    · rw [hzero]
      exact ⟨0, gedeckelt_zero, .nichts⟩
    · rcases hround.zero_or_pos with hzero | hx
      · rw [hzero]
        exact ⟨0, gedeckelt_zero, .nichts⟩
      · exact ⟨_, gedeckelt_cappedSize hprice hforbid hkelly hatr hpos target n hx.le, hround⟩
  refine ⟨x, hx, hround, hround.nonneg, ?_⟩
  simpa only [max_eq_right hx.nonneg] using hround.le

end

/-! ## A size above its slot -/

/-- The defaults of the configuration, with a Kelly fraction of one. -/
def standard : Konfig :=
  { maxPositionPercent := 25 / 100
    maxPositionPercentSizing := 30 / 100
    minPositionPercent := 5 / 100
    enableDynamicSizing := true
    cleanWeightSizing := .b
    effectiveMaxPositions := 20
    riskForbidLeverage := true
    riskCashBufferUsd := 1
    proportionalSlotCashEnabled := true
    maxTotalExposurePct := some (95 / 100)
    exposureClampMinNotionalUsd := 0
    kellyFractionCap := some 1
    complianceMaxOrderValue := 10000
    minOrderValueUsd := 1 }

/-- An account of a hundred thousand without positions. -/
def konto : RiskManager :=
  { totalCapital := 100000
    riskPerTradePercent := 2 / 100
    maxLossPerTrade := 1500
    policyMaxOrderValue := none
    client := some (some [])
    tradingHalted := false
    tradingReduced := false
    isHalted := false }

/-- A stock at seven dollars, with a thousand dollars of cash. -/
def siebenDollar : Auftrag :=
  { stopLossAtrMultiplier := 3
    atr := some (2 / 10)
    confidence := .medium
    sizeScaler := 1
    numStocksInStrategy := 1
    currentPrice := 7
    accountCash := 1000
    allowFractional := true
    convictionScore := 1 / 2
    vixRiskScaler := 1
    volScaler := 1
    skewTilt := 1
    coverageDiscount := 1 }

theorem siebenDollar_gedeckelt : ∃ x, Gedeckelt standard konto siebenDollar x ∧
    Gerundet true x (calculatePositionSize standard konto siebenDollar) ∧
      0 ≤ calculatePositionSize standard konto siebenDollar ∧
      calculatePositionSize standard konto siebenDollar ≤ x + 1 / 2 / 10 ^ 6 := by
  refine calculatePositionSize_gedeckelt (by decide +kernel) rfl fun kelly h => ?_
  exact (Option.some.inj h).ge

theorem calculatePositionSize_siebenDollar :
    calculatePositionSize standard konto siebenDollar = 142714286 / 1000000 := by decide +kernel

/-- 142.714286 shares at seven dollars cost more than the 999 dollars of the slot. -/
theorem siebenDollar_ueber_slot : siebenDollar.atr = some (2 / 10) ∧
    standard.riskForbidLeverage = true ∧ standard.kellyFractionCap = some 1 ∧
      max 0 (siebenDollar.accountCash - standard.riskCashBufferUsd) /
          slots siebenDollar.numStocksInStrategy <
        calculatePositionSize standard konto siebenDollar * siebenDollar.currentPrice := by
  rw [calculatePositionSize_siebenDollar]
  exact ⟨rfl, rfl, rfl, by decide +kernel⟩

end Bemessung
