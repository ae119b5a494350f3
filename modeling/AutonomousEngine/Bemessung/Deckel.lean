import AutonomousEngine.Basis.Funnel
import AutonomousEngine.Basis.Rounding

/-!
# The caps of the sizing

A size in shares goes through the caps one after the other: the share of the capital, the
free cash of a slot, the exposure of the book, the Kelly fraction, the loss at the stop and
the value of an order.  At the exit of the funnel it is dropped when it is too small, and
rounded.  Every step before the exit shrinks and keeps to its own cap; the rounding alone
may lift the size, by half a millionth of a share.
-/

namespace Bemessung

open Basis

/-! ## What the sizing reads -/

/-- The mode of `CLEAN_WEIGHT_SIZING`, without spaces and in lower case. -/
inductive Modus where
  | a
  | b
  | andere
deriving DecidableEq

structure Konfig where
  maxPositionPercent : ℚ
  maxPositionPercentSizing : ℚ
  minPositionPercent : ℚ
  enableDynamicSizing : Bool
  cleanWeightSizing : Modus
  effectiveMaxPositions : ℤ
  riskForbidLeverage : Bool
  riskCashBufferUsd : ℚ
  proportionalSlotCashEnabled : Bool
  maxTotalExposurePct : Option ℚ
  exposureClampMinNotionalUsd : ℚ
  kellyFractionCap : Option ℚ
  complianceMaxOrderValue : ℚ
  minOrderValueUsd : ℚ

/-- The market values of the positions, `none` for a position without one.  The query may
fail, and so may reading a value. -/
abbrev Abfrage := Option (List (Option ℚ))

/-- The state of the risk manager.  `isHalted` is the answer of the kill switch. -/
structure RiskManager where
  totalCapital : ℚ
  riskPerTradePercent : ℚ
  maxLossPerTrade : ℚ
  policyMaxOrderValue : Option ℚ
  client : Option Abfrage
  tradingHalted : Bool
  tradingReduced : Bool
  isHalted : Bool

def totalPositionValue (positions : List (Option ℚ)) : ℚ := (positions.map (·.getD 0)).sum

/-! ## The steps -/

section

variable (cfg : Konfig) (rm : RiskManager) (currentPrice : ℚ)

def gekappt (maxShares numShares : ℚ) : ℚ := if maxShares < numShares then maxShares else numShares

def stepPositionCap (numShares : ℚ) : ℚ :=
  if 0 < currentPrice then
    gekappt (rm.totalCapital * cfg.maxPositionPercent / currentPrice) numShares
  else numShares

/-- The part of a slot that a position may claim. -/
def sizingCashDemandFraction (sizingTargetValue : Option ℚ) : ℚ :=
  match sizingTargetValue with
  | none => 1
  | some target =>
      if cfg.cleanWeightSizing = .a ∨ cfg.cleanWeightSizing = .b then
        let slotW : ℚ := 1 / (max 1 cfg.effectiveMaxPositions : ℤ)
        if 0 < slotW ∧ 0 < rm.totalCapital then
          max 0 (min 1 (target / rm.totalCapital / slotW))
        else 1
      else if 0 < cfg.maxPositionPercentSizing ∧ cfg.proportionalSlotCashEnabled = true ∧
          0 < rm.totalCapital * cfg.maxPositionPercentSizing then
        max 0 (min 1 (target / (rm.totalCapital * cfg.maxPositionPercentSizing)))
      else 1

/-- The number of slots that share the cash. -/
def slots (numStocksInStrategy : ℤ) : ℤ :=
  max 1 (if numStocksInStrategy = 0 then 1 else numStocksInStrategy)

def maxSharesByCash (accountCash : ℚ) (numStocksInStrategy : ℤ) (fraction : ℚ) : ℚ :=
  let shares :=
    (accountCash - cfg.riskCashBufferUsd) / slots numStocksInStrategy * fraction / currentPrice
  if shares < 0 then 0 else shares

def stepCash (accountCash : ℚ) (numStocksInStrategy : ℤ) (sizingTargetValue : Option ℚ)
    (numShares : ℚ) : ℚ :=
  if 0 < currentPrice ∧ (0 < accountCash ∨ cfg.riskForbidLeverage = true) then
    gekappt (maxSharesByCash cfg currentPrice accountCash numStocksInStrategy
      (sizingCashDemandFraction cfg rm sizingTargetValue)) numShares
  else numShares

/-- The size that the room under the exposure leaves. -/
def exposureClamp (maxNewExposure numShares : ℚ) : ℚ :=
  if maxNewExposure < numShares * currentPrice then
    let shares := max 0 (maxNewExposure / currentPrice)
    -- a rest below the entry floor is dropped, not bought
    if 0 < cfg.exposureClampMinNotionalUsd ∧ 0 < shares * currentPrice ∧
        shares * currentPrice < cfg.exposureClampMinNotionalUsd then 0
    else shares
  else numShares

def stepTotalExposureCap (numShares : ℚ) : ℚ :=
  if 0 < currentPrice then
    match cfg.maxTotalExposurePct, rm.client with
    | some pct, some (some positions) =>
        exposureClamp cfg currentPrice (rm.totalCapital * pct - totalPositionValue positions)
          numShares
    -- the positions are not known: no new exposure
    | some _, some none => 0
    | _, _ => numShares
  else numShares

def stepKelly (numShares : ℚ) : ℚ :=
  match cfg.kellyFractionCap with
  | some kelly => if 0 < numShares then numShares * kelly else numShares
  | none => numShares

def stepMaxLossPerTrade (atr stopLossAtrMultiplier numShares : ℚ) : ℚ :=
  if 0 < stopLossAtrMultiplier ∧ 0 < atr ∧ 0 < currentPrice ∧
      rm.maxLossPerTrade < numShares * atr * stopLossAtrMultiplier ∧
      rm.maxLossPerTrade / (atr * stopLossAtrMultiplier) < numShares then
    max 0 (rm.maxLossPerTrade / (atr * stopLossAtrMultiplier))
  else numShares

/-- The largest value of an order: of the policy in force, else of the configuration. -/
def maxOrderValue : ℚ := rm.policyMaxOrderValue.getD cfg.complianceMaxOrderValue

def stepComplianceOrderValue (numShares : ℚ) : ℚ :=
  if 0 < currentPrice ∧ 0 < maxOrderValue cfg rm then
    gekappt (maxOrderValue cfg rm * (9999 / 10000) / currentPrice) numShares
  else numShares

def ohneBruch (x : ℚ) : ℤ := if 0 ≤ x then ⌊x⌋ else ⌈x⌉

/-- Whether a size is too small to be an order. -/
def unterMindest (numShares : ℚ) : Bool :=
  if 0 < currentPrice then numShares < 1 / currentPrice else numShares < 1 / 1000

/-- A rounded size, nothing when it is not one whole share or not worth an order. -/
def dustFilter (numShares : ℚ) : ℚ :=
  if 0 < currentPrice ∧ 0 < numShares ∧ numShares * currentPrice < cfg.minOrderValueUsd then 0
  else numShares

def sizingOrderFloor (allowFractional : Bool) (numShares : ℚ) : ℚ :=
  if unterMindest currentPrice numShares = true then 0
  else
    let rounded := roundTo 6 numShares
    if allowFractional = true then dustFilter cfg currentPrice rounded
    else if ohneBruch rounded < 1 then 0
    else dustFilter cfg currentPrice (ohneBruch rounded)

end

/-! ## What a step keeps to -/

section

variable {cfg : Konfig} {rm : RiskManager} {currentPrice : ℚ}

theorem shrinks_gekappt (c : ℚ) : Shrinks (gekappt c) := fun x => cut_le_self c x

theorem caps_gekappt (c : ℚ) : Caps (gekappt c) c := fun x => cut_le c x

theorem caps_stepPositionCap (hprice : 0 < currentPrice) :
    Caps (stepPositionCap cfg rm currentPrice)
      (rm.totalCapital * cfg.maxPositionPercent / currentPrice) := by
  intro x
  rw [stepPositionCap, if_pos hprice]
  exact caps_gekappt _ x

theorem sizingCashDemandFraction_mem (target : Option ℚ) :
    0 ≤ sizingCashDemandFraction cfg rm target ∧ sizingCashDemandFraction cfg rm target ≤ 1 := by
  have hclamp (y : ℚ) : 0 ≤ max 0 (min 1 y) ∧ max 0 (min 1 y) ≤ 1 :=
    ⟨le_max_left _ _, max_le zero_le_one (min_le_left _ _)⟩
  have hone : (0 : ℚ) ≤ 1 ∧ (1 : ℚ) ≤ 1 := ⟨zero_le_one, le_rfl⟩
  rw [sizingCashDemandFraction.eq_def]
  split
  next => exact hone
  next =>
    dsimp only
    split_ifs
    · exact hclamp _
    · exact hone
    · exact hclamp _
    · exact hone

theorem one_le_slots (n : ℤ) : 1 ≤ slots n := le_max_left _ _

theorem slots_of_pos {n : ℤ} (h : 1 ≤ n) : slots n = n := by
  rw [slots, if_neg (by omega), max_eq_right h]

/-- The shares of a slot are paid by the slot. -/
theorem maxSharesByCash_le (hprice : 0 < currentPrice) {accountCash fraction : ℚ} {n : ℤ}
    (hfraction : 0 ≤ fraction ∧ fraction ≤ 1) :
    maxSharesByCash cfg currentPrice accountCash n fraction ≤
      max 0 (accountCash - cfg.riskCashBufferUsd) / slots n / currentPrice := by
  have hslots : (0 : ℚ) < slots n := by exact_mod_cast one_le_slots n
  have hslot : (accountCash - cfg.riskCashBufferUsd) / slots n * fraction ≤
      max 0 (accountCash - cfg.riskCashBufferUsd) / slots n := by
    calc (accountCash - cfg.riskCashBufferUsd) / slots n * fraction
        ≤ max 0 (accountCash - cfg.riskCashBufferUsd) / slots n * fraction :=
          mul_le_mul_of_nonneg_right
            (div_le_div_of_nonneg_right (le_max_right _ _) hslots.le) hfraction.1
      _ ≤ max 0 (accountCash - cfg.riskCashBufferUsd) / slots n :=
          mul_le_of_le_one_right (div_nonneg (le_max_left _ _) hslots.le) hfraction.2
  rw [maxSharesByCash]
  split
  next => exact div_nonneg (div_nonneg (le_max_left _ _) hslots.le) hprice.le
  next => exact div_le_div_of_nonneg_right hslot hprice.le

theorem shrinks_stepCash (accountCash : ℚ) (n : ℤ) (target : Option ℚ) :
    Shrinks (stepCash cfg rm currentPrice accountCash n target) := by
  intro x
  rw [stepCash]
  split
  next => exact shrinks_gekappt _ x
  next => exact le_max_right _ _

theorem caps_stepCash (hprice : 0 < currentPrice) (hforbid : cfg.riskForbidLeverage = true)
    (accountCash : ℚ) (n : ℤ) (target : Option ℚ) :
    Caps (stepCash cfg rm currentPrice accountCash n target)
      (max 0 (accountCash - cfg.riskCashBufferUsd) / slots n / currentPrice) := by
  intro x
  rw [stepCash, if_pos ⟨hprice, .inr hforbid⟩]
  exact (caps_gekappt _ x).trans (max_le_max le_rfl
    (maxSharesByCash_le hprice (sizingCashDemandFraction_mem target)))

theorem exposureClamp_le (hprice : 0 < currentPrice) (room x : ℚ) :
    exposureClamp cfg currentPrice room x ≤ max 0 (room / currentPrice) ∧
      exposureClamp cfg currentPrice room x ≤ max 0 x := by
  rw [exposureClamp]
  split
  next hlt =>
    have hroom : max 0 (room / currentPrice) ≤ max 0 x :=
      max_le_max le_rfl ((div_lt_iff₀ hprice).mpr hlt).le
    dsimp only
    split
    next => exact ⟨le_max_left _ _, le_max_left _ _⟩
    next => exact ⟨le_rfl, hroom⟩
  next hle =>
    have hroom : x ≤ room / currentPrice := (le_div_iff₀ hprice).mpr (not_lt.mp hle)
    exact ⟨hroom.trans (le_max_right _ _), le_max_right _ _⟩

theorem shrinks_stepTotalExposureCap : Shrinks (stepTotalExposureCap cfg rm currentPrice) := by
  intro x
  rw [stepTotalExposureCap]
  split
  next hprice =>
    split
    next => exact (exposureClamp_le hprice _ x).2
    next => exact le_max_left _ _
    next => exact le_max_right _ _
  next => exact le_max_right _ _

theorem caps_stepTotalExposureCap (hprice : 0 < currentPrice) {pct : ℚ}
    {positions : List (Option ℚ)} (hpct : cfg.maxTotalExposurePct = some pct)
    (hclient : rm.client = some (some positions)) :
    Caps (stepTotalExposureCap cfg rm currentPrice)
      ((rm.totalCapital * pct - totalPositionValue positions) / currentPrice) := by
  intro x
  rw [stepTotalExposureCap, if_pos hprice, hpct, hclient]
  exact (exposureClamp_le hprice _ x).1

/-- Without the positions there is no new exposure. -/
theorem caps_stepTotalExposureCap_none (hprice : 0 < currentPrice) {pct : ℚ}
    (hpct : cfg.maxTotalExposurePct = some pct) (hclient : rm.client = some none) :
    Caps (stepTotalExposureCap cfg rm currentPrice) 0 := by
  intro x
  rw [stepTotalExposureCap, if_pos hprice, hpct, hclient]
  exact le_max_left _ _

theorem stepKelly_le {k x : ℚ} (hkelly : ∀ kelly, cfg.kellyFractionCap = some kelly → kelly ≤ k)
    (hk : 1 ≤ k) : stepKelly cfg x ≤ max 0 (x * k) := by
  rw [stepKelly.eq_def]
  split
  next kelly hsome =>
    split
    next hpos =>
      have hmul : x * kelly ≤ x * k := mul_le_mul_of_nonneg_left (hkelly kelly hsome) hpos.le
      exact hmul.trans (le_max_right _ _)
    next hneg => exact (not_lt.mp hneg).trans (le_max_left _ _)
  next =>
    rcases le_total 0 x with hx | hx
    · exact (le_mul_of_one_le_right hx hk).trans (le_max_right _ _)
    · exact hx.trans (le_max_left _ _)

/-- A Kelly fraction of at most one shrinks. -/
theorem shrinks_stepKelly (h : ∀ kelly, cfg.kellyFractionCap = some kelly → kelly ≤ 1) :
    Shrinks (stepKelly cfg) := by
  intro x
  simpa only [mul_one] using stepKelly_le (x := x) h le_rfl

theorem shrinks_stepMaxLossPerTrade (atr multiplier : ℚ) :
    Shrinks (stepMaxLossPerTrade rm currentPrice atr multiplier) := by
  intro x
  rw [stepMaxLossPerTrade]
  split
  next h => exact max_le_max le_rfl h.2.2.2.2.le
  next => exact le_max_right _ _

/-- The loss at the stop stays within the limit. -/
theorem stepMaxLossPerTrade_mul_le (hprice : 0 < currentPrice) {atr multiplier : ℚ}
    (hatr : 0 < atr) (hmultiplier : 0 < multiplier) (x : ℚ) :
    stepMaxLossPerTrade rm currentPrice atr multiplier x * (atr * multiplier) ≤
      max 0 rm.maxLossPerTrade := by
  have hpos : 0 < atr * multiplier := mul_pos hatr hmultiplier
  rw [stepMaxLossPerTrade]
  split
  next =>
    rw [max_mul_of_nonneg _ _ hpos.le, zero_mul, div_mul_cancel₀ _ hpos.ne']
  next h =>
    refine le_trans ?_ (le_max_right _ _)
    by_contra hlt
    rw [not_le] at hlt
    exact h ⟨hmultiplier, hatr, hprice, by rwa [mul_assoc], (div_lt_iff₀ hpos).mpr hlt⟩

theorem shrinks_stepComplianceOrderValue :
    Shrinks (stepComplianceOrderValue cfg rm currentPrice) := by
  intro x
  rw [stepComplianceOrderValue]
  split
  next => exact shrinks_gekappt _ x
  next => exact le_max_right _ _

theorem caps_stepComplianceOrderValue (hprice : 0 < currentPrice) (h : 0 < maxOrderValue cfg rm) :
    Caps (stepComplianceOrderValue cfg rm currentPrice)
      (maxOrderValue cfg rm * (9999 / 10000) / currentPrice) := by
  intro x
  rw [stepComplianceOrderValue, if_pos ⟨hprice, h⟩]
  exact caps_gekappt _ x

/-! ## The exit of the funnel -/

/-- What the exit makes of a size: nothing, or the size to six places, cut to whole shares
where there are no fractions. -/
inductive Gerundet (allowFractional : Bool) (x : ℚ) : ℚ → Prop
  | nichts : Gerundet allowFractional x 0
  | bruchteil (hx : 0 < x) (h : allowFractional = true) : Gerundet allowFractional x (roundTo 6 x)
  | ganze (hx : 0 < x) (h : allowFractional = false) :
      Gerundet allowFractional x (⌊roundTo 6 x⌋ : ℤ)

theorem pos_of_unterMindest {x : ℚ} (h : ¬unterMindest currentPrice x = true) : 0 < x := by
  rw [unterMindest] at h
  split at h
  next hprice =>
    rw [decide_eq_true_eq, not_lt] at h
    exact (one_div_pos.mpr hprice).trans_le h
  next =>
    rw [decide_eq_true_eq, not_lt] at h
    exact lt_of_lt_of_le (by norm_num) h

variable (cfg currentPrice) in
theorem dustFilter_cases (x : ℚ) :
    dustFilter cfg currentPrice x = 0 ∨ dustFilter cfg currentPrice x = x := by
  rw [dustFilter]
  split
  next => exact .inl rfl
  next => exact .inr rfl

theorem roundTo_nonneg {n : ℕ} {x : ℚ} (hx : 0 ≤ x) : 0 ≤ roundTo n x :=
  le_roundTo (k := 0) (by rw [zero_mul, Int.cast_zero]) hx

theorem gerundet_sizingOrderFloor (allowFractional : Bool) (x : ℚ) :
    Gerundet allowFractional x (sizingOrderFloor cfg currentPrice allowFractional x) := by
  rw [sizingOrderFloor]
  split
  next => exact .nichts
  next hmin =>
    have hx := pos_of_unterMindest hmin
    dsimp only
    split
    next hfrac =>
      rcases dustFilter_cases cfg currentPrice (roundTo 6 x) with h | h
      · rw [h]
        exact .nichts
      · rw [h]
        exact .bruchteil hx hfrac
    next hfrac =>
      have hfloor : ohneBruch (roundTo 6 x) = ⌊roundTo 6 x⌋ :=
        if_pos (roundTo_nonneg hx.le)
      rw [hfloor]
      split
      next => exact .nichts
      next =>
        rcases dustFilter_cases cfg currentPrice (⌊roundTo 6 x⌋ : ℤ) with h | h
        · rw [h]
          exact .nichts
        · rw [h]
          exact .ganze hx (Bool.eq_false_of_not_eq_true hfrac)

theorem Gerundet.nonneg {allowFractional : Bool} {x q : ℚ} (h : Gerundet allowFractional x q) :
    0 ≤ q := by
  cases h with
  | nichts => exact le_rfl
  | bruchteil hx => exact roundTo_nonneg hx.le
  | ganze hx => exact_mod_cast Int.floor_nonneg.mpr (roundTo_nonneg hx.le)

/-- A size of nothing or less is not lifted. -/
theorem Gerundet.zero_or_pos {allowFractional : Bool} {x q : ℚ} (h : Gerundet allowFractional x q) :
    q = 0 ∨ 0 < x := by
  cases h with
  | nichts => exact .inl rfl
  | bruchteil hx => exact .inr hx
  | ganze hx => exact .inr hx

/-- The rounding lifts a size by half a millionth of a share at the most. -/
theorem Gerundet.le {allowFractional : Bool} {x q : ℚ} (h : Gerundet allowFractional x q) :
    q ≤ max 0 x + 1 / 2 / 10 ^ 6 := by
  have hround := roundTo_le_add 6 x
  have hmax := le_max_right 0 x
  cases h with
  | nichts => exact add_nonneg (le_max_left _ _) (by norm_num)
  | bruchteil hx => exact hround.trans (add_le_add_left hmax _)
  | ganze hx => exact (Int.floor_le _).trans (hround.trans (add_le_add_left hmax _))

end

end Bemessung
