import AutonomousEngine.Bemessung.Groesse

/-!
# Which steps keep the order of two sizes

Behind the free cash a smaller size should give no larger order.  The loss at the stop, the
value of an order and the exit of the funnel keep the order of two sizes.  The exposure
does not when its room is a rest below the entry floor: a size that fits into the rest
passes, and a larger one is dropped with it (`ordnungstreu_iff`).
-/

namespace Bemessung

open Basis

section

variable (cfg : Konfig) (rm : RiskManager) (a : Auftrag) (atr : ℚ)

/-- The order that a size gives behind the free cash. -/
def orderNachCash (numShares : ℚ) : ℚ :=
  sizingOrderFloor cfg a.currentPrice a.allowFractional (nachCash cfg rm a atr numShares)

/-- Every step behind the free cash keeps the order of two sizes, and so does the whole row. -/
structure Monoton : Prop where
  totalExposureCap : Monotone (stepTotalExposureCap cfg rm a.currentPrice)
  kelly : Monotone (stepKelly cfg)
  maxLossPerTrade : Monotone
    (stepMaxLossPerTrade rm a.currentPrice atr a.stopLossAtrMultiplier)
  complianceOrderValue : Monotone (stepComplianceOrderValue cfg rm a.currentPrice)
  orderFloor : Monotone (sizingOrderFloor cfg a.currentPrice a.allowFractional)
  order : Monotone (orderNachCash cfg rm a atr)

/-- The cap of the exposure is in force at this price, and its room is a rest below the entry
floor. -/
def RestUnterBoden (currentPrice : ℚ) : Prop :=
  0 < currentPrice ∧ ∃ pct positions, cfg.maxTotalExposurePct = some pct ∧
    rm.client = some (some positions) ∧
    0 < rm.totalCapital * pct - totalPositionValue positions ∧
    rm.totalCapital * pct - totalPositionValue positions < cfg.exposureClampMinNotionalUsd

end

section

variable {cfg : Konfig} {rm : RiskManager} {currentPrice : ℚ}

/-! ## The exposure -/

theorem exposureClamp_of_le {room x : ℚ} (h : x * currentPrice ≤ room) :
    exposureClamp cfg currentPrice room x = x := by
  rw [exposureClamp, if_neg (not_lt.mpr h)]

/-- What is too large for the room gets the room, or nothing of a rest below the floor. -/
theorem exposureClamp_of_lt (hprice : 0 < currentPrice) {room x : ℚ} (h : room < x * currentPrice) :
    exposureClamp cfg currentPrice room x =
      if 0 < room ∧ room < cfg.exposureClampMinNotionalUsd then 0
      else max 0 (room / currentPrice) := by
  rw [exposureClamp, if_pos h]
  rcases le_or_gt room 0 with hroom | hroom
  · have hnone : max 0 (room / currentPrice) = 0 :=
      max_eq_left (div_nonpos_of_nonpos_of_nonneg hroom hprice.le)
    simp only [hnone, ite_self]
  · have hsome : max 0 (room / currentPrice) = room / currentPrice :=
      max_eq_right (div_nonneg hroom.le hprice.le)
    rw [hsome]
    simp only [div_mul_cancel₀ _ hprice.ne']
    by_cases hfloor : room < cfg.exposureClampMinNotionalUsd
    · rw [if_pos ⟨hroom.trans hfloor, hroom, hfloor⟩, if_pos ⟨hroom, hfloor⟩]
    · rw [if_neg fun hrest => hfloor hrest.2.2, if_neg fun hrest => hfloor hrest.2]

theorem monotone_exposureClamp (hprice : 0 < currentPrice) {room : ℚ}
    (h : ¬(0 < room ∧ room < cfg.exposureClampMinNotionalUsd)) :
    Monotone (exposureClamp cfg currentPrice room) := by
  have heq : exposureClamp cfg currentPrice room =
      fun x => if room < x * currentPrice then max 0 (room / currentPrice) else x := by
    funext x
    split
    next hlt => rw [exposureClamp_of_lt hprice hlt, if_neg h]
    next hle => exact exposureClamp_of_le (not_lt.mp hle)
  rw [heq]
  refine monotone_switch (fun x y hxy hx => ?_) (fun _ _ hxy _ => hxy) (fun _ _ _ _ => le_rfl)
    fun x y _ hx _ => ?_
  · exact hx.trans_le (mul_le_mul_of_nonneg_right hxy hprice.le)
  · exact le_max_of_le_right ((le_div_iff₀ hprice).mpr (not_lt.mp hx))

/-- A rest below the floor: the size that takes it passes, and a larger one gets nothing. -/
theorem not_monotone_exposureClamp (hprice : 0 < currentPrice) {room : ℚ} (hroom : 0 < room)
    (hfloor : room < cfg.exposureClampMinNotionalUsd) :
    ¬Monotone (exposureClamp cfg currentPrice room) := by
  intro hmono
  have hfits : exposureClamp cfg currentPrice room (room / currentPrice) = room / currentPrice :=
    exposureClamp_of_le (div_mul_cancel₀ _ hprice.ne').le
  have hlarge : exposureClamp cfg currentPrice room (room / currentPrice + 1) = 0 := by
    have hlt : room < (room / currentPrice + 1) * currentPrice := by
      rw [add_mul, div_mul_cancel₀ _ hprice.ne']
      linarith
    rw [exposureClamp_of_lt hprice hlt, if_pos ⟨hroom, hfloor⟩]
  have hle := hmono (le_add_of_nonneg_right zero_le_one : room / currentPrice ≤
    room / currentPrice + 1)
  rw [hfits, hlarge] at hle
  exact absurd (div_pos hroom hprice) (not_lt.mpr hle)

theorem monotone_stepTotalExposureCap_iff :
    Monotone (stepTotalExposureCap cfg rm currentPrice) ↔ ¬RestUnterBoden cfg rm currentPrice := by
  constructor
  · rintro hmono ⟨hprice, pct, positions, hpct, hclient, hroom, hfloor⟩
    refine not_monotone_exposureClamp hprice hroom hfloor fun x y hxy => ?_
    have hstep := hmono hxy
    rwa [stepTotalExposureCap, stepTotalExposureCap, if_pos hprice, if_pos hprice, hpct,
      hclient] at hstep
  · intro h x y hxy
    rw [stepTotalExposureCap.eq_def, stepTotalExposureCap.eq_def cfg rm currentPrice y]
    split
    next hprice =>
      split
      next pct positions hpct hclient =>
        exact monotone_exposureClamp hprice
          (fun hrest => h ⟨hprice, pct, positions, hpct, hclient, hrest⟩) hxy
      next => exact le_rfl
      next => exact hxy
    next => exact hxy

/-! ## The other steps -/

theorem monotone_stepKelly_iff :
    Monotone (stepKelly cfg) ↔ ∀ kelly, cfg.kellyFractionCap = some kelly → 0 ≤ kelly := by
  constructor
  · intro hmono kelly hkelly
    have hle := hmono (one_le_two : (1 : ℚ) ≤ 2)
    rw [stepKelly, stepKelly, hkelly] at hle
    simp only [zero_lt_one, zero_lt_two, if_true] at hle
    linarith
  · intro h
    cases hkelly : cfg.kellyFractionCap with
    | none =>
        intro x y hxy
        rw [stepKelly, stepKelly, hkelly]
        exact hxy
    | some kelly =>
        have hpos := h kelly hkelly
        have heq : stepKelly cfg = fun x => if 0 < x then x * kelly else x := by
          funext x
          rw [stepKelly, hkelly]
        rw [heq]
        exact monotone_switch (fun _ _ hxy hx => hx.trans_le hxy) (fun _ _ hxy _ => hxy)
          (fun _ _ hxy _ => mul_le_mul_of_nonneg_right hxy hpos)
          fun _ _ _ hx hy => (not_lt.mp hx).trans (mul_nonneg hy.le hpos)

theorem monotone_stepMaxLossPerTrade (atr multiplier : ℚ) :
    Monotone (stepMaxLossPerTrade rm currentPrice atr multiplier) := by
  by_cases hactive : 0 < multiplier ∧ 0 < atr ∧ 0 < currentPrice
  · obtain ⟨hmultiplier, hatr, hprice⟩ := hactive
    have hpos : 0 < atr * multiplier := mul_pos hatr hmultiplier
    have heq : stepMaxLossPerTrade rm currentPrice atr multiplier =
        fun x => if rm.maxLossPerTrade / (atr * multiplier) < x then
          max 0 (rm.maxLossPerTrade / (atr * multiplier)) else x := by
      funext x
      have hboth : rm.maxLossPerTrade < x * atr * multiplier ↔
          rm.maxLossPerTrade / (atr * multiplier) < x := by
        rw [mul_assoc, div_lt_iff₀ hpos]
      simp only [stepMaxLossPerTrade, hboth, hmultiplier, hatr, hprice, true_and, and_self]
    rw [heq]
    exact monotone_switch (fun _ _ hxy hx => hx.trans_le hxy) (fun _ _ hxy _ => hxy)
      (fun _ _ _ _ => le_rfl) fun _ _ _ hx _ => le_max_of_le_right (not_lt.mp hx)
  · intro x y hxy
    rw [stepMaxLossPerTrade, stepMaxLossPerTrade,
      if_neg fun h => hactive ⟨h.1, h.2.1, h.2.2.1⟩, if_neg fun h => hactive ⟨h.1, h.2.1, h.2.2.1⟩]
    exact hxy

theorem monotone_stepComplianceOrderValue :
    Monotone (stepComplianceOrderValue cfg rm currentPrice) := by
  intro x y hxy
  rw [stepComplianceOrderValue, stepComplianceOrderValue]
  split
  next => exact monotone_cut _ hxy
  next => exact hxy

/-! ## The exit -/

theorem ohneBruch_mono {x y : ℚ} (h : x ≤ y) : ohneBruch x ≤ ohneBruch y := by
  rw [ohneBruch, ohneBruch]
  split_ifs with hx hy hy
  · exact Int.floor_mono h
  · exact absurd (hx.trans h) hy
  · exact (Int.ceil_nonpos.mpr (not_le.mp hx).le).trans (Int.floor_nonneg.mpr hy)
  · exact Int.ceil_mono h

theorem monotone_dustFilter : Monotone (dustFilter cfg currentPrice) := by
  intro x y hxy
  rw [dustFilter, dustFilter]
  split_ifs with hx hy hy
  · exact le_rfl
  · exact hx.2.1.le.trans hxy
  · by_contra hpos
    have hvalue : x * currentPrice ≤ y * currentPrice :=
      mul_le_mul_of_nonneg_right hxy hy.1.le
    exact hx ⟨hy.1, not_le.mp hpos, hvalue.trans_lt hy.2.2⟩
  · exact hxy

theorem unterMindest_of_le {x y : ℚ} (h : x ≤ y) (hx : ¬unterMindest currentPrice x = true) :
    ¬unterMindest currentPrice y = true := by
  rw [unterMindest] at hx ⊢
  split at hx
  next hprice =>
    rw [decide_eq_true_eq, not_lt] at hx
    rw [if_pos hprice, decide_eq_true_eq, not_lt]
    exact hx.trans h
  next hprice =>
    rw [decide_eq_true_eq, not_lt] at hx
    rw [if_neg hprice, decide_eq_true_eq, not_lt]
    exact hx.trans h

theorem sizingOrderFloor_of_not {x : ℚ} (h : ¬unterMindest currentPrice x = true)
    (allowFractional : Bool) : sizingOrderFloor cfg currentPrice allowFractional x =
      if allowFractional = true then dustFilter cfg currentPrice (roundTo 6 x)
      else if ohneBruch (roundTo 6 x) < 1 then 0
      else dustFilter cfg currentPrice (ohneBruch (roundTo 6 x)) := by
  rw [sizingOrderFloor, if_neg h]

theorem monotone_sizingOrderFloor (allowFractional : Bool) :
    Monotone (sizingOrderFloor cfg currentPrice allowFractional) := by
  intro x y hxy
  have hnonneg : 0 ≤ sizingOrderFloor cfg currentPrice allowFractional y :=
    (gerundet_sizingOrderFloor allowFractional y).nonneg
  by_cases hx : unterMindest currentPrice x = true
  · rw [sizingOrderFloor, if_pos hx]
    exact hnonneg
  · have hround : roundTo 6 x ≤ roundTo 6 y := roundTo_mono hxy
    have hwhole : ohneBruch (roundTo 6 x) ≤ ohneBruch (roundTo 6 y) := ohneBruch_mono hround
    rw [sizingOrderFloor_of_not (unterMindest_of_le hxy hx)] at hnonneg ⊢
    rw [sizingOrderFloor_of_not hx]
    cases allowFractional with
    | true => exact monotone_dustFilter hround
    | false =>
        simp only [Bool.false_eq_true, if_false] at hnonneg ⊢
        by_cases hone : ohneBruch (roundTo 6 x) < 1
        · rw [if_pos hone]
          exact hnonneg
        · rw [if_neg hone, if_neg (by omega)]
          exact monotone_dustFilter (by exact_mod_cast hwhole)

/-! ## The row -/

theorem Monoton.intro (a : Auftrag) (atr : ℚ)
    (hexposure : Monotone (stepTotalExposureCap cfg rm a.currentPrice))
    (hkelly : Monotone (stepKelly cfg)) : Monoton cfg rm a atr where
  totalExposureCap := hexposure
  kelly := hkelly
  maxLossPerTrade := monotone_stepMaxLossPerTrade atr a.stopLossAtrMultiplier
  complianceOrderValue := monotone_stepComplianceOrderValue
  orderFloor := monotone_sizingOrderFloor a.allowFractional
  order := (monotone_sizingOrderFloor a.allowFractional).comp
    (monotone_stepComplianceOrderValue.comp
      ((monotone_stepMaxLossPerTrade atr a.stopLossAtrMultiplier).comp
        (hkelly.comp hexposure)))

end

def fuenfDollarBoden : Konfig := { standard with exposureClampMinNotionalUsd := 5 }

/-- Three dollars of room under the exposure. -/
def fastVoll : RiskManager := { konto with client := some (some [some 94997]) }

def einDollar : Auftrag := { siebenDollar with currentPrice := 1 }

end Bemessung
