import AutonomousEngine.Basis.Rounding

/-!
# The pressures on a position

An exit is decided by scores from zero to a hundred.  The loss of a position, its distance
from the high, the fade of its momentum, its news and the time it is held each have one.
For a loser the scores of the news and of the time never fall when the loss deepens or the
time grows, and neither does the one of the loss as long as the watch level is not below
`-8/3`: a loss above the watch level counts with fifteen points for each percent, one at
the watch level with forty.
-/

namespace IntelligentExit

open Basis

/-! ## What the analysis reads -/

structure LossTiers where
  watch : ℚ
  cut : ℚ
  escalation : ℚ
  hardStop : ℚ

structure PanicWindow where
  enabled : Bool
  hours : ℚ

/-- The trailing profile, `unbekannt` for a name that is none. -/
inductive Profil where
  | legacy
  | midterm
  | unbekannt

/-- The settings of a call. -/
structure Umgebung where
  tiers : LossTiers
  panic : PanicWindow
  profil : Profil
  momentumSellThreshold : ℚ

structure PositionContext where
  symbol : String
  entryPrice : ℚ
  currentPrice : ℚ
  highWaterMark : ℚ
  hoursHeld : ℚ
  lstmPrediction : ℚ
  newsScore : ℚ
  momentumHistory : List ℚ

def PositionContext.pnlPct (ctx : PositionContext) : ℚ :=
  if 0 < ctx.entryPrice then (ctx.currentPrice - ctx.entryPrice) / ctx.entryPrice * 100 else 0

def PositionContext.drawdownPct (ctx : PositionContext) : ℚ :=
  if 0 < ctx.highWaterMark then
    (ctx.highWaterMark - ctx.currentPrice) / ctx.highWaterMark * 100
  else 0

/-! ## The scores -/

def baseScore (t : LossTiers) (pnlPct : ℚ) : ℚ :=
  if pnlPct ≤ t.escalation then 90
  else if pnlPct ≤ t.cut then 70
  else if pnlPct ≤ t.watch then 40
  else |pnlPct| * 15

def timeMult (hoursHeld : ℚ) : ℚ :=
  if 72 ≤ hoursHeld then 3 / 2
  else if 24 ≤ hoursHeld then 7 / 5
  else if 4 ≤ hoursHeld then 6 / 5
  else 1

def calculateLossPressure (pnlPct hoursHeld : ℚ) (t : LossTiers) : ℚ :=
  if 0 ≤ pnlPct then 0
  else if pnlPct ≤ t.hardStop then 100
  else min 100 (baseScore t pnlPct * timeMult hoursHeld)

/-- A tier of the trailing stop: the least profit, the distance and the hours to hold. -/
structure TrailTier where
  minProfit : ℚ
  trail : ℚ
  hold : ℚ

def trailProfitTiers : List TrailTier :=
  [⟨2, 3 / 2, 1⟩, ⟨5, 5 / 2, 2⟩, ⟨10, 4, 4⟩, ⟨20, 6, 8⟩, ⟨35, 8, 12⟩]

def trailProfitTiersMidterm : List TrailTier :=
  [⟨2, 6, 72⟩, ⟨5, 8, 72⟩, ⟨10, 10, 96⟩, ⟨20, 12, 120⟩, ⟨35, 15, 120⟩]

def activeTrailTiers : Profil → List TrailTier
  | .legacy => trailProfitTiers
  | .midterm => trailProfitTiersMidterm
  | .unbekannt => trailProfitTiers

/-- The distance and the hours to hold below the lowest tier. -/
def activeSubtier : Profil → Option (ℚ × ℚ)
  | .legacy => some (3 / 2, 1)
  | .midterm => none
  | .unbekannt => some (3 / 2, 1)

/-- The distance and the hours to hold for a profit, by the highest tier that it reaches. -/
def aktiveStufe (profil : Profil) (pnlPct : ℚ) : Option (ℚ × ℚ) :=
  match (activeTrailTiers profil).reverse.find? (·.minProfit ≤ pnlPct) with
  | some tier => some (tier.trail, tier.hold)
  | none => activeSubtier profil

/-- The score of a distance from the high. -/
def abstandScore (trailingPct drawdownPct : ℚ) : ℚ :=
  if trailingPct ≤ drawdownPct then min 100 (85 + (drawdownPct - trailingPct) * 15)
  else
    let proximity := if 0 < trailingPct then drawdownPct / trailingPct * 100 else 0
    if 70 < proximity then proximity * (6 / 10) else 0

def calculateTrailingStopScore (profil : Profil) (pnlPct drawdownPct hoursHeld : ℚ) : ℚ :=
  if pnlPct ≤ 0 then 0
  else
    match aktiveStufe profil pnlPct with
    | none => 0
    | some (trailingPct, minHold) =>
        if hoursHeld < minHold then 0 else abstandScore trailingPct drawdownPct

def getDynamicTrailingStopPct (profil : Profil) (pnlPct : ℚ) : ℚ :=
  if pnlPct ≤ 0 then 0 else ((aktiveStufe profil pnlPct).map Prod.fst).getD 0

def lstmScore (threshold lstmPred pnlPct : ℚ) : ℚ :=
  if lstmPred < threshold then
    if 0 < pnlPct then 60 + |lstmPred| * 60 else 40 + |lstmPred| * 40
  else 0

/-- Whether every prediction is below the one before. -/
def faellt (recent : List ℚ) : Bool := (recent.zip recent.tail).all fun p => p.2 < p.1

/-- The score of the last three predictions. -/
def trendScore (momentumHistory : List ℚ) (pnlPct : ℚ) : ℚ :=
  if 3 ≤ momentumHistory.length then
    let recent := momentumHistory.drop (momentumHistory.length - 3)
    (if faellt recent = true then 25 else 0) +
      (if recent.sum / recent.length < -2 / 10 ∧ 5 < pnlPct then 30 else 0)
  else 0

def calculateMomentumFade (threshold lstmPred : ℚ) (momentumHistory : List ℚ) (pnlPct : ℚ) : ℚ :=
  min 100 (lstmScore threshold lstmPred pnlPct + trendScore momentumHistory pnlPct)

def calculateNewsPressure (newsScore pnlPct : ℚ) : ℚ :=
  if 0 ≤ newsScore then 0
  else
    let base := |newsScore| * 100
    min 100 (if 10 < pnlPct then base * (5 / 10) else if pnlPct < -2 then base * (13 / 10) else base)

def calculateTimePressure (pnlPct hoursHeld : ℚ) : ℚ :=
  if 0 ≤ pnlPct then 0
  else if hoursHeld < 4 then 0
  else if hoursHeld < 24 then (hoursHeld - 4) / 20 * 30
  else if hoursHeld < 72 then 30 + (hoursHeld - 24) / 48 * 30
  else min 100 (60 + (hoursHeld - 72) / 24 * 10)

/-! ## Losers -/

section

variable {t : LossTiers} {pnl pnl' hours hours' : ℚ}

theorem one_le_timeMult (hours : ℚ) : 1 ≤ timeMult hours := by
  rw [timeMult]
  split_ifs <;> norm_num

theorem timeMult_mono (h : hours ≤ hours') : timeMult hours ≤ timeMult hours' := by
  rw [timeMult, timeMult]
  split_ifs <;> linarith

theorem calculateTimePressure_mono (hneg : pnl < 0) (hneg' : pnl' < 0) (h : hours ≤ hours') :
    calculateTimePressure pnl hours ≤ calculateTimePressure pnl' hours' := by
  rw [calculateTimePressure, calculateTimePressure, if_neg (not_le.mpr hneg),
    if_neg (not_le.mpr hneg')]
  split_ifs <;> first | linarith | (refine le_min ?_ ?_ <;> linarith) |
    (refine min_le_min le_rfl ?_; linarith)

theorem calculateNewsPressure_mono (news : ℚ) (hneg : pnl < 0) (h : pnl' ≤ pnl) :
    calculateNewsPressure news pnl ≤ calculateNewsPressure news pnl' := by
  have habs := abs_nonneg news
  rw [calculateNewsPressure, calculateNewsPressure]
  split
  next => exact le_rfl
  next =>
    refine min_le_min le_rfl ?_
    split_ifs <;> linarith

/-- A loss above the watch level counts no more than one at the watch level, as long as that
level is not too deep. -/
theorem baseScore_anti (horder : t.escalation < t.cut ∧ t.cut < t.watch) (hwatch : -8 / 3 ≤ t.watch)
    (hneg : pnl < 0) (h : pnl' ≤ pnl) : baseScore t pnl ≤ baseScore t pnl' := by
  have habs : |pnl| = -pnl := abs_of_neg hneg
  have habs' : |pnl'| = -pnl' := abs_of_neg (h.trans_lt hneg)
  obtain ⟨hcut, hlevel⟩ := horder
  rw [baseScore, baseScore, habs, habs']
  split_ifs <;> linarith

theorem baseScore_nonneg (t : LossTiers) (pnl : ℚ) : 0 ≤ baseScore t pnl := by
  rw [baseScore]
  split_ifs
  · norm_num
  · norm_num
  · norm_num
  · positivity

theorem calculateLossPressure_mono (horder : t.escalation < t.cut ∧ t.cut < t.watch)
    (hwatch : -8 / 3 ≤ t.watch) (hneg : pnl < 0) (h : pnl' ≤ pnl) (hours_le : hours ≤ hours') :
    calculateLossPressure pnl hours t ≤ calculateLossPressure pnl' hours' t := by
  have hneg' : pnl' < 0 := h.trans_lt hneg
  rw [calculateLossPressure, calculateLossPressure, if_neg (not_le.mpr hneg),
    if_neg (not_le.mpr hneg')]
  have hprod : baseScore t pnl * timeMult hours ≤ baseScore t pnl' * timeMult hours' :=
    mul_le_mul (baseScore_anti horder hwatch hneg h) (timeMult_mono hours_le)
      (zero_le_one.trans (one_le_timeMult hours)) (baseScore_nonneg t pnl')
  split_ifs with hstop hstop'
  · exact le_rfl
  · exact absurd (h.trans hstop) hstop'
  · exact min_le_left _ _
  · exact min_le_min le_rfl hprod

/-- The momentum of a loser does not depend on its loss. -/
theorem calculateMomentumFade_of_neg (threshold lstm : ℚ) (history : List ℚ) (hneg : pnl < 0)
    (hneg' : pnl' < 0) : calculateMomentumFade threshold lstm history pnl =
      calculateMomentumFade threshold lstm history pnl' := by
  have hlstm : lstmScore threshold lstm pnl = lstmScore threshold lstm pnl' := by
    rw [lstmScore, lstmScore, if_neg (not_lt.mpr hneg.le), if_neg (not_lt.mpr hneg'.le)]
  have hfive : ¬5 < pnl := by linarith
  have hfive' : ¬5 < pnl' := by linarith
  have htrend : trendScore history pnl = trendScore history pnl' := by
    rw [trendScore, trendScore]
    simp only [hfive, hfive', and_false]
  rw [calculateMomentumFade, calculateMomentumFade, hlstm, htrend]

theorem calculateTrailingStopScore_of_neg (profil : Profil) (hneg : pnl < 0) (drawdown : ℚ) :
    calculateTrailingStopScore profil pnl drawdown hours = 0 := by
  rw [calculateTrailingStopScore, if_pos hneg.le]

end

end IntelligentExit
