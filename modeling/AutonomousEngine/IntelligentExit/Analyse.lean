import AutonomousEngine.IntelligentExit.Druck

/-!
# The analysis of an exit

Young positions are sold at the hard stop only.  Later the triggers are tried in order: the
trailing stop, the pressure of a deep loss, the fade of the momentum of a winner; and then
the weighted scores.  `entscheid_analyzeExit` says which branch is taken when.  A loss at
the hard stop and a trailing stop are risk exits, whatever the scores say
(`risikoausstieg`).
-/

namespace IntelligentExit

open Basis

/-! ## The result -/

inductive Tier where
  | risk
  | opinion
deriving DecidableEq

/-- The class of the reason of a sale. -/
inductive Klasse where
  | hardStop
  | trailing
  | lossCut
  | lossEscalation
  | momentumFade
  | composite
deriving DecidableEq

structure Verkaufsgrund where
  klasse : Klasse
  werte : List (String × ℚ)

/-- A part of the text of a weighted sale, with the number it names. -/
inductive Anlass where
  | lossPressure (pnlPct : ℚ)
  | trailingStopHit
  | momentumFading
  | negativeNews
  | timePressure (hoursHeld : ℚ)
  | combinedScore (totalScore : ℚ)
deriving DecidableEq

/-- The text of a reason, with the numbers it names. -/
inductive Reason where
  | leer
  | hardStop (pnlPct hardStop : ℚ)
  | panicProtection (hours : ℚ)
  | trailingStop (drawdownPct : ℚ)
  | lossCut (pnlPct applied score : ℚ)
  | momentumFade (pnlPct : ℚ)
  | sell (reasons : List Anlass)
  | hold (totalScore : ℚ)

structure ExitAnalysis where
  symbol : String
  pnlPct : ℚ
  hoursHeld : ℚ
  lossPressureScore : ℚ := 0
  trailingStopScore : ℚ := 0
  momentumFadeScore : ℚ := 0
  newsPressureScore : ℚ := 0
  timePressureScore : ℚ := 0
  totalScore : ℚ := 0
  shouldSell : Bool := false
  reason : Reason := .leer
  confidence : ℚ := 0
  tier : Tier := .risk
  verkaufsgrund : Option Verkaufsgrund := none

/-- The reason of a branch, its numbers rounded to two places. -/
def grund (klasse : Klasse) (werte : List (String × ℚ)) : Option Verkaufsgrund :=
  some { klasse := klasse, werte := werte.map fun w => (w.1, roundTo 2 w.2) }

/-! ## The branches -/

section

variable (env : Umgebung) (ctx : PositionContext)

/-- Whether a position is in the window in which only the hard stop sells. -/
def imFenster : Bool := env.panic.enabled && decide (ctx.hoursHeld < env.panic.hours)

/-- An analysis before anything is decided. -/
def anfang : ExitAnalysis :=
  { symbol := ctx.symbol, pnlPct := ctx.pnlPct, hoursHeld := ctx.hoursHeld }

def bewertet : ExitAnalysis :=
  { anfang ctx with
    lossPressureScore := calculateLossPressure ctx.pnlPct ctx.hoursHeld env.tiers
    trailingStopScore :=
      calculateTrailingStopScore env.profil ctx.pnlPct ctx.drawdownPct ctx.hoursHeld
    momentumFadeScore := calculateMomentumFade env.momentumSellThreshold ctx.lstmPrediction
      ctx.momentumHistory ctx.pnlPct
    newsPressureScore := calculateNewsPressure ctx.newsScore ctx.pnlPct
    timePressureScore := calculateTimePressure ctx.pnlPct ctx.hoursHeld }

def hardStopVerkauf : ExitAnalysis :=
  { anfang ctx with
    shouldSell := true
    reason := .hardStop ctx.pnlPct env.tiers.hardStop
    confidence := 1
    totalScore := 100
    tier := .risk
    verkaufsgrund := grund .hardStop [("verlust_pct", ctx.pnlPct), ("stufe", env.tiers.hardStop),
      ("haltedauer_h", ctx.hoursHeld)] }

def panicProtection : ExitAnalysis :=
  { anfang ctx with reason := .panicProtection env.panic.hours }

def trailingVerkauf : ExitAnalysis :=
  let a := bewertet env ctx
  { a with
    totalScore := a.trailingStopScore
    shouldSell := true
    confidence := 1
    tier := .risk
    reason := .trailingStop ctx.drawdownPct
    verkaufsgrund := grund .trailing [("gewinn_pct", ctx.pnlPct), ("hoch", ctx.highWaterMark),
      ("abstand_pct", ctx.drawdownPct), ("haltedauer_h", ctx.hoursHeld)] }

/-- The tier that a loss cut names, with its class. -/
def angewandt (t : LossTiers) (pnlPct : ℚ) : ℚ × Klasse :=
  if pnlPct ≤ t.hardStop then (t.hardStop, .hardStop)
  else if pnlPct ≤ t.escalation then (t.escalation, .lossEscalation)
  else (t.cut, .lossCut)

def lossCutVerkauf : ExitAnalysis :=
  let a := bewertet env ctx
  let applied := angewandt env.tiers ctx.pnlPct
  { a with
    totalScore := a.lossPressureScore
    shouldSell := true
    confidence := 1
    tier := .risk
    reason := .lossCut ctx.pnlPct applied.1 a.lossPressureScore
    verkaufsgrund := grund applied.2 [("verlust_pct", ctx.pnlPct), ("stufe", applied.1),
      ("haltedauer_h", ctx.hoursHeld), ("verlustdruck", a.lossPressureScore)] }

def momentumVerkauf : ExitAnalysis :=
  let a := bewertet env ctx
  { a with
    totalScore := a.momentumFadeScore
    shouldSell := true
    confidence := 9 / 10
    tier := .opinion
    reason := .momentumFade ctx.pnlPct
    verkaufsgrund := grund .momentumFade [("gewinn_pct", ctx.pnlPct),
      ("momentum_score", a.momentumFadeScore), ("haltedauer_h", ctx.hoursHeld)] }

/-- The scores weighted, for a loser and for a winner. -/
def gewichtet (a : ExitAnalysis) : ℚ :=
  if a.pnlPct < 0 then
    a.lossPressureScore * (45 / 100) + a.trailingStopScore * (5 / 100) +
      a.momentumFadeScore * (20 / 100) + a.newsPressureScore * (15 / 100) +
      a.timePressureScore * (15 / 100)
  else
    a.lossPressureScore * 0 + a.trailingStopScore * (40 / 100) +
      a.momentumFadeScore * (35 / 100) + a.newsPressureScore * (15 / 100) +
      a.timePressureScore * (10 / 100)

/-- The scores that the reason of a weighted sale names. -/
def sellReasons (a : ExitAnalysis) : List Anlass :=
  (if 50 ≤ a.lossPressureScore then [.lossPressure a.pnlPct] else []) ++
    (if 50 ≤ a.trailingStopScore then [.trailingStopHit] else []) ++
    (if 50 ≤ a.momentumFadeScore then [.momentumFading] else []) ++
    (if 50 ≤ a.newsPressureScore then [.negativeNews] else []) ++
    (if 50 ≤ a.timePressureScore then [.timePressure a.hoursHeld] else [])

def buildSellReason (a : ExitAnalysis) : List Anlass :=
  if sellReasons a = [] then [.combinedScore a.totalScore] else sellReasons a

def compositeVerkauf : ExitAnalysis :=
  let a := { bewertet env ctx with totalScore := gewichtet (bewertet env ctx) }
  { a with
    shouldSell := true
    confidence := min 1 (a.totalScore / 100)
    tier := .opinion
    reason := .sell (buildSellReason a)
    verkaufsgrund := grund .composite [("gesamt_score", a.totalScore), ("schwelle", 70),
      ("verlustdruck", a.lossPressureScore), ("trailing_score", a.trailingStopScore),
      ("momentum_score", a.momentumFadeScore), ("news_score", a.newsPressureScore),
      ("zeit_score", a.timePressureScore), ("pnl_pct", ctx.pnlPct),
      ("haltedauer_h", ctx.hoursHeld)] }

def gehalten : ExitAnalysis :=
  let total := gewichtet (bewertet env ctx)
  { bewertet env ctx with totalScore := total, reason := .hold total }

def analyzeExit : ExitAnalysis :=
  if imFenster env ctx = true then
    if ctx.pnlPct ≤ env.tiers.hardStop then hardStopVerkauf env ctx else panicProtection env ctx
  else if 85 ≤ (bewertet env ctx).trailingStopScore then trailingVerkauf env ctx
  else if 90 ≤ (bewertet env ctx).lossPressureScore then lossCutVerkauf env ctx
  else if 5 < ctx.pnlPct ∧ 80 ≤ (bewertet env ctx).momentumFadeScore then momentumVerkauf env ctx
  else if 70 ≤ gewichtet (bewertet env ctx) then compositeVerkauf env ctx
  else gehalten env ctx

/-! ## The decision -/

/-- Which branch is taken when. -/
inductive Entscheid : ExitAnalysis → Prop
  | hardStop (hfenster : imFenster env ctx = true) (hstop : ctx.pnlPct ≤ env.tiers.hardStop) :
      Entscheid (hardStopVerkauf env ctx)
  | panik (hfenster : imFenster env ctx = true) (hstop : ¬ctx.pnlPct ≤ env.tiers.hardStop) :
      Entscheid (panicProtection env ctx)
  | trailing (hfenster : ¬imFenster env ctx = true)
      (htrail : 85 ≤ (bewertet env ctx).trailingStopScore) : Entscheid (trailingVerkauf env ctx)
  | lossCut (hfenster : ¬imFenster env ctx = true)
      (htrail : ¬85 ≤ (bewertet env ctx).trailingStopScore)
      (hloss : 90 ≤ (bewertet env ctx).lossPressureScore) : Entscheid (lossCutVerkauf env ctx)
  | momentum (hfenster : ¬imFenster env ctx = true)
      (htrail : ¬85 ≤ (bewertet env ctx).trailingStopScore)
      (hloss : ¬90 ≤ (bewertet env ctx).lossPressureScore) (hpnl : 5 < ctx.pnlPct)
      (hfade : 80 ≤ (bewertet env ctx).momentumFadeScore) : Entscheid (momentumVerkauf env ctx)
  | composite (hfenster : ¬imFenster env ctx = true)
      (htrail : ¬85 ≤ (bewertet env ctx).trailingStopScore)
      (hloss : ¬90 ≤ (bewertet env ctx).lossPressureScore)
      (htotal : 70 ≤ gewichtet (bewertet env ctx)) : Entscheid (compositeVerkauf env ctx)
  | hold (hfenster : ¬imFenster env ctx = true)
      (htrail : ¬85 ≤ (bewertet env ctx).trailingStopScore)
      (hloss : ¬90 ≤ (bewertet env ctx).lossPressureScore)
      (hfade : ¬(5 < ctx.pnlPct ∧ 80 ≤ (bewertet env ctx).momentumFadeScore))
      (htotal : ¬70 ≤ gewichtet (bewertet env ctx)) : Entscheid (gehalten env ctx)

theorem entscheid_analyzeExit : Entscheid env ctx (analyzeExit env ctx) := by
  rw [analyzeExit]
  split_ifs with hfenster hstop htrail hloss hfade htotal
  · exact .hardStop hfenster hstop
  · exact .panik hfenster hstop
  · exact .trailing hfenster htrail
  · exact .lossCut hfenster htrail hloss
  · exact .momentum hfenster htrail hloss hfade.1 hfade.2
  · exact .composite hfenster htrail hloss htotal
  · exact .hold hfenster htrail hloss hfade htotal

end

/-! ## Risk exits -/

section

variable {env : Umgebung} {ctx : PositionContext}

/-- A profit is trailed at a distance that it has: its tier is held long enough and the
position is that far below its high. -/
def TrailingErreicht (env : Umgebung) (ctx : PositionContext) : Prop :=
  0 < ctx.pnlPct ∧
    (∃ stufe, aktiveStufe env.profil ctx.pnlPct = some stufe ∧ stufe.2 ≤ ctx.hoursHeld) ∧
    0 < getDynamicTrailingStopPct env.profil ctx.pnlPct ∧
    getDynamicTrailingStopPct env.profil ctx.pnlPct ≤ ctx.drawdownPct

theorem aktiveStufe_pos {profil : Profil} {pnl : ℚ} {stufe : ℚ × ℚ}
    (h : aktiveStufe profil pnl = some stufe) : 0 < stufe.1 := by
  have htiers : ∀ tier ∈ activeTrailTiers profil, 0 < tier.trail := by
    cases profil <;> decide +kernel
  rw [aktiveStufe.eq_def] at h
  split at h
  next tier hfind =>
    obtain rfl := Option.some.inj h
    exact htiers tier (List.mem_reverse.mp (List.mem_of_find?_eq_some hfind))
  next =>
    cases profil with
    | legacy =>
        obtain rfl := Option.some.inj h
        norm_num
    | midterm => cases h
    | unbekannt =>
        obtain rfl := Option.some.inj h
        norm_num

/-- The score of a distance passes eighty-five exactly when the distance is reached. -/
theorem abstandScore_iff {trail drawdown : ℚ} (htrail : 0 < trail) :
    85 ≤ abstandScore trail drawdown ↔ trail ≤ drawdown := by
  rw [abstandScore]
  split
  next h => exact iff_of_true (le_min (by norm_num) (by linarith)) h
  next h =>
    refine iff_of_false (not_le.mpr ?_) h
    have hproximity : drawdown / trail < 1 := (div_lt_one htrail).mpr (not_le.mp h)
    dsimp only
    split_ifs <;> linarith

theorem trailing_iff (env : Umgebung) (ctx : PositionContext) :
    85 ≤ (bewertet env ctx).trailingStopScore ↔ TrailingErreicht env ctx := by
  have hscore : (bewertet env ctx).trailingStopScore =
      calculateTrailingStopScore env.profil ctx.pnlPct ctx.drawdownPct ctx.hoursHeld := rfl
  rw [hscore, calculateTrailingStopScore, TrailingErreicht, getDynamicTrailingStopPct]
  split
  next hle =>
    exact iff_of_false (by norm_num) fun h => absurd h.1 (not_lt.mpr hle)
  next hpos =>
    cases hstufe : aktiveStufe env.profil ctx.pnlPct with
    | none => exact iff_of_false (by norm_num) fun h => by simp at h
    | some stufe =>
        have htrail := aktiveStufe_pos hstufe
        dsimp only [Option.map_some, Option.getD_some]
        split
        next hyoung =>
          refine iff_of_false (by norm_num) ?_
          rintro ⟨-, ⟨stufe', hsome, hheld⟩, -⟩
          obtain rfl := Option.some.inj hsome
          exact absurd hheld (not_le.mpr hyoung)
        next hheld =>
          rw [abstandScore_iff htrail]
          refine ⟨fun h => ⟨not_le.mp hpos, ⟨stufe, rfl, not_lt.mp hheld⟩, htrail, h⟩, ?_⟩
          exact fun h => h.2.2.2

/-- Outside the window a loss at the hard stop has the full pressure. -/
theorem lossPressure_of_hardStop (hhard : env.tiers.hardStop < 0)
    (h : ctx.pnlPct ≤ env.tiers.hardStop) : (bewertet env ctx).lossPressureScore = 100 := by
  have hscore : (bewertet env ctx).lossPressureScore =
      calculateLossPressure ctx.pnlPct ctx.hoursHeld env.tiers := rfl
  rw [hscore, calculateLossPressure, if_neg (not_le.mpr (h.trans_lt hhard)), if_pos h]

def IstTrailing (a : ExitAnalysis) : Prop :=
  a.shouldSell = true ∧ a.tier = .risk ∧ a.verkaufsgrund.map Verkaufsgrund.klasse = some .trailing

theorem verkauft_of_hardStop (hhard : env.tiers.hardStop < 0)
    (h : ctx.pnlPct ≤ env.tiers.hardStop) :
    (analyzeExit env ctx).shouldSell = true ∧ (analyzeExit env ctx).tier = .risk := by
  have hpressure : 90 ≤ (bewertet env ctx).lossPressureScore := by
    rw [lossPressure_of_hardStop hhard h]
    norm_num
  have hentscheid := entscheid_analyzeExit env ctx
  generalize analyzeExit env ctx = a at hentscheid ⊢
  cases hentscheid with
  | hardStop => exact ⟨rfl, rfl⟩
  | panik _ hstop => exact absurd h hstop
  | trailing => exact ⟨rfl, rfl⟩
  | lossCut => exact ⟨rfl, rfl⟩
  | momentum _ _ hloss => exact absurd hpressure hloss
  | composite _ _ hloss => exact absurd hpressure hloss
  | hold _ _ hloss => exact absurd hpressure hloss

theorem angewandt_ne_trailing (t : LossTiers) (pnl : ℚ) : (angewandt t pnl).2 ≠ .trailing := by
  rw [angewandt]
  split_ifs <;> simp

/-- A sale at a trailing stop is one outside the window with the score of the trailing stop. -/
theorem istTrailing_iff : IstTrailing (analyzeExit env ctx) ↔
    imFenster env ctx = false ∧ 85 ≤ (bewertet env ctx).trailingStopScore := by
  rw [IstTrailing]
  have hentscheid := entscheid_analyzeExit env ctx
  generalize analyzeExit env ctx = a at hentscheid ⊢
  cases hentscheid with
  | hardStop hfenster => simp [hardStopVerkauf, grund, hfenster]
  | panik hfenster => simp [panicProtection, anfang, hfenster]
  | trailing hfenster htrail =>
      exact iff_of_true ⟨rfl, rfl, rfl⟩ ⟨Bool.eq_false_of_not_eq_true hfenster, htrail⟩
  | lossCut _ htrail =>
      refine iff_of_false (fun h => ?_) fun h => htrail h.2
      exact angewandt_ne_trailing _ _ (Option.some.inj h.2.2)
  | momentum _ htrail => exact iff_of_false (fun h => by cases h.2.1) fun h => htrail h.2
  | composite _ htrail => exact iff_of_false (fun h => by cases h.2.1) fun h => htrail h.2
  | hold _ htrail => exact iff_of_false (fun h => by cases h.1) fun h => htrail h.2

/-- An opinion comes behind the trailing stop and the loss cut. -/
theorem not_le_of_opinion (h : (analyzeExit env ctx).tier = .opinion) :
    ¬85 ≤ (bewertet env ctx).trailingStopScore ∧ ¬90 ≤ (bewertet env ctx).lossPressureScore := by
  revert h
  have hentscheid := entscheid_analyzeExit env ctx
  generalize analyzeExit env ctx = a at hentscheid ⊢
  cases hentscheid with
  | hardStop => exact fun h => by cases h
  | panik => exact fun h => by cases h
  | trailing => exact fun h => by cases h
  | lossCut => exact fun h => by cases h
  | momentum _ htrail hloss => exact fun _ => ⟨htrail, hloss⟩
  | composite _ htrail hloss => exact fun _ => ⟨htrail, hloss⟩
  | hold => exact fun h => by cases h

end

def auslieferung : Umgebung :=
  { tiers := { watch := -3, cut := -6, escalation := -79 / 10, hardStop := -8 }
    panic := { enabled := true, hours := 2 }
    profil := .midterm
    momentumSellThreshold := -3 / 10 }

/-- A position bought at a hundred an hour ago and quoted at ninety. -/
def neunzig : PositionContext :=
  { symbol := "AAPL"
    entryPrice := 100
    currentPrice := 90
    highWaterMark := 100
    hoursHeld := 1
    lstmPrediction := 0
    newsScore := 0
    momentumHistory := [] }

end IntelligentExit
