import AutonomousEngine.IntelligentExit.Analyse

/-!
# Deeper and older losses

A loser that is sold should be sold as well when its loss is deeper or its time longer.
Every pressure but one keeps to that.  The pressure of the loss does so exactly when the
watch level is at `-8/3` percent or above: below it a loss just above the level weighs more
than a loss at the level, and there are two positions between which the sale is lost
(`monoton_iff`).
-/

namespace IntelligentExit

open Basis

variable {env : Umgebung} {ctx ctx' : PositionContext}

def verkauft (env : Umgebung) (ctx : PositionContext) : Prop :=
  (analyzeExit env ctx).shouldSell = true

/-- The tiers are in order. -/
structure LossTiers.Geordnet (t : LossTiers) : Prop where
  cut_lt_watch : t.cut < t.watch
  escalation_lt_cut : t.escalation < t.cut
  hardStop_lt_escalation : t.hardStop < t.escalation

/-- Two losers with the same momentum and news, the second one deeper or older or alike. -/
structure Schlechter (ctx ctx' : PositionContext) : Prop where
  verlust : ctx.pnlPct < 0
  tiefer : ctx'.pnlPct ≤ ctx.pnlPct
  aelter : ctx.hoursHeld ≤ ctx'.hoursHeld
  lstm : ctx'.lstmPrediction = ctx.lstmPrediction
  history : ctx'.momentumHistory = ctx.momentumHistory
  news : ctx'.newsScore = ctx.newsScore

/-- What sells the first of two such losers sells the second. -/
def Monoton (env : Umgebung) : Prop :=
  ∀ ctx ctx', Schlechter ctx ctx' → verkauft env ctx → verkauft env ctx'

/-! ## When a loser is sold -/

def verlustScore (env : Umgebung) (ctx : PositionContext) : ℚ :=
  calculateLossPressure ctx.pnlPct ctx.hoursHeld env.tiers * (45 / 100) +
    calculateMomentumFade env.momentumSellThreshold ctx.lstmPrediction ctx.momentumHistory
      ctx.pnlPct * (20 / 100) +
    calculateNewsPressure ctx.newsScore ctx.pnlPct * (15 / 100) +
    calculateTimePressure ctx.pnlPct ctx.hoursHeld * (15 / 100)

theorem trailingStopScore_of_neg (hneg : ctx.pnlPct < 0) :
    (bewertet env ctx).trailingStopScore = 0 :=
  calculateTrailingStopScore_of_neg env.profil hneg ctx.drawdownPct

theorem gewichtet_of_neg (hneg : ctx.pnlPct < 0) :
    gewichtet (bewertet env ctx) = verlustScore env ctx := by
  have hpnl : (bewertet env ctx).pnlPct = ctx.pnlPct := rfl
  rw [gewichtet, hpnl, if_pos hneg, trailingStopScore_of_neg hneg, zero_mul, add_zero]
  rfl

theorem verkauft_iff (hneg : ctx.pnlPct < 0) : verkauft env ctx ↔
    if imFenster env ctx = true then ctx.pnlPct ≤ env.tiers.hardStop
    else 90 ≤ calculateLossPressure ctx.pnlPct ctx.hoursHeld env.tiers ∨
      70 ≤ verlustScore env ctx := by
  have htrailing : ¬85 ≤ (bewertet env ctx).trailingStopScore := by
    rw [trailingStopScore_of_neg hneg]
    norm_num
  have hscore : calculateLossPressure ctx.pnlPct ctx.hoursHeld env.tiers =
      (bewertet env ctx).lossPressureScore := rfl
  rw [verkauft, hscore, ← gewichtet_of_neg hneg]
  have hentscheid := entscheid_analyzeExit env ctx
  generalize analyzeExit env ctx = a at hentscheid ⊢
  cases hentscheid with
  | hardStop hfenster hstop =>
      rw [if_pos hfenster]
      exact iff_of_true rfl hstop
  | panik hfenster hstop =>
      rw [if_pos hfenster]
      exact iff_of_false (fun h => by cases h) hstop
  | trailing _ htrail => exact absurd htrail htrailing
  | lossCut hfenster _ hloss =>
      rw [if_neg hfenster]
      exact iff_of_true rfl (.inl hloss)
  | momentum _ _ _ hpnl => linarith
  | composite hfenster _ _ htotal =>
      rw [if_neg hfenster]
      exact iff_of_true rfl (.inr htotal)
  | hold hfenster _ hloss _ htotal =>
      rw [if_neg hfenster]
      exact iff_of_false (fun h => by cases h) fun h => h.elim hloss htotal

theorem Schlechter.verlust' (h : Schlechter ctx ctx') : ctx'.pnlPct < 0 :=
  h.tiefer.trans_lt h.verlust

theorem Schlechter.fenster (h : Schlechter ctx ctx') (hfenster : ¬imFenster env ctx = true) :
    ¬imFenster env ctx' = true := by
  have haelter := h.aelter
  simp only [imFenster, Bool.and_eq_true, decide_eq_true_eq, not_and, not_lt] at hfenster ⊢
  exact fun henabled => (hfenster henabled).trans haelter

/-- The weighted score does not fall as long as the pressure of the loss does not. -/
theorem Schlechter.verlustScore_le (h : Schlechter ctx ctx')
    (hloss : calculateLossPressure ctx.pnlPct ctx.hoursHeld env.tiers ≤
      calculateLossPressure ctx'.pnlPct ctx'.hoursHeld env.tiers) :
    verlustScore env ctx ≤ verlustScore env ctx' := by
  have hnews := calculateNewsPressure_mono ctx.newsScore h.verlust h.tiefer
  have htime := calculateTimePressure_mono h.verlust h.verlust' h.aelter
  have hfade := calculateMomentumFade_of_neg env.momentumSellThreshold ctx.lstmPrediction
    ctx.momentumHistory h.verlust h.verlust'
  rw [verlustScore, verlustScore, h.lstm, h.history, h.news, hfade]
  linarith

/-- With a watch level that is not too deep no sale is lost. -/
theorem monoton_of_watch (hgeordnet : env.tiers.Geordnet) (hwatch : -8 / 3 ≤ env.tiers.watch) :
    Monoton env := by
  intro ctx ctx' h hsold
  have hloss : calculateLossPressure ctx.pnlPct ctx.hoursHeld env.tiers ≤
      calculateLossPressure ctx'.pnlPct ctx'.hoursHeld env.tiers :=
    calculateLossPressure_mono ⟨hgeordnet.escalation_lt_cut, hgeordnet.cut_lt_watch⟩ hwatch
      h.verlust h.tiefer h.aelter
  have hscore := h.verlustScore_le hloss
  rw [verkauft_iff h.verlust] at hsold
  rw [verkauft_iff h.verlust']
  by_cases hfenster : imFenster env ctx = true
  · rw [if_pos hfenster] at hsold
    have hstop : ctx'.pnlPct ≤ env.tiers.hardStop := h.tiefer.trans hsold
    split
    next => exact hstop
    next =>
      have hfull : calculateLossPressure ctx'.pnlPct ctx'.hoursHeld env.tiers = 100 := by
        rw [calculateLossPressure, if_neg (not_le.mpr h.verlust'), if_pos hstop]
      exact .inl (by rw [hfull]; norm_num)
  · rw [if_neg hfenster] at hsold
    rw [if_neg (h.fenster hfenster)]
    exact hsold.imp (fun h90 => h90.trans hloss) fun h70 => h70.trans hscore

/-! ## Two losers between which the sale is lost -/

/-- An old loser with a bearish prediction. -/
def verlierer (env : Umgebung) (pnl news : ℚ) : PositionContext :=
  { symbol := "AAPL"
    entryPrice := 100
    currentPrice := 100 + pnl
    highWaterMark := 100
    hoursHeld := max 168 env.panic.hours
    lstmPrediction := min (env.momentumSellThreshold - 1) (-2)
    newsScore := news
    momentumHistory := [] }

variable {pnl news : ℚ}

theorem pnlPct_verlierer : (verlierer env pnl news).pnlPct = pnl := by
  rw [PositionContext.pnlPct, verlierer]
  norm_num

theorem imFenster_verlierer : ¬imFenster env (verlierer env pnl news) = true := by
  have hhours : env.panic.hours ≤ (verlierer env pnl news).hoursHeld := le_max_right _ _
  simp only [imFenster, Bool.and_eq_true, decide_eq_true_eq, not_and, not_lt]
  exact fun _ => hhours

theorem fade_verlierer (hneg : pnl < 0) : calculateMomentumFade env.momentumSellThreshold
    (verlierer env pnl news).lstmPrediction (verlierer env pnl news).momentumHistory pnl = 100 := by
  have hlt : min (env.momentumSellThreshold - 1) (-2) < env.momentumSellThreshold := by
    linarith [min_le_left (env.momentumSellThreshold - 1) (-2)]
  have hle := min_le_right (env.momentumSellThreshold - 1) (-2)
  have hbase : 100 ≤ lstmScore env.momentumSellThreshold
      (verlierer env pnl news).lstmPrediction pnl := by
    rw [lstmScore, verlierer, if_pos hlt, if_neg (not_lt.mpr hneg.le), abs_of_neg (by linarith)]
    linarith
  have htrend : trendScore (verlierer env pnl news).momentumHistory pnl = 0 := rfl
  rw [calculateMomentumFade, htrend, add_zero, min_eq_left hbase]

theorem time_verlierer (hneg : pnl < 0) :
    calculateTimePressure pnl (verlierer env pnl news).hoursHeld = 100 := by
  have hhours : 168 ≤ (verlierer env pnl news).hoursHeld := le_max_left _ _
  rw [calculateTimePressure, if_neg (not_le.mpr hneg), if_neg (by linarith), if_neg (by linarith),
    if_neg (by linarith), min_eq_left (by linarith)]

theorem timeMult_verlierer : timeMult (verlierer env pnl news).hoursHeld = 3 / 2 := by
  have hhours : 168 ≤ (verlierer env pnl news).hoursHeld := le_max_left _ _
  rw [timeMult, if_pos (by linarith)]

/-- News that weigh `n` for a loser below two percent. -/
theorem news_verlierer {n : ℚ} (hn : 0 < n) (hn' : n ≤ 100) (hpnl : pnl < -2) :
    calculateNewsPressure (-n / 130) pnl = n := by
  have hneg : -n / 130 < 0 := by linarith
  have hbase : |-n / 130| * 100 * (13 / 10) = n := by
    rw [abs_of_neg hneg]
    linarith
  rw [calculateNewsPressure, if_neg (not_le.mpr hneg)]
  dsimp only
  rw [if_neg (by linarith), if_pos hpnl, hbase, min_eq_right hn']

/-- A loser above the watch level has a pressure of `22.5` for each percent. -/
theorem loss_verlierer (hgeordnet : env.tiers.Geordnet) (hwatch : env.tiers.watch < pnl)
    (hneg : pnl < 0) (hpnl : -3 ≤ pnl) :
    calculateLossPressure pnl (verlierer env pnl news).hoursHeld env.tiers = -pnl * (45 / 2) := by
  have hcut := hgeordnet.cut_lt_watch
  have hesc := hgeordnet.escalation_lt_cut
  have hhard := hgeordnet.hardStop_lt_escalation
  rw [calculateLossPressure, if_neg (not_le.mpr hneg), if_neg (by linarith), timeMult_verlierer,
    baseScore, if_neg (by linarith), if_neg (by linarith), if_neg (by linarith), abs_of_neg hneg,
    min_eq_right (by linarith)]
  ring

/-- A loser at the watch level has a pressure of sixty. -/
theorem loss_verlierer_watch (hgeordnet : env.tiers.Geordnet) (hwatch : env.tiers.watch < 0) :
    calculateLossPressure env.tiers.watch (verlierer env env.tiers.watch news).hoursHeld
      env.tiers = 60 := by
  have hcut := hgeordnet.cut_lt_watch
  have hesc := hgeordnet.escalation_lt_cut
  have hhard := hgeordnet.hardStop_lt_escalation
  rw [calculateLossPressure, if_neg (not_le.mpr hwatch), if_neg (by linarith), timeMult_verlierer,
    baseScore, if_neg (by linarith), if_neg (by linarith), if_pos le_rfl]
  norm_num

/-- When such a loser is sold. -/
theorem verkauft_verlierer_iff {n loss : ℚ} (hn : 0 < n) (hn' : n ≤ 100) (hpnl : pnl < -2)
    (hloss : calculateLossPressure pnl (verlierer env pnl (-n / 130)).hoursHeld env.tiers = loss) :
    verkauft env (verlierer env pnl (-n / 130)) ↔
      90 ≤ loss ∨ 70 ≤ loss * (45 / 100) + 35 + n * (15 / 100) := by
  have hneg : pnl < 0 := by linarith
  have hnews : calculateNewsPressure (verlierer env pnl (-n / 130)).newsScore pnl = n :=
    news_verlierer hn hn' hpnl
  have hscore : verlustScore env (verlierer env pnl (-n / 130)) =
      loss * (45 / 100) + 35 + n * (15 / 100) := by
    rw [verlustScore, pnlPct_verlierer, hloss, fade_verlierer hneg, time_verlierer hneg, hnews]
    ring
  rw [verkauft_iff (by rw [pnlPct_verlierer]; exact hneg), if_neg imFenster_verlierer,
    pnlPct_verlierer, hloss, hscore]

theorem schlechter_verlierer {pnl' : ℚ} (hneg : pnl < 0) (h : pnl' ≤ pnl) :
    Schlechter (verlierer env pnl news) (verlierer env pnl' news) where
  verlust := by rw [pnlPct_verlierer]; exact hneg
  tiefer := by rw [pnlPct_verlierer, pnlPct_verlierer]; exact h
  aelter := le_rfl
  lstm := rfl
  history := rfl
  news := rfl

/-- With a deeper watch level a sale is lost. -/
theorem watch_of_monoton (hgeordnet : env.tiers.Geordnet) (h : Monoton env) :
    -8 / 3 ≤ env.tiers.watch := by
  by_contra hlt
  rw [not_le] at hlt
  -- the first loser lies between the watch level and -8/3, but not below -3
  obtain ⟨pnl, hlow, hhigh⟩ : ∃ pnl, max env.tiers.watch (-3) < pnl ∧ pnl < -8 / 3 :=
    exists_between (max_lt hlt (by norm_num))
  have hwatch : env.tiers.watch < pnl := (le_max_left _ _).trans_lt hlow
  have hthree : -3 < pnl := (le_max_right _ _).trans_lt hlow
  have hneg : pnl < 0 := by linarith
  -- the news lift the first loser to a score of seventy
  obtain ⟨n, hn⟩ : ∃ n, n = (35 - -pnl * (45 / 2) * (45 / 100)) * (100 / 15) := ⟨_, rfl⟩
  have hpos : 0 < n := by linarith
  have hhundred : n ≤ 100 := by linarith
  have hfirst : verkauft env (verlierer env pnl (-n / 130)) := by
    rw [verkauft_verlierer_iff hpos hhundred (by linarith)
      (loss_verlierer hgeordnet hwatch hneg hthree.le)]
    exact .inr (by linarith)
  have hsecond := h _ _ (schlechter_verlierer hneg hwatch.le) hfirst
  rw [verkauft_verlierer_iff hpos hhundred (by linarith)
    (loss_verlierer_watch hgeordnet (hwatch.trans hneg))] at hsecond
  rcases hsecond with h90 | h70
  · linarith
  · linarith

/-- A deeper or older loss never sells less exactly when the watch level is not below `-8/3`. -/
theorem monoton_iff (hgeordnet : env.tiers.Geordnet) : Monoton env ↔ -8 / 3 ≤ env.tiers.watch :=
  ⟨watch_of_monoton hgeordnet, monoton_of_watch hgeordnet⟩

/-- The settings with the tiers at -2, -4, -6 and -8 percent. -/
def frueher : Umgebung :=
  { auslieferung with tiers := { watch := -2, cut := -4, escalation := -6, hardStop := -8 } }

/-- A position bought at a hundred, with falling predictions and bad news. -/
def position (currentPrice hoursHeld : ℚ) : PositionContext :=
  { symbol := "AAPL"
    entryPrice := 100
    currentPrice := currentPrice
    highWaterMark := 100
    hoursHeld := hoursHeld
    lstmPrediction := -1
    newsScore := -35 / 100
    momentumHistory := [3 / 10, 2 / 10, 1 / 10] }

theorem frueher_verkauft : verkauft frueher (position 95 40) := by
  have hgeordnet : frueher.tiers.Geordnet :=
    ⟨by decide +kernel, by decide +kernel, by decide +kernel⟩
  have hschlechter : Schlechter (position (955 / 10) 30) (position 95 40) :=
    ⟨by decide +kernel, by decide +kernel, by decide +kernel, rfl, rfl, rfl⟩
  have hsold : (analyzeExit frueher (position (955 / 10) 30)).shouldSell = true := by
    decide +kernel
  exact (monoton_iff hgeordnet).mpr (by decide +kernel) _ _ hschlechter hsold

/-- With the shipped tiers a loss of 2.9 percent is sold and one of 3 percent is held. -/
theorem auslieferung_nicht_monoton : auslieferung.tiers.Geordnet ∧
    Schlechter (position (971 / 10) 168) (position 97 168) ∧
      verkauft auslieferung (position (971 / 10) 168) ∧
      ¬verkauft auslieferung (position 97 168) := by
  have hsold : (analyzeExit auslieferung (position (971 / 10) 168)).shouldSell = true := by
    decide +kernel
  have hheld : (analyzeExit auslieferung (position 97 168)).shouldSell = false := by
    decide +kernel
  refine ⟨⟨by decide +kernel, by decide +kernel, by decide +kernel⟩,
    ⟨by decide +kernel, by decide +kernel, le_rfl, rfl, rfl, rfl⟩, hsold, ?_⟩
  rw [verkauft, hheld]
  simp

end IntelligentExit
