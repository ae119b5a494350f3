import AutonomousEngine.RoundTable.Signal

/-!
# What a round promises

* The gates for purchases cover every purchase of the signal exactly when the
  configured threshold to buy is not below theirs (`kaufTore_iff`).
* A round in which no vote counts is no order exactly when the strict gate of the
  models, the rule of the day traders or the building of the event stops it
  (`ohneMeinung_iff`).
-/

namespace RoundTable

open Basis

/-! ## Purchases -/

/-- What the signal buys, no gate for purchases would have stopped, and what it sells,
none of them stops. -/
def KaufTore (t : Thresholds) : Prop :=
  ∀ (u : Umfeld) (symbol : String) (ctx : Option Portfolio) (votes : List Vote)
    (score : ExtRat), u.thresholds = t →
    (aktionAusSchwellen t score = .buy →
      (compliancePruefen u symbol ctx votes score).1.approved = true →
        ∀ g ∈ buyGates u.gate ctx symbol (u.shouldTrade votes score), g = none) ∧
    (aktionAusSchwellen t score = .sell → ∀ w,
      (compliancePruefen u symbol ctx votes score).1.verdict ≠ .error (.kauf w))

theorem aktion_eq_buy_iff {t : Thresholds} {score : ExtRat} :
    aktionAusSchwellen t score = .buy ↔ .of t.buy < score := by
  unfold aktionAusSchwellen
  split
  next h => exact iff_of_true rfl h
  next h =>
    split
    next => exact iff_of_false Aktion.noConfusion h
    next => exact iff_of_false Aktion.noConfusion h

theorem lt_of_aktion_eq_sell {t : Thresholds} {score : ExtRat}
    (h : aktionAusSchwellen t score = .sell) : score < .of t.sell := by
  unfold aktionAusSchwellen at h
  split at h
  next => cases h
  next =>
    split at h
    next hsell => exact hsell
    next => cases h

theorem lt_of_of_lt {a b : ℚ} {x : ExtRat} (hab : a ≤ b) (h : .of b < x) : .of a < x := by
  cases x with
  | nan => exact absurd h (ExtRat.not_lt_nan _)
  | negInf => cases h
  | posInf => rfl
  | of q =>
      rw [ExtRat.of_lt_of] at h ⊢
      exact lt_of_le_of_lt hab h

theorem not_buy_of_sell {sell : ℚ} {x : ExtRat} (hs : sell ≤ 65 / 100) (h : x < .of sell) :
    ¬ buyThreshold < x := by
  cases x with
  | nan => exact ExtRat.not_lt_nan _
  | negInf => exact Bool.false_ne_true
  | posInf => cases h
  | of q =>
      show ¬ ExtRat.of (65 / 100) < .of q
      rw [ExtRat.of_lt_of] at h ⊢
      linarith

/-- Where the threshold is not below that of the gates, they cover the purchases. -/
theorem kaufTore_of_le {t : Thresholds} (hb : 65 / 100 ≤ t.buy) (hs : t.sell ≤ 65 / 100) :
    KaufTore t := by
  intro u symbol ctx votes score _
  constructor
  · intro hkauf happroved g hg
    have hbuy : buyThreshold < score := lt_of_of_lt hb (aktion_eq_buy_iff.mp hkauf)
    obtain ⟨_, hresolve, _, hmeta⟩ := approved_compliancePruefen_iff.mp happroved
    obtain ⟨_, hgates⟩ := resolve_eq_ok_iff.mp hresolve
    obtain ⟨hctx, hlock, hconc, hsector, hdaily, hchurn, htiming⟩ := hgates hbuy
    have hmeta := hmeta hbuy
    simp only [buyGates, List.mem_cons, List.not_mem_nil, or_false] at hg
    rcases hg with rfl | rfl | rfl | rfl | rfl | rfl | rfl | rfl
    all_goals assumption
  · intro hverkauf w hw
    have hsell := lt_of_aktion_eq_sell hverkauf
    exact not_buy_of_sell hs hsell (kaufBeiKauf_compliancePruefen w hw)

/-! ### A purchase between the two thresholds -/

def modellStimme (score : ExtRat) : Vote :=
  { agentName := "LSTMSignalAgent", meinung := .score score, weight := .of 1 }

/-- A round with the two models switched on and every other switch off. -/
def schlichtesUmfeld (t : Thresholds) : Umfeld where
  thresholds := t
  konsens := ⟨none, false, .of (1 / 2), false⟩
  gate := ⟨true, false, false, false, false⟩
  agenten := [("LSTMSignalAgent", { lstm := true }), ("RLConfidenceAgent", { rl := true })]
  shouldTrade := fun _ _ => .ok (true, "")
  drawdownGuardConditionerEnabled := false
  drawdownConvictionDampMax := some (.of (8 / 10))
  baut := fun _ _ => true

/-- A context in which only the lock of the position speaks against a purchase. -/
def gesperrt : Portfolio := { positionLocked := some true, equity := some (.of 100000) }

theorem strictMl_schlicht {t : Thresholds} {score : ExtRat} :
    strictMlBlockiert (schlichtesUmfeld t).gate (schlichtesUmfeld t).agenten
      [modellStimme score] = false := by
  have hvalid : lstmValid (schlichtesUmfeld t).agenten [modellStimme score] = true := rfl
  have hrl : rlValid (schlichtesUmfeld t).agenten [modellStimme score] = false := rfl
  unfold strictMlBlockiert
  rw [hvalid, hrl]
  rfl

/-- An account above the floor is outside the rule of the day traders. -/
theorem pdtGreift_gesperrt {t : Thresholds} {symbol : String} {verkauf : Bool} :
    pdtGreift (schlichtesUmfeld t).gate gesperrt symbol verkauf = false := by
  have hfrei : pdtRuleCanBind (schlichtesUmfeld t).gate gesperrt = false := rfl
  unfold pdtGreift
  rw [hfrei]
  rfl

/-- What is no purchase for the gates passes a locked position. -/
theorem approved_gesperrt {t : Thresholds} {score : ExtRat} (h : ¬ buyThreshold < score) :
    (compliancePruefen (schlichtesUmfeld t) "AAPL" (some gesperrt) [modellStimme score]
      score).1.approved = true := by
  have hfrei : ¬ ∃ v ∈ [modellStimme score], v.vetoed = true := by simp [modellStimme]
  rw [approved_compliancePruefen_iff, resolve_eq_ok_iff]
  exact ⟨strictMl_schlicht, ⟨pdtGreift_gesperrt, fun hbuy => absurd hbuy h⟩,
    fun hveto => absurd hveto hfrei, fun hbuy => absurd hbuy h⟩

theorem lock_mem_buyGates {t : Thresholds} {votes : List Vote} {score : ExtRat} :
    some .positionLocked ∈ buyGates (schlichtesUmfeld t).gate (some gesperrt) "AAPL"
      ((schlichtesUmfeld t).shouldTrade votes score) :=
  .tail _ (.head _)

/-- A threshold below that of the gates leaves purchases that they do not see. -/
theorem not_kaufTore {t : Thresholds} {score : ExtRat} (hkauf : .of t.buy < score)
    (h : ¬ buyThreshold < score) : ¬ KaufTore t := by
  intro hkt
  have hdecken := (hkt (schlichtesUmfeld t) "AAPL" (some gesperrt) [modellStimme score] score
    rfl).1 (aktion_eq_buy_iff.mpr hkauf) (approved_gesperrt h) _ lock_mem_buyGates
  cases hdecken

/-- Over all thresholds that the settings admit, the gates cover the purchases exactly
when the configured threshold to buy is not below theirs. -/
theorem kaufTore_iff {buy sell : ℚ} (hbuy : 55 / 100 ≤ buy ∧ buy ≤ 75 / 100)
    (hsell : 25 / 100 ≤ sell ∧ sell ≤ 45 / 100) :
    KaufTore (signalThresholds (some (.of buy, .of sell))) ↔ 65 / 100 ≤ buy := by
  rw [signalThresholds_of (by linarith) (by linarith) (by linarith)]
  constructor
  · intro hkt
    by_contra hlow
    have hkauf : ExtRat.of buy < .of (65 / 100) := ExtRat.of_lt_of.mpr (not_le.mp hlow)
    have hgrenze : ¬ buyThreshold < .of (65 / 100) :=
      fun h => lt_irrefl _ (ExtRat.of_lt_of.mp h)
    exact not_kaufTore hkauf hgrenze hkt
  · intro hhigh
    exact kaufTore_of_le hhigh (by linarith)

theorem kaufTore_bei_70 : KaufTore (signalThresholds (some (.of (7 / 10), .of (35 / 100)))) :=
  (kaufTore_iff (by norm_num) (by norm_num)).mpr (by norm_num)

/-- A consensus of 0.6 under a threshold of 0.55 is bought in a locked position. -/
theorem kauf_trotz_sperre :
    let u := schlichtesUmfeld (signalThresholds (some (.of (55 / 100), .of (35 / 100))))
    let score := aggregate u.konsens [modellStimme (.of (6 / 10))]
    aktionAusSchwellen u.thresholds score = .buy ∧
      (compliancePruefen u "AAPL" (some gesperrt) [modellStimme (.of (6 / 10))]
        score).1.approved = true ∧
      some .positionLocked ∈ buyGates u.gate (some gesperrt) "AAPL"
        (u.shouldTrade [modellStimme (.of (6 / 10))] score) := by
  have hscore : aggregate (schlichtesUmfeld (signalThresholds
      (some (.of (55 / 100), .of (35 / 100))))).konsens [modellStimme (.of (6 / 10))] =
        .of (6 / 10) := by decide +kernel
  have hgrenze : ¬ buyThreshold < .of (6 / 10) := by decide +kernel
  have hkauf : (signalThresholds (some (.of (55 / 100), .of (35 / 100)))).buy < 6 / 10 := by
    rw [signalThresholds_of (by norm_num) (by norm_num) (by norm_num)]
    norm_num
  dsimp only
  rw [hscore]
  exact ⟨aktion_eq_buy_iff.mpr (ExtRat.of_lt_of.mpr hkauf), approved_gesperrt hgrenze,
    lock_mem_buyGates⟩

/-! ## No opinion -/

section

variable {u : Umfeld} {symbol : String} {ctx : Option Portfolio} {votes : List Vote}

theorem strictMl_konditioniert {c : KonsensCfg} {g : GateCfg} {a : Agenten} :
    strictMlBlockiert g a (konditioniert c votes) = strictMlBlockiert g a votes := by
  have hgewicht (v : Vote) : decide (0 < (v.halbiert c).weight) = decide (0 < v.weight) :=
    decide_eq_decide.mpr (halbiert_weight_pos c v)
  have hlstm : lstmValid a (konditioniert c votes) = lstmValid a votes :=
    any_konditioniert fun v => by rw [istLstm, halbiert_agentName, hgewicht, istLstm]
  have hrl : rlValid a (konditioniert c votes) = rlValid a votes :=
    any_konditioniert fun v => by rw [istRl, halbiert_agentName, hgewicht, istRl]
  have hdisabled : lstmDisabled a (konditioniert c votes) = lstmDisabled a votes := by
    unfold lstmDisabled
    rw [hlstm, any_konditioniert fun v => by
      rw [istLstm, halbiert_agentName, halbiert_meinung, istLstm]]
  unfold strictMlBlockiert
  rw [hlstm, hrl, hdisabled]

theorem strictMl_nil {g : GateCfg} {a : Agenten} : strictMlBlockiert g a [] = true := rfl

/-- A consensus of zero passes the gates that are left for a sale. -/
theorem approved_zero_iff : (compliancePruefen u symbol ctx votes 0).1.approved = true ↔
    strictMlBlockiert u.gate u.agenten votes = false ∧
      pdtGreift u.gate (ctx.getD {}) symbol true = false := by
  have hkauf : ¬ buyThreshold < 0 := by
    show ¬ ExtRat.of (65 / 100) < .of 0
    rw [ExtRat.of_lt_of]
    norm_num
  have hverkauf : decide ((0 : ExtRat) < sellThreshold) = true := by
    rw [decide_eq_true_iff]
    show ExtRat.of 0 < .of (35 / 100)
    rw [ExtRat.of_lt_of]
    norm_num
  have hveto : ¬ .of u.thresholds.sell ≤ (0 : ExtRat) := by
    rw [ExtRat.of_le_zero]
    exact not_le.mpr u.thresholds.sell_pos
  rw [approved_compliancePruefen_iff, resolve_eq_ok_iff, hverkauf]
  constructor
  · intro h
    exact ⟨h.1, h.2.1.1⟩
  · intro h
    exact ⟨h.1, ⟨h.2, fun hbuy => absurd hbuy hkauf⟩, fun _ => hveto,
      fun hbuy => absurd hbuy hkauf⟩

theorem scoreToSignal_zero : scoreToSignal u symbol 0 votes =
    if u.baut .sell 0 then some ⟨symbol, .sell, 0⟩ else none := by
  have hsell : aktionAusSchwellen u.thresholds 0 = .sell := by
    have hkauf : ¬ .of u.thresholds.buy < (0 : ExtRat) := by
      show ¬ ExtRat.of u.thresholds.buy < .of 0
      rw [ExtRat.of_lt_of]
      linarith [u.thresholds.sell_pos, u.thresholds.sell_lt_buy]
    unfold aktionAusSchwellen
    rw [if_neg hkauf, if_pos (ExtRat.zero_lt_of.mpr u.thresholds.sell_pos)]
  unfold scoreToSignal
  rw [hsell]
  rfl

def KeinAuftrag (u : Umfeld) (symbol : String) (ctx : Option Portfolio)
    (results : List (Option Vote)) : Prop :=
  ∀ s, runRoundTable u symbol ctx results = some s → s.action ≠ .buy ∧ s.action ≠ .sell

theorem runRoundTable_of_cons {results : List (Option Vote)} {v : Vote}
    (h : abstimmen results = v :: votes) : runRoundTable u symbol ctx results =
      signalAbleiten u symbol (aggregate u.konsens (v :: votes))
        (compliancePruefen u symbol ctx (konditioniert u.konsens (v :: votes))
          (aggregate u.konsens (v :: votes))).1
        (compliancePruefen u symbol ctx (konditioniert u.konsens (v :: votes))
          (aggregate u.konsens (v :: votes))).2 := by
  unfold runRoundTable
  rw [h]
  rfl

/-- The signal of a round in which no vote is in the mean. -/
theorem runRoundTable_ohneMeinung {results : List (Option Vote)}
    (h : activeVotes u.konsens (abstimmen results) = []) :
    runRoundTable u symbol ctx results =
      if strictMlBlockiert u.gate u.agenten (abstimmen results) = false ∧
          pdtGreift u.gate (ctx.getD {}) symbol true = false ∧ u.baut .sell 0 = true then
        some ⟨symbol, .sell, 0⟩
      else none := by
  cases hvotes : abstimmen results with
  | nil =>
      unfold runRoundTable
      rw [hvotes, strictMl_nil]
      rfl
  | cons v votes =>
      rw [hvotes] at h
      rw [runRoundTable_of_cons hvotes, aggregate_of_empty h]
      unfold signalAbleiten
      split
      next happroved =>
        rw [approved_zero_iff, strictMl_konditioniert] at happroved
        rw [scoreToSignal_zero]
        simp only [happroved, true_and]
      next hrejected =>
        rw [approved_zero_iff, strictMl_konditioniert] at hrejected
        exact (if_neg fun hall => hrejected ⟨hall.1, hall.2.1⟩).symm

/-- A round in which no vote is in the mean is no order exactly when the strict gate of
the models stops it, the rule of the day traders stops the sale, or the event cannot be
built. -/
theorem ohneMeinung_iff {results : List (Option Vote)}
    (h : activeVotes u.konsens (abstimmen results) = []) : KeinAuftrag u symbol ctx results ↔
      strictMlBlockiert u.gate u.agenten (abstimmen results) = true ∨
        pdtGreift u.gate (ctx.getD {}) symbol true = true ∨ u.baut .sell 0 = false := by
  unfold KeinAuftrag
  rw [runRoundTable_ohneMeinung h]
  constructor
  · intro hkein
    by_contra hoffen
    rw [not_or, not_or] at hoffen
    obtain ⟨hml, hpdt, hbaut⟩ := hoffen
    have hsignal := hkein ⟨symbol, .sell, 0⟩ (if_pos ⟨Bool.eq_false_of_not_eq_true hml,
      Bool.eq_false_of_not_eq_true hpdt, Bool.eq_true_of_not_eq_false hbaut⟩)
    exact hsignal.2 rfl
  · intro hstop s hs
    have hzu : ¬ (strictMlBlockiert u.gate u.agenten (abstimmen results) = false ∧
        pdtGreift u.gate (ctx.getD {}) symbol true = false ∧ u.baut .sell 0 = true) := by
      rintro ⟨hml, hpdt, hbaut⟩
      rw [hml, hpdt, hbaut] at hstop
      simp at hstop
    rw [if_neg hzu] at hs
    cases hs

end

/-- The abstention of a model that the operator switched off. -/
def abgeschaltet : Vote :=
  { agentName := "LSTMSignalAgent", meinung := .enthalten .disabled, weight := 0 }

/-- The abstention of a model that has no data. -/
def ohneDaten : Vote :=
  { agentName := "LSTMSignalAgent", meinung := .enthalten .noData, weight := 0 }

theorem ohneMeinung_ohneDaten :
    KeinAuftrag (schlichtesUmfeld defaultThresholds) "AAPL" none [some ohneDaten] :=
  (ohneMeinung_iff (by decide +kernel)).mpr (.inl (by decide +kernel))

/-- Only the abstention of a model that the operator switched off was cast, and the
round sells. -/
theorem verkauf_ohneMeinung :
    activeVotes (schlichtesUmfeld defaultThresholds).konsens (abstimmen [some abgeschaltet]) = [] ∧
      ¬ KeinAuftrag (schlichtesUmfeld defaultThresholds) "AAPL" none [some abgeschaltet] := by
  refine ⟨by decide +kernel, ?_⟩
  intro hkein
  have hverkauf : (runRoundTable (schlichtesUmfeld defaultThresholds) "AAPL" none
      [some abgeschaltet]).map (·.action) = some .sell := by decide +kernel
  obtain ⟨s, hs, haction⟩ := Option.map_eq_some_iff.mp hverkauf
  exact (hkein s hs).2 haction

end RoundTable
