import AutonomousEngine.Basis.ExtRat

/-!
# The consensus of the round table

The agents vote on a symbol, and the consensus is the mean of the votes that count,
weighted.  A vote counts when it is an opinion, passes the validation, is not
vetoed and is not of an agent that only conditions the mean.  When no vote counts
the consensus is zero.

Zero is also the strongest opinion to sell, and what follows from that is the
business of the gates (`RoundTable.Signal`).
-/

namespace RoundTable

open Basis

/-! ## Thresholds -/

/-- The thresholds that separate a purchase, a sale and nothing. -/
structure Thresholds where
  buy : ℚ
  sell : ℚ
  sell_pos : 0 < sell
  sell_lt_buy : sell < buy
  buy_lt_one : buy < 1
deriving DecidableEq

def defaultThresholds : Thresholds :=
  ⟨73 / 100, 35 / 100, by norm_num, by norm_num, by norm_num⟩

/-- The thresholds of a configuration, `none` for one that cannot be read.  A pair
out of order falls back to the defaults. -/
def signalThresholds : Option (ExtRat × ExtRat) → Thresholds
  | some (.of buy, .of sell) =>
      if h : 0 < sell ∧ sell < buy ∧ buy < 1 then ⟨buy, sell, h.1, h.2.1, h.2.2⟩
      else defaultThresholds
  | _ => defaultThresholds

theorem signalThresholds_of {buy sell : ℚ} (h0 : 0 < sell) (h : sell < buy) (h1 : buy < 1) :
    signalThresholds (some (.of buy, .of sell)) = ⟨buy, sell, h0, h, h1⟩ :=
  dif_pos ⟨h0, h, h1⟩

/-! ## Votes -/

/-- Why an agent has no opinion. -/
inductive AbstainReason where
  | noData
  | insufficientData
  | dependencyLost
  | warmup
  | disabled
  | guardVeto
deriving DecidableEq, Repr

/-- A score or the reason that there is none, never both. -/
inductive Meinung where
  | score (s : ExtRat)
  | enthalten (r : AbstainReason)
deriving DecidableEq, Repr

/-- A vote. -/
structure Vote where
  agentName : String
  meinung : Meinung
  weight : ExtRat
  vetoed : Bool := false
  reasoning : String := ""
deriving DecidableEq, Repr

/-- The score of a vote, zero without one. -/
def Vote.score (v : Vote) : ExtRat :=
  match v.meinung with
  | .score s => s
  | .enthalten _ => 0

/-- What the consensus reads from the configuration.  The validator is the model of
`pydantic`, `none` where it is not installed. -/
structure KonsensCfg where
  validator : Option (Vote → Bool)
  regimeConditionerEnabled : Bool
  regimeRiskoffDampMax : ExtRat
  impliedVolForecastEnabled : Bool

def validateVote (c : KonsensCfg) (v : Vote) : Bool :=
  match v.meinung with
  | .enthalten _ => false
  | .score s =>
      if v.weight = 0 ∧ v.vetoed = false then false
      else
        match c.validator with
        | some accepts => accepts v
        | none => decide (0 ≤ s) && decide (s ≤ .of 1) && decide (0 < v.weight)

/-- The agents that vote but are never in the mean. -/
def nonDirectionalAgents : List String := ["RegimeDetectionAgent", "DrawdownGuardAgent"]

def consensusExclusions (ivForecastEnabled : Bool) : List String :=
  if ivForecastEnabled then nonDirectionalAgents ++ ["VIXAwareRiskAgent"]
  else nonDirectionalAgents

/-! ## The mean -/

def validatedVotes (c : KonsensCfg) (votes : List Vote) : List Vote :=
  votes.filter fun v => !v.vetoed && validateVote c v

def regimeVote (c : KonsensCfg) (votes : List Vote) : Option Vote :=
  (validatedVotes c votes).find? fun v => v.agentName == "RegimeDetectionAgent"

/-- Whether the momentum votes are halved, as they are without the conditioner when
the regime is bearish. -/
def momentumHalbiert (c : KonsensCfg) (votes : List Vote) : Bool :=
  !c.regimeConditionerEnabled &&
    (regimeVote c votes).any fun r => decide (r.score < .of (45 / 100))

/-- Halves the weight of a momentum vote that was validated. -/
def Vote.halbiert (c : KonsensCfg) (v : Vote) : Vote :=
  if !v.vetoed && validateVote c v && v.agentName == "MomentumAgent" then
    { v with weight := v.weight * .of (1 / 2) }
  else v

/-- The votes after the conditioning of the weights. -/
def konditioniert (c : KonsensCfg) (votes : List Vote) : List Vote :=
  if momentumHalbiert c votes then votes.map (Vote.halbiert c) else votes

/-- The factor by which a consensus to buy is damped, when the regime damps it. -/
def dampFactor (c : KonsensCfg) (votes : List Vote) : Option ExtRat :=
  if c.regimeConditionerEnabled then
    (regimeVote c votes).bind fun r =>
      let severity := ExtRat.pyMax 0 (ExtRat.pyMin (.of 1) ((.of (1 / 2) - r.score) / .of (1 / 2)))
      if 0 < severity then some (.of 1 - c.regimeRiskoffDampMax * severity) else none
  else none

/-- The votes that are in the mean: validated with the weights they were cast with,
weighed with the weights they have then. -/
def activeVotes (c : KonsensCfg) (votes : List Vote) : List Vote :=
  (if momentumHalbiert c votes then (validatedVotes c votes).map (Vote.halbiert c)
    else validatedVotes c votes).filter fun v =>
      !(consensusExclusions c.impliedVolForecastEnabled).contains v.agentName &&
        decide (0 < v.weight)

def aggregate (c : KonsensCfg) (votes : List Vote) : ExtRat :=
  let active := activeVotes c votes
  if active.isEmpty then 0
  else
    let weightTotal := (active.map (·.weight)).sum
    if weightTotal ≤ 0 then 0
    else
      let result := (active.map fun v => v.score * v.weight).sum / weightTotal
      match dampFactor c votes with
      | some factor =>
          if .of (1 / 2) < result then .of (1 / 2) + factor * (result - .of (1 / 2)) else result
      | none => result

theorem aggregate_of_empty {c : KonsensCfg} {votes : List Vote} (h : activeVotes c votes = []) :
    aggregate c votes = 0 := by
  unfold aggregate
  rw [h]
  rfl

/-! ## What the conditioning leaves alone -/

@[simp] theorem halbiert_agentName (c : KonsensCfg) (v : Vote) :
    (v.halbiert c).agentName = v.agentName := by
  unfold Vote.halbiert
  split <;> rfl

@[simp] theorem halbiert_meinung (c : KonsensCfg) (v : Vote) :
    (v.halbiert c).meinung = v.meinung := by
  unfold Vote.halbiert
  split <;> rfl

@[simp] theorem halbiert_vetoed (c : KonsensCfg) (v : Vote) :
    (v.halbiert c).vetoed = v.vetoed := by
  unfold Vote.halbiert
  split <;> rfl

/-- Half a weight is a weight. -/
theorem mul_half_pos {w : ExtRat} : 0 < w * .of (1 / 2) ↔ 0 < w := by
  have hsign : (ExtRat.of (1 / 2)).sign = 1 := sign_pos (by norm_num)
  cases w with
  | nan => exact iff_of_false (ExtRat.not_lt_nan 0) (ExtRat.not_lt_nan 0)
  | negInf =>
      have h : ExtRat.negInf * .of (1 / 2) = .negInf := by
        show ExtRat.infOfSign (ExtRat.negInf.sign * (ExtRat.of (1 / 2)).sign) = .negInf
        rw [hsign]
        rfl
      rw [h]
  | posInf =>
      have h : ExtRat.posInf * .of (1 / 2) = .posInf := by
        show ExtRat.infOfSign (ExtRat.posInf.sign * (ExtRat.of (1 / 2)).sign) = .posInf
        rw [hsign]
        rfl
      rw [h]
  | of q =>
      rw [ExtRat.of_mul_of, ExtRat.zero_lt_of, ExtRat.zero_lt_of]
      constructor
      · intro h
        linarith
      · intro h
        linarith

@[simp] theorem halbiert_weight_pos (c : KonsensCfg) (v : Vote) :
    0 < (v.halbiert c).weight ↔ 0 < v.weight := by
  unfold Vote.halbiert
  split
  next => exact mul_half_pos
  next => exact Iff.rfl

theorem any_map_halbiert {c : KonsensCfg} {p : Vote → Bool}
    (hp : ∀ v, p (v.halbiert c) = p v) (votes : List Vote) :
    (votes.map (Vote.halbiert c)).any p = votes.any p := by
  induction votes with
  | nil => rfl
  | cons v votes ih => rw [List.map_cons, List.any_cons, List.any_cons, hp, ih]

/-- What does not look at the size of a weight is the same after the conditioning. -/
theorem any_konditioniert {c : KonsensCfg} {votes : List Vote} {p : Vote → Bool}
    (hp : ∀ v, p (v.halbiert c) = p v) : (konditioniert c votes).any p = votes.any p := by
  unfold konditioniert
  split
  next => exact any_map_halbiert hp votes
  next => rfl

/-! ## When no vote is in the mean -/

/-- Whether a vote that was validated is in the mean. -/
def imMittel (c : KonsensCfg) (v : Vote) : Bool :=
  !(consensusExclusions c.impliedVolForecastEnabled).contains v.agentName &&
    decide (0 < v.weight)

theorem imMittel_eq_false_iff {c : KonsensCfg} {v : Vote} : imMittel c v = false ↔
    v.agentName ∈ consensusExclusions c.impliedVolForecastEnabled ∨ ¬ 0 < v.weight := by
  unfold imMittel
  rw [Bool.and_eq_false_iff, Bool.not_eq_false', List.contains_iff_mem, decide_eq_false_iff_not]

@[simp] theorem imMittel_halbiert (c : KonsensCfg) (v : Vote) :
    imMittel c (v.halbiert c) = imMittel c v := by
  unfold imMittel
  rw [halbiert_agentName, decide_eq_decide.mpr (halbiert_weight_pos c v)]

theorem filter_map_halbiert (c : KonsensCfg) (votes : List Vote) :
    (votes.map (Vote.halbiert c)).filter (imMittel c) =
      (votes.filter (imMittel c)).map (Vote.halbiert c) := by
  induction votes with
  | nil => rfl
  | cons v votes ih =>
      rw [List.map_cons, List.filter_cons, List.filter_cons, imMittel_halbiert]
      split
      next => rw [List.map_cons, ih]
      next => exact ih

theorem activeVotes_eq (c : KonsensCfg) (votes : List Vote) : activeVotes c votes =
    if momentumHalbiert c votes then
      ((validatedVotes c votes).filter (imMittel c)).map (Vote.halbiert c)
    else (validatedVotes c votes).filter (imMittel c) := by
  show (if momentumHalbiert c votes then (validatedVotes c votes).map (Vote.halbiert c)
    else validatedVotes c votes).filter (imMittel c) = _
  split
  next => exact filter_map_halbiert c _
  next => rfl

end RoundTable
