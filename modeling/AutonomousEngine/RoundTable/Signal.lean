import AutonomousEngine.RoundTable.Gatekeeper

/-!
# From the votes to a signal

A round collects the votes, forms the consensus, asks the gates and derives the
signal from the thresholds of the configuration.  Two meanings of the same word
meet here.

* A purchase is a consensus above the configured threshold for the signal, and one
  above `buyThreshold` for the gates.  They agree on every purchase only where the
  configured threshold is not the lower one.
* No opinion is a consensus of zero, and zero is a sale for the signal.  Of the
  gates only the strict gate of the models and the rule of the day traders stop it.
-/

namespace RoundTable

open Basis

/-! ## Strict gate of the models -/

/-- What the class of an agent says, whatever name it goes by. -/
structure AgentClass where
  lstm : Bool := false
  rl : Bool := false

/-- The active agents under the names of their classes. -/
abbrev Agenten := List (String × AgentClass)

/-- The agent of a name.  A later agent replaces an earlier one of its name. -/
def Agenten.klasse (agenten : Agenten) (name : String) : Option AgentClass :=
  (agenten.reverse.find? fun a => a.1 == name).map (·.2)

def istLstm (agenten : Agenten) (v : Vote) : Bool := (agenten.klasse v.agentName).any (·.lstm)

def istRl (agenten : Agenten) (v : Vote) : Bool := (agenten.klasse v.agentName).any (·.rl)

def lstmValid (agenten : Agenten) (votes : List Vote) : Bool :=
  votes.any fun v => istLstm agenten v && decide (0 < v.weight)

def rlValid (agenten : Agenten) (votes : List Vote) : Bool :=
  votes.any fun v => istRl agenten v && decide (0 < v.weight)

/-- The vote of the model is the abstention of one that the operator switched off. -/
def lstmDisabled (agenten : Agenten) (votes : List Vote) : Bool :=
  !lstmValid agenten votes &&
    votes.any fun v => istLstm agenten v && v.meinung == .enthalten .disabled

def strictMlGateBlocks (c : GateCfg) (lstmValid rlValid lstmDisabled : Bool) : Bool :=
  if !lstmValid then
    if !lstmDisabled then true else c.strictMlRequiresRl && !rlValid
  else if rlValid then false
  else c.strictMlRequiresRl

/-- Whether the strict gate stops a round. -/
def strictMlBlockiert (c : GateCfg) (agenten : Agenten) (votes : List Vote) : Bool :=
  strictMlGateBlocks c (lstmValid agenten votes) (rlValid agenten votes)
    (lstmDisabled agenten votes)

/-! ## Environment -/

inductive Aktion where
  | buy
  | sell
  | hold
deriving DecidableEq, Repr

/-- What a round reads besides the votes and the context.  `shouldTrade` is the second
model, `none` of the damping is a value that is no number, and `baut` says whether the
event can be built. -/
structure Umfeld where
  thresholds : Thresholds
  konsens : KonsensCfg
  gate : GateCfg
  agenten : Agenten
  shouldTrade : List Vote → ExtRat → Except String (Bool × String)
  drawdownGuardConditionerEnabled : Bool
  drawdownConvictionDampMax : Option ExtRat
  baut : Aktion → ExtRat → Bool

/-! ## Phase 3: the gates -/

structure GatekeeperDecision where
  verdict : Except Veto Unit
  /-- The modes that the audit trail names after the reason. -/
  modi : String := ""

def GatekeeperDecision.approved (d : GatekeeperDecision) : Bool :=
  match d.verdict with
  | .ok _ => true
  | .error _ => false

def GatekeeperDecision.reason (F : Format) (symbol : String) (d : GatekeeperDecision) : String :=
  match d.verdict with
  | .ok _ => "AllChecksPassed: PDT, concentration and daily limit OK" ++ d.modi
  | .error v => v.text F symbol ++ d.modi

/-- The veto of an agent, which leaves a sale alone. -/
def applyAgentVeto (t : Thresholds) (d : GatekeeperDecision) (votes : List Vote)
    (score : ExtRat) : GatekeeperDecision :=
  match votes.find? (·.vetoed) with
  | some v => if .of t.sell ≤ score then ⟨.error (.agentVeto v.agentName v.reasoning), ""⟩ else d
  | none => d

/-- The gate of the second model, over what is approved so far. -/
def applyMetaLabel (u : Umfeld) (d : GatekeeperDecision) (votes : List Vote) (score : ExtRat) :
    GatekeeperDecision :=
  match d.verdict with
  | .error _ => d
  | .ok _ =>
      match nurBeiBuy score (metaLabelGate u.gate (u.shouldTrade votes score)) with
      | .ok _ => d
      | .error v => ⟨.error v, ""⟩

def lstmDisabledNote : String :=
  " | StrictML: LSTM disabled by operator (flag) — no LSTM vote required"

def rlAbstainedNote : String := " | StrictML: RL abstained — RL not required (flag)"

def gatekeeperDecision (u : Umfeld) (symbol : String) (ctx : Option Portfolio)
    (votes : List Vote) (score : ExtRat) : GatekeeperDecision :=
  if strictMlBlockiert u.gate u.agenten votes then ⟨.error .strictMl, ""⟩
  else
    ⟨resolveGatekeeperDecision u.gate symbol score ctx,
      (if lstmDisabled u.agenten votes then lstmDisabledNote else "") ++
        (if rlValid u.agenten votes then "" else rlAbstainedNote)⟩

/-- Phase 3.  The votes of a decision that is not approved are marked. -/
def compliancePruefen (u : Umfeld) (symbol : String) (ctx : Option Portfolio)
    (votes : List Vote) (score : ExtRat) : GatekeeperDecision × List Vote :=
  let d := gatekeeperDecision u symbol ctx votes score
  let d := applyAgentVeto u.thresholds d votes score
  let d := applyMetaLabel u d votes score
  (d, if d.approved then votes else votes.map fun v => { v with vetoed := true })

/-! ## Phase 4: the signal -/

structure SignalEvent where
  symbol : String
  action : Aktion
  conviction : ExtRat

def aktionAusSchwellen (t : Thresholds) (score : ExtRat) : Aktion :=
  if .of t.buy < score then .buy
  else if score < .of t.sell then .sell
  else .hold

/-- The damping of a purchase by the guard of drawdowns.  `none` is a guard whose score
is no number. -/
def drawdownDaempfung (u : Umfeld) (score : ExtRat) (action : Aktion) (votes : List Vote) :
    Option (Aktion × ExtRat) :=
  if action = .buy ∧ u.drawdownGuardConditionerEnabled = true then
    match votes.find? fun v => v.agentName == "DrawdownGuardAgent" with
    | none => some (action, score)
    | some dg =>
        match dg.meinung with
        | .enthalten _ => none
        | .score s =>
            let dampMax := u.drawdownConvictionDampMax.getD (.of (8 / 10))
            let severity := ExtRat.pyMax 0 (ExtRat.pyMin (.of 1) (.of 1 - s))
            let conviction := score * (.of 1 - dampMax * severity)
            some (if conviction < .of u.thresholds.buy then .hold else action, conviction)
  else some (action, score)

def scoreToSignal (u : Umfeld) (symbol : String) (score : ExtRat) (votes : List Vote) :
    Option SignalEvent :=
  (drawdownDaempfung u score (aktionAusSchwellen u.thresholds score) votes).bind
    fun (action, conviction) =>
      if u.baut action conviction then some ⟨symbol, action, conviction⟩ else none

def signalAbleiten (u : Umfeld) (symbol : String) (score : ExtRat) (d : GatekeeperDecision)
    (votes : List Vote) : Option SignalEvent :=
  if d.approved then scoreToSignal u symbol score votes else none

/-! ## The round -/

/-- The votes that were cast.  An agent that timed out, raised or returned nothing is
`none`. -/
def abstimmen (results : List (Option Vote)) : List Vote := results.filterMap id

def runRoundTable (u : Umfeld) (symbol : String) (ctx : Option Portfolio)
    (results : List (Option Vote)) : Option SignalEvent :=
  let votes := abstimmen results
  if votes.isEmpty then none
  else
    let score := aggregate u.konsens votes
    let votes := konditioniert u.konsens votes
    let (d, votes) := compliancePruefen u symbol ctx votes score
    signalAbleiten u symbol score d votes

/-! ## What the gates approve -/

section

variable {u : Umfeld} {symbol : String} {ctx : Option Portfolio} {votes : List Vote}
  {score : ExtRat}

/-- The gatekeeper approves what the rule of the day traders leaves alone and, if it is
a purchase for it, what no gate for purchases finds. -/
theorem resolve_eq_ok_iff {c : GateCfg} : resolveGatekeeperDecision c symbol score ctx = .ok () ↔
    pdtGreift c (ctx.getD {}) symbol (decide (score < sellThreshold)) = false ∧
      (buyThreshold < score → contextGate c ctx = none ∧ positionLockGate (ctx.getD {}) = none ∧
        concentrationGate (ctx.getD {}) symbol = none ∧ sectorGate (ctx.getD {}) symbol = none ∧
        dailyGate (ctx.getD {}) = none ∧ churnGate (ctx.getD {}) symbol = none ∧
        timingGate (ctx.getD {}) = none) := by
  rw [eq_ok_iff_ends]
  by_cases hbuy : buyThreshold < score
  · simp [resolveGatekeeperDecision, check, hbuy, ← Option.eq_none_iff_forall_ne_some]
    tauto
  · simp [resolveGatekeeperDecision, check, hbuy]

theorem approved_iff {d : GatekeeperDecision} : d.approved = true ↔ d.verdict = .ok () := by
  unfold GatekeeperDecision.approved
  cases d.verdict with
  | error v => simp
  | ok a => simp

theorem gatekeeperDecision_ok_iff : (gatekeeperDecision u symbol ctx votes score).verdict = .ok () ↔
    strictMlBlockiert u.gate u.agenten votes = false ∧
      resolveGatekeeperDecision u.gate symbol score ctx = .ok () := by
  unfold gatekeeperDecision
  cases strictMlBlockiert u.gate u.agenten votes with
  | true => simp
  | false => simp

theorem applyAgentVeto_ok_iff {t : Thresholds} {d : GatekeeperDecision} :
    (applyAgentVeto t d votes score).verdict = .ok () ↔
      d.verdict = .ok () ∧ ((∃ v ∈ votes, v.vetoed = true) → ¬ .of t.sell ≤ score) := by
  unfold applyAgentVeto
  cases hfind : votes.find? (·.vetoed) with
  | none =>
      rw [List.find?_eq_none] at hfind
      have hkein : ¬ ∃ v ∈ votes, v.vetoed = true := by
        rintro ⟨v, hv, hveto⟩
        exact hfind v hv hveto
      simp [hkein]
  | some v =>
      have hein : ∃ v ∈ votes, v.vetoed = true :=
        ⟨v, List.mem_of_find?_eq_some hfind, List.find?_some hfind⟩
      by_cases hsell : .of t.sell ≤ score
      · simp [hsell, hein]
      · simp [hsell]

theorem applyMetaLabel_ok_iff {d : GatekeeperDecision} :
    (applyMetaLabel u d votes score).verdict = .ok () ↔ d.verdict = .ok () ∧
      (buyThreshold < score → metaLabelGate u.gate (u.shouldTrade votes score) = none) := by
  unfold applyMetaLabel
  cases hd : d.verdict with
  | error v => simp [hd]
  | ok a =>
      cases hm : metaLabelGate u.gate (u.shouldTrade votes score) with
      | none => simp [nurBeiBuy, hd]
      | some v =>
          by_cases hbuy : buyThreshold < score
          · simp [nurBeiBuy, gate, hbuy]
          · simp [nurBeiBuy, gate, hbuy, hd]

/-- What a decision that is approved has passed. -/
theorem approved_compliancePruefen_iff :
    (compliancePruefen u symbol ctx votes score).1.approved = true ↔
      strictMlBlockiert u.gate u.agenten votes = false ∧
        resolveGatekeeperDecision u.gate symbol score ctx = .ok () ∧
        ((∃ v ∈ votes, v.vetoed = true) → ¬ .of u.thresholds.sell ≤ score) ∧
        (buyThreshold < score → metaLabelGate u.gate (u.shouldTrade votes score) = none) := by
  rw [approved_iff]
  show (applyMetaLabel u _ votes score).verdict = .ok () ↔ _
  rw [applyMetaLabel_ok_iff, applyAgentVeto_ok_iff, gatekeeperDecision_ok_iff]
  tauto

/-! ## Who rejects -/

/-- A decision that a gate for purchases rejects is about a purchase. -/
def GatekeeperDecision.KaufBeiKauf (d : GatekeeperDecision) (score : ExtRat) : Prop :=
  ∀ w, d.verdict = .error (.kauf w) → buyThreshold < score

theorem resolve_kauf {c : GateCfg} {w : BuyVeto}
    (h : resolveGatekeeperDecision c symbol score ctx = .error (.kauf w)) :
    buyThreshold < score := by
  by_contra hbuy
  have hends : Ends (fun v => v ≠ .kauf w) (fun _ => True)
      (resolveGatekeeperDecision c symbol score ctx) := by
    simp [resolveGatekeeperDecision, check, hbuy]
  rw [h] at hends
  exact hends rfl

theorem kaufBeiKauf_gatekeeperDecision :
    (gatekeeperDecision u symbol ctx votes score).KaufBeiKauf score := by
  intro w h
  unfold gatekeeperDecision at h
  split at h
  next => cases h
  next => exact resolve_kauf h

theorem kaufBeiKauf_applyAgentVeto {t : Thresholds} {d : GatekeeperDecision}
    (hd : d.KaufBeiKauf score) : (applyAgentVeto t d votes score).KaufBeiKauf score := by
  intro w h
  unfold applyAgentVeto at h
  split at h
  next =>
    split at h
    next => cases h
    next => exact hd w h
  next => exact hd w h

theorem kaufBeiKauf_applyMetaLabel {d : GatekeeperDecision} (hd : d.KaufBeiKauf score) :
    (applyMetaLabel u d votes score).KaufBeiKauf score := by
  intro w h
  by_contra hbuy
  have hends : Ends (fun _ => False) (fun _ => True)
      (nurBeiBuy score (metaLabelGate u.gate (u.shouldTrade votes score))) := by
    simp [hbuy]
  unfold applyMetaLabel at h
  split at h
  next => exact hbuy (hd w h)
  next hok =>
    split at h
    next =>
      rw [hok] at h
      cases h
    next hv =>
      rw [hv] at hends
      exact hends

theorem kaufBeiKauf_compliancePruefen :
    (compliancePruefen u symbol ctx votes score).1.KaufBeiKauf score :=
  kaufBeiKauf_applyMetaLabel (kaufBeiKauf_applyAgentVeto kaufBeiKauf_gatekeeperDecision)

end

end RoundTable
