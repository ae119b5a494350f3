import AutonomousEngine.PortfolioKern.Bestand

/-!
# Displacement

A full book takes a new name only in exchange for the weakest position it holds.  The
debate over the exchange is opened by two vetoes, the holding period and the consensus
that still retains the position, and is decided by the difference of the scores.  How
many exchanges a day may see is counted by the date of the engine.
-/

namespace PortfolioKern

open Basis

/-! ## The trade book -/

def letzter (t : ℤ) (ts : List ℤ) : ℤ := ts.foldl max t

def sekunden (t t' : ℤ) : ExtRat := .of ((t' - t : ℤ) / 1000000)

/-- Whether a symbol was traded a moment ago. -/
def withinOrderCooldown (m : Manager) (u : Umfeld) (b : Buch) (symbol : String) : Bool :=
  if m.minOrderIntervalSec ≤ 0 then false
  else
    match dictGet symbol b.tradeHistory with
    | some (t :: ts) => decide (sekunden (letzter t ts) u.jetzt < m.minOrderIntervalSec)
    | _ => false

/-- The trades of a symbol on the trading day of the clock. -/
def tradesToday (u : Umfeld) (b : Buch) (symbol : String) : ℤ :=
  match dictGet symbol b.tradeHistory with
  | some ts => (ts.filter fun t => u.tradingDayEt t = u.tradingDayEt u.jetzt).length
  | none => 0

/-- Whether the trades of the day leave room for another one.  A symbol without a
history is not counted. -/
def canTradeSymbolWhenRoom (m : Manager) (u : Umfeld) (b : Buch) (symbol : String) : Bool :=
  match dictGet symbol b.tradeHistory with
  | some _ => decide (tradesToday u b symbol < m.maxTradesPerDay)
  | none => true

/-- Whether a symbol is out of the cooldown of the rebalancing. -/
def rebalanceFrei (m : Manager) (u : Umfeld) (b : Buch) (symbol : String) : Bool :=
  match dictGet symbol b.lastRebalance with
  | some t => !decide (sekunden t u.jetzt / .of 3600 < oder m.rebalanceCooldownHours (.of (1 / 2)))
  | none => true

/-- Whether a symbol may be traded when the book is full. -/
def canTradeSymbol (m : Manager) (u : Umfeld) (b : Buch) (symbol : String) : Bool :=
  rebalanceFrei m u b symbol && canTradeSymbolWhenRoom m u b symbol

/-! ## Candidates and reasons -/

/-- A candidate for a position. -/
structure OpportunityScore where
  symbol : String
  totalScore : ExtRat := .of 50
  argumentsFor : List String := []
  argumentsAgainst : List String := []

/-- An argument of the debate, one of the candidate's own or one with its data. -/
inductive Argument where
  | vorgebracht (text : String)
  | hoeher (scoreDiff : ExtRat)
  | imVerlust (symbol : String) (pnl : ExtRat)
  | langeGehalten (symbol : String) (days : ℤ)
  | knapp (scoreDiff : ExtRat)
  | imGewinn (symbol : String) (pnl : ExtRat)
  | geradeGekauft (symbol : String)
  | churn (symbol : String)
  | cooldown (symbol : String)
deriving DecidableEq

/-- Why a candidate is taken or declined, with the data of the text. -/
inductive Grund where
  | orderCooldown (symbol : String) (interval : ExtRat)
  | slotUnverified
  | bookOverflow (positions maxPositions : ℤ)
  | slotHold (reserved positions maxPositions : ℤ)
  | dailyLimit (symbol : String)
  | deadBand (symbol : String) (held target : ExtRat)
  | platz (positions maxPositions : ℤ)
  | scoreZuNiedrig (score : ExtRat)
  | cooldown (symbol : String)
  | displacementDisabled
  | sessionCap (bisher : ℕ) (cap : ℤ)
  | keinePositionen
  | haltefrist (symbol : String) (days : ℤ) (minHoldDays : ExtRat)
  | konsens (symbol : String)
  | strongUpgrade (symbol : String) (score : ExtRat) (weakest : String) (weakestScore : ExtRat)
  | upgrade (symbol weakest : String) (argsFor argsAgainst : ℕ)
  | cutLoser (weakest : String) (pnl : ExtRat)
  | behalten (weakest : String) (scoreDiff : ExtRat)
  | behaltenWegen (weakest : String) (arg : Argument)
deriving DecidableEq

/-! ## The debate -/

/-- The holding period for displacement, zero when it does not gate. -/
def displacementMinHoldDays : Option Config → ExtRat
  | some cfg => if cfg.displacementRespectsMinHold then oder cfg.smartExitMinHoldDays 0 else 0
  | none => 0

/-- Whether the holding period protects a position. -/
def haltefristVeto (minHoldDays : ExtRat) (p : PositionScore) : Bool :=
  decide (0 < minHoldDays) && p.ageKnown && decide (.of p.daysHeld < minHoldDays)

def retentionThreshold : Option Config → ExtRat
  | some cfg => oder cfg.consensusRetentionThreshold 0
  | none => 0

/-- Whether the round table still retains a symbol.  Without a consensus it does not. -/
def konsensVeto (cfg : Option Config) (b : Buch) (symbol : String) : Bool :=
  if retentionThreshold cfg ≤ 0 then false
  else
    match dictGet symbol b.liveConsensus with
    | some consensus => decide (retentionThreshold cfg < consensus)
    | none => false

def scoreDiff (o : OpportunityScore) (p : PositionScore) : ExtRat := o.totalScore - p.totalScore

def wenn (h : Bool) (a : Argument) : List Argument := if h then [a] else []

def argumenteDafuer (o : OpportunityScore) (p : PositionScore) (minHoldDays : ExtRat) :
    List Argument :=
  o.argumentsFor.map .vorgebracht ++
    (wenn (decide (.of 15 < scoreDiff o p)) (.hoeher (scoreDiff o p)) ++
    (wenn (decide (p.unrealizedPnlPct < .of (-5))) (.imVerlust p.symbol p.unrealizedPnlPct) ++
    wenn (decide ((if 0 < minHoldDays then minHoldDays else .of 5) < .of p.daysHeld) &&
      decide (p.unrealizedPnlPct < .of 2)) (.langeGehalten p.symbol p.daysHeld)))

def argumenteDagegen (m : Manager) (u : Umfeld) (b : Buch) (o : OpportunityScore)
    (p : PositionScore) : List Argument :=
  o.argumentsAgainst.map .vorgebracht ++
    (wenn (decide (scoreDiff o p < .of 10)) (.knapp (scoreDiff o p)) ++
    (wenn (decide (.of 5 < p.unrealizedPnlPct)) (.imGewinn p.symbol p.unrealizedPnlPct) ++
    (wenn (decide (p.daysHeld < 1)) (.geradeGekauft p.symbol) ++
    (wenn (!canTradeSymbol m u b p.symbol) (.churn p.symbol) ++
    wenn (!canTradeSymbol m u b o.symbol) (.cooldown o.symbol)))))

/-- The decision, in its fixed order of branches. -/
def debatteEntscheid (o : OpportunityScore) (p : PositionScore) (dafuer dagegen : List Argument) :
    Bool × Grund :=
  if .of 15 < scoreDiff o p then
    (true, .strongUpgrade o.symbol o.totalScore p.symbol p.totalScore)
  else if .of 10 < scoreDiff o p ∧ dagegen.length ≤ dafuer.length then
    (true, .upgrade o.symbol p.symbol dafuer.length dagegen.length)
  else if .of 8 < scoreDiff o p ∧ p.unrealizedPnlPct < .of (-2) then
    (true, .cutLoser p.symbol p.unrealizedPnlPct)
  else
    match dagegen with
    | [] => (false, .behalten p.symbol (scoreDiff o p))
    | arg :: _ => (false, .behaltenWegen p.symbol arg)

/-- Whether the weakest position is given up for a candidate. -/
def debatePositionSwap (m : Manager) (u : Umfeld) (b : Buch) (o : OpportunityScore) :
    Option PositionScore → Bool × Grund
  | none => (true, .keinePositionen)
  | some p =>
      let minHoldDays := displacementMinHoldDays u.cfg
      if haltefristVeto minHoldDays p then (false, .haltefrist p.symbol p.daysHeld minHoldDays)
      else if konsensVeto u.cfg b p.symbol then (false, .konsens p.symbol)
      else debatteEntscheid o p (argumenteDafuer o p minHoldDays) (argumenteDagegen m u b o p)

/-! ## The session cap -/

/-- The most displacements of a day, zero for no cap. -/
def displacementSessionCap : Option Config → ℤ
  | some cfg => max 0 cfg.displacementMaxPerSession
  | none => 0

/-- The counter on a date.  It starts again when the date changes. -/
def Buch.amTag (b : Buch) (heute : ℤ) : Buch :=
  if b.displacementSessionDate = some heute then b
  else { b with displacementSessionDate := some heute, displacementsSession := 0 }

/-- Whether a displacement is left, for a counter that is on its date. -/
def sessionBudgetOk (cap : ℤ) (b : Buch) : Bool :=
  decide (cap ≤ 0) || decide ((b.displacementsSession : ℤ) < cap)

def noteDisplacement (heute : ℤ) (b : Buch) : Buch :=
  { b.amTag heute with displacementsSession := (b.amTag heute).displacementsSession + 1 }

/-! ## When the debate ends in an exchange -/

/-- Whether the scores speak for an exchange. -/
def ueberlegen (o : OpportunityScore) (p : PositionScore) (dafuer dagegen : ℕ) : Prop :=
  .of 15 < scoreDiff o p ∨ (.of 10 < scoreDiff o p ∧ dagegen ≤ dafuer) ∨
    (.of 8 < scoreDiff o p ∧ p.unrealizedPnlPct < .of (-2))

theorem debatteEntscheid_iff {o : OpportunityScore} {p : PositionScore}
    {dafuer dagegen : List Argument} : (debatteEntscheid o p dafuer dagegen).1 = true ↔
      ueberlegen o p dafuer.length dagegen.length := by
  rw [debatteEntscheid.eq_def, ueberlegen]
  split
  next h => exact iff_of_true rfl (.inl h)
  next h =>
    split
    next h' => exact iff_of_true rfl (.inr (.inl h'))
    next h' =>
      split
      next h'' => exact iff_of_true rfl (.inr (.inr h''))
      next h'' =>
        refine iff_of_false ?_ ?_
        · cases dagegen with
          | nil => exact Bool.false_ne_true
          | cons arg args => exact Bool.false_ne_true
        · rintro (h1 | h1 | h1)
          · exact h h1
          · exact h' h1
          · exact h'' h1

theorem debatePositionSwap_iff {m : Manager} {u : Umfeld} {b : Buch} {o : OpportunityScore}
    {p : PositionScore} : (debatePositionSwap m u b o (some p)).1 = true ↔
      haltefristVeto (displacementMinHoldDays u.cfg) p = false ∧
      konsensVeto u.cfg b p.symbol = false ∧
      ueberlegen o p (argumenteDafuer o p (displacementMinHoldDays u.cfg)).length
        (argumenteDagegen m u b o p).length := by
  rw [debatePositionSwap]
  split
  next hhalte =>
    refine iff_of_false Bool.false_ne_true ?_
    rintro ⟨hfrei, -⟩
    exact absurd (hhalte.symm.trans hfrei) (by decide)
  next hhalte =>
    rw [eq_true (Bool.eq_false_of_not_eq_true hhalte), true_and]
    split
    next hkonsens =>
      refine iff_of_false Bool.false_ne_true ?_
      rintro ⟨hfrei, -⟩
      exact absurd (hkonsens.symm.trans hfrei) (by decide)
    next hkonsens =>
      rw [eq_true (Bool.eq_false_of_not_eq_true hkonsens), true_and]
      exact debatteEntscheid_iff

/-! ## What the date leaves alone -/

section

variable (b : Buch) (heute : ℤ)

@[simp] theorem amTag_displacementSessionDate :
    (b.amTag heute).displacementSessionDate = some heute := by
  rw [Buch.amTag]
  split
  next h => exact h
  next => rfl

theorem amTag_displacementsSession : (b.amTag heute).displacementsSession =
    if b.displacementSessionDate = some heute then b.displacementsSession else 0 := by
  rw [Buch.amTag]
  split
  next => rfl
  next => rfl

@[simp] theorem getWeakestPosition_amTag :
    getWeakestPosition (b.amTag heute) = getWeakestPosition b := by
  rw [Buch.amTag]
  split
  next => rfl
  next => rfl

@[simp] theorem debatePositionSwap_amTag (m : Manager) (u : Umfeld) (o : OpportunityScore)
    (p : Option PositionScore) :
    debatePositionSwap m u (b.amTag heute) o p = debatePositionSwap m u b o p := by
  rw [Buch.amTag]
  split
  next => rfl
  next =>
    cases p with
    | none => rfl
    | some p => rfl

end

end PortfolioKern
