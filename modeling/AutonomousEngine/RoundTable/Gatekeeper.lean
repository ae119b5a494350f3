import AutonomousEngine.Basis.Gates
import AutonomousEngine.RoundTable.Konsens

/-!
# The gatekeeper

The gates between a consensus and a signal.  Most of them concern purchases only,
and each of these asks by itself whether the consensus is a purchase.  It asks a
constant of its own (`buyThreshold`), not the threshold of the configuration.

A gate is modelled in two parts: what it finds (`Option Veto`), and the question
whether the consensus is a purchase (`nurBeiBuy`).
-/

namespace RoundTable

open Basis

/-! ## Context -/

/-- `portfolio_context`.  An absent key is `none`. -/
structure Portfolio where
  positionLocked : Option Bool := none
  dayTradesLast5d : Option ℤ := none
  equity : Option ExtRat := none
  tradedToday : String → Option Bool := fun _ => none
  symbolWeights : String → Option ExtRat := fun _ => none
  sectorWeights : String → Option ExtRat := fun _ => none
  symbolSectorMap : String → Option String := fun _ => none
  currentDailyTrades : Option ℤ := none
  maxDailyTrades : Option ℤ := none
  symbolChurnGuardActive : Option Bool := none
  symbolTradesTodayValid : Option Bool := none
  symbolTradesToday : String → Option ℤ := fun _ => none
  maxTradesPerSymbol : Option ℤ := none
  intradayTimingActive : Option Bool := none
  minutesSinceMarketOpen : Option ExtRat := none
  noBuyOpeningMinutes : Option ℤ := none
  lastBuyElapsedMinutes : Option ExtRat := none
  globalBuyCooldownMinutes : Option ℤ := none
  buysLastHour : Option ℤ := none
  maxBuysPerHour : Option ℤ := none

/-- What the gates read from the configuration. -/
structure GateCfg where
  pdtFinraAccurate : Bool
  requireContext : Bool
  strictMlRequiresRl : Bool
  metaLabelFilterEnabled : Bool
  metaLabelRequireModel : Bool

/-- A minute count beside a measured time. -/
def minuten (n : ℤ) : ExtRat := .of n

/-! ## Vetoes -/

/-- Why a purchase is not approved. -/
inductive BuyVeto where
  | positionLocked
  | concentrationLimit (weight : ExtRat)
  | sectorConcentrationLimit (sector : String) (weight : ExtRat)
  | dailyLimit (current max : ℤ)
  | churnUnavailable
  | symbolDailyLimit (n max : ℤ)
  | openingNoise (window : ℤ)
  | buyCooldown (elapsed : ExtRat) (cooldown : ℤ)
  | buysPerHour (n max : ℤ)
  | requireContext
  | metaLabel (reason : String)
  | metaLabelError (exc : String)
deriving DecidableEq

/-- Why a consensus is not approved. -/
inductive Veto where
  | kauf (v : BuyVeto)
  | pdtLimit (dayTrades : ℤ)
  | strictMl
  | agentVeto (agentName reasoning : String)
deriving DecidableEq

/-- The formats of a reason: a share in percent and a time with one decimal. -/
structure Format where
  percent : ExtRat → String
  oneDecimal : ExtRat → String

def pdtMaxDayTrades : ℤ := 3

def concentrationLimit : ExtRat := .of (25 / 100)

def sectorConcentrationLimit : ExtRat := .of (30 / 100)

/-- What a gate says of a consensus to buy. -/
def buyThreshold : ExtRat := .of (65 / 100)

/-- What the gate of the day traders says of a consensus to sell. -/
def sellThreshold : ExtRat := .of (35 / 100)

def pdtFinraMaxDayTrades : ℤ := 4

def pdtFinraEquityFloor : ExtRat := .of 25000

/-- The reason of a purchase that is not approved. -/
def BuyVeto.text (F : Format) (symbol : String) : BuyVeto → String
  | .positionLocked =>
      "PositionLocked: An open position or an in-progress swap blocks a new BUY trade"
  | .concentrationLimit w =>
      "ConcentrationLimit: " ++ symbol ++ " already at " ++ F.percent w
        ++ " of the portfolio (limit: " ++ F.percent RoundTable.concentrationLimit
        ++ "). Only risk-reducing SELL signals are allowed."
  | .sectorConcentrationLimit s w =>
      "SectorConcentrationLimit: sector '" ++ s ++ "' already at " ++ F.percent w
        ++ " of the portfolio (limit: " ++ F.percent RoundTable.sectorConcentrationLimit
        ++ "). Only risk-reducing SELL signals are allowed."
  | .dailyLimit n m => "DailyLimit: " ++ toString n ++ "/" ++ toString m ++ " trades reached today"
  | .churnUnavailable =>
      "SymbolChurnGuard: fill-count unavailable — blocking BUYs (fail-safe)"
  | .symbolDailyLimit n m =>
      "SymbolDailyLimit: " ++ toString n ++ "/" ++ toString m ++ " trades for " ++ symbol
        ++ " today"
  | .openingNoise m =>
      "OpeningNoiseGuard: no-BUY window active (first " ++ toString m ++ "m after open)"
  | .buyCooldown t m =>
      "BuyPacingGuard: cooldown active (last BUY " ++ F.oneDecimal t ++ "m < " ++ toString m
        ++ "m ago)"
  | .buysPerHour n m =>
      "BuyPacingGuard: max buys per hour reached (" ++ toString n ++ " >= " ++ toString m ++ ")"
  | .requireContext =>
      "GatekeeperStrict: portfolio context unavailable — BUY blocked (GATEKEEPER_REQUIRE_CONTEXT)."
  | .metaLabel r => "MetaLabel: " ++ r
  | .metaLabelError e => "MetaLabel: error (" ++ e ++ ") — fail-closed (META_LABEL_REQUIRE_MODEL)"

/-- The reason that the audit trail shows. -/
def Veto.text (F : Format) (symbol : String) : Veto → String
  | .kauf v => v.text F symbol
  | .pdtLimit n =>
      "PDTLimit: " ++ toString n ++ " day trades in 5 days (limit: "
        ++ toString pdtMaxDayTrades ++ ")"
  | .strictMl => "Missing core ML votes (LSTM/RL failed or excluded)"
  | .agentVeto a r => "Agent VETO (" ++ a ++ "): " ++ r

/-! ## The rule of the day traders -/

/-- The day-trade count at which the block engages. -/
def pdtDayTradeLimit (c : GateCfg) : ℤ :=
  if c.pdtFinraAccurate then pdtFinraMaxDayTrades else pdtMaxDayTrades

/-- False only when the equity proves that the account is outside the rule. -/
def pdtRuleCanBind (c : GateCfg) (ctx : Portfolio) : Bool :=
  if c.pdtFinraAccurate then
    match ctx.equity with
    | some equity => !decide (pdtFinraEquityFloor ≤ equity)
    | none => true
  else true

/-- Whether the rule stops a symbol, a sale with a fill of today included. -/
def pdtGreift (c : GateCfg) (ctx : Portfolio) (symbol : String) (verkauf : Bool) : Bool :=
  pdtRuleCanBind c ctx && decide (pdtDayTradeLimit c ≤ ctx.dayTradesLast5d.getD 0) &&
    !(verkauf && !(ctx.tradedToday symbol).getD true)

/-! ## What the gates for purchases find -/

def positionLockGate (ctx : Portfolio) : Option BuyVeto :=
  if ctx.positionLocked.getD false then some .positionLocked else none

def concentrationGate (ctx : Portfolio) (symbol : String) : Option BuyVeto :=
  let symbolWeight := (ctx.symbolWeights symbol).getD 0
  if concentrationLimit ≤ symbolWeight then some (.concentrationLimit symbolWeight) else none

def sectorGate (ctx : Portfolio) (symbol : String) : Option BuyVeto :=
  let sector := (ctx.symbolSectorMap symbol).getD "Unknown"
  let sectorWeight := (ctx.sectorWeights sector).getD 0
  if sectorConcentrationLimit ≤ sectorWeight then
    some (.sectorConcentrationLimit sector sectorWeight)
  else none

def dailyGate (ctx : Portfolio) : Option BuyVeto :=
  let currentDaily := ctx.currentDailyTrades.getD 0
  let maxDaily := ctx.maxDailyTrades.getD 50
  if maxDaily ≤ currentDaily then some (.dailyLimit currentDaily maxDaily) else none

def churnGate (ctx : Portfolio) (symbol : String) : Option BuyVeto :=
  if ctx.symbolChurnGuardActive.getD false then
    if ctx.symbolTradesTodayValid.getD false then
      let maxPerSymbol := ctx.maxTradesPerSymbol.getD 5
      let n := (ctx.symbolTradesToday symbol).getD 0
      if maxPerSymbol ≤ n then some (.symbolDailyLimit n maxPerSymbol) else none
    else some .churnUnavailable
  else none

def openingNoise (ctx : Portfolio) : Option BuyVeto :=
  let noBuyOpen := ctx.noBuyOpeningMinutes.getD 30
  ctx.minutesSinceMarketOpen.bind fun minsOpen =>
    if minsOpen < minuten noBuyOpen then some (.openingNoise noBuyOpen) else none

def buyCooldown (ctx : Portfolio) : Option BuyVeto :=
  let cooldown := ctx.globalBuyCooldownMinutes.getD 30
  ctx.lastBuyElapsedMinutes.bind fun lastBuy =>
    if lastBuy < minuten cooldown then some (.buyCooldown lastBuy cooldown) else none

def buysPerHour (ctx : Portfolio) : Option BuyVeto :=
  let maxHr := ctx.maxBuysPerHour.getD 2
  ctx.buysLastHour.bind fun n => if maxHr ≤ n then some (.buysPerHour n maxHr) else none

def timingGate (ctx : Portfolio) : Option BuyVeto :=
  if ctx.intradayTimingActive.getD false then
    openingNoise ctx <|> buyCooldown ctx <|> buysPerHour ctx
  else none

def contextGate (c : GateCfg) : Option Portfolio → Option BuyVeto
  | none => if c.requireContext then some .requireContext else none
  | some _ => none

/-- The gate of the second model.  `shouldTrade` is its answer with a reason, or the
text of what it raised. -/
def metaLabelGate (c : GateCfg) (shouldTrade : Except String (Bool × String)) : Option BuyVeto :=
  if c.metaLabelFilterEnabled then
    match shouldTrade with
    | .ok (trade, reason) => if trade then none else some (.metaLabel reason)
    | .error exc => if c.metaLabelRequireModel then some (.metaLabelError exc) else none
  else none

/-- The gates for purchases, in their order. -/
def buyGates (c : GateCfg) (ctx : Option Portfolio) (symbol : String)
    (shouldTrade : Except String (Bool × String)) : List (Option BuyVeto) :=
  let p := ctx.getD {}
  [contextGate c ctx, positionLockGate p, concentrationGate p symbol, sectorGate p symbol,
    dailyGate p, churnGate p symbol, timingGate p, metaLabelGate c shouldTrade]

/-! ## The gatekeeper -/

def nurBeiBuy (score : ExtRat) : Option BuyVeto → Except Veto Unit
  | some v => gate (!decide (buyThreshold < score)) (.kauf v)
  | none => .ok ()

def check (c : GateCfg) (symbol : String) (score : ExtRat) (ctx : Portfolio) :
    Except Veto Unit := do
  nurBeiBuy score (positionLockGate ctx)
  gate (!pdtGreift c ctx symbol (decide (score < sellThreshold)))
    (.pdtLimit (ctx.dayTradesLast5d.getD 0))
  nurBeiBuy score (concentrationGate ctx symbol)
  nurBeiBuy score (sectorGate ctx symbol)
  nurBeiBuy score (dailyGate ctx)
  nurBeiBuy score (churnGate ctx symbol)
  nurBeiBuy score (timingGate ctx)

/-- The checks with the policy for a missing context. -/
def resolveGatekeeperDecision (c : GateCfg) (symbol : String) (score : ExtRat)
    (ctx : Option Portfolio) : Except Veto Unit := do
  nurBeiBuy score (contextGate c ctx)
  check c symbol score (ctx.getD {})

/-- The rule of a gate for purchases. -/
@[simp] theorem ends_nurBeiBuy {P : Veto → Prop} {Q : Unit → Prop} {score : ExtRat}
    {g : Option BuyVeto} : Ends P Q (nurBeiBuy score g) ↔
      (∀ v, g = some v → buyThreshold < score → P (.kauf v)) ∧
        ((buyThreshold < score → g = none) → Q ()) := by
  cases g with
  | none => simp [nurBeiBuy]
  | some v =>
      show Ends P Q (gate (!decide (buyThreshold < score)) (.kauf v)) ↔ _
      rw [ends_gate]
      by_cases h : buyThreshold < score
      · simp [h]
      · simp [h]

end RoundTable
