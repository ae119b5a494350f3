import AutonomousEngine.Basis.ExtRat
import AutonomousEngine.Gateway.Liquidation

/-!
# The account and its halts

The risk manager is told the equity of the account once a cycle.  A call goes
through four stages and, where unlocking is allowed, a fifth one: the portfolio
stop from the start of the session, the drawdown from the peak, the warning
phase, the daily breaker and the recovery.  All of them read and write the same
few flags.

What a stage does outside the risk manager (`Wirkung`) is written to a list.  A
report to the cloud goes into a queue, and each of the other calls may raise.  So
a stage that makes one ends in `Except` with a state on either side: the state it
hands on, or the one it leaves behind when it raises.

Numbers are `ExtRat`, since an equity may be infinite or no number.
-/

namespace Konto

open Basis

/-! ## What a call may do outside -/

/-- Why the kill switch is tripped, with the number in the text of the reason. -/
inductive Anlass where
  | portfolioStopLoss (pctDown : ExtRat)
  | dailyDrawdownLimit (drawdownPercent : ExtRat)
deriving DecidableEq, Repr

/-- `event_type` of an event for the cloud. -/
inductive EventType where
  | portfolioStopLoss
  | warning
  | recovery
  | circuitBreaker
  | unlock
deriving DecidableEq, Repr

/-- An event for the cloud. -/
structure RiskEvent where
  eventType : EventType
  triggerValue : ExtRat
  thresholdValue : ExtRat
  equity : ExtRat
deriving DecidableEq, Repr

/-- A call outside the risk manager. -/
inductive Wirkung where
  | trip (reason : Anlass) (userId : Option String)
  | reset (userId : Option String)
  | uhr
  | cloud (ereignis : RiskEvent)
  /-- `liquidate_positions`, with the gateway. -/
  | liquidation (positions : List Gateway.Position)

/-- What the broker says about the positions of the account. -/
inductive Bestand where
  /-- It has no `get_all_positions`. -/
  | unbekannt
  /-- The call raised. -/
  | fehler
  | positionen (positions : List Gateway.Position)

/-- The world around one call. -/
structure Umgebung where
  wirft : Wirkung → Bool
  /-- In microseconds. -/
  jetzt : Int
  cloudLoggingAvailable : Bool
  bestand : Bestand

/-! ## The risk manager -/

structure RiskManager where
  userId : Option String
  sessionStartEquity : ExtRat
  portfolioStopLossPct : ExtRat
  portfolioStopTriggered : Bool
  dailyDrawdownLimitPercent : ExtRat
  dailyDrawdownLimit : ExtRat
  initialDailyEquity : ExtRat
  peakDailyEquity : ExtRat
  tradingHalted : Bool
  tradingReduced : Bool
  haltTriggerCount : Nat
  unlockRecoveryPercent : ExtRat
  lastHaltTime : Option Int

/-- A risk manager at the start of a session. -/
def RiskManager.neu (totalCapital dailyDrawdownLimitPercent portfolioStopLossPct : ExtRat)
    (userId : Option String) : RiskManager where
  userId := userId
  sessionStartEquity := totalCapital
  portfolioStopLossPct := portfolioStopLossPct
  portfolioStopTriggered := false
  dailyDrawdownLimitPercent := dailyDrawdownLimitPercent
  dailyDrawdownLimit := totalCapital * dailyDrawdownLimitPercent
  initialDailyEquity := totalCapital
  peakDailyEquity := totalCapital
  tradingHalted := false
  tradingReduced := false
  haltTriggerCount := 0
  unlockRecoveryPercent := .of (1 / 2)
  lastHaltTime := none

/-- A risk manager and the calls made outside so far. -/
structure Lage where
  rm : RiskManager
  verlauf : List Wirkung

/-- A stage hands a state on, or leaves one behind when it raises. -/
abbrev Ablauf : Type := Except Lage Lage

/-- The state a stage leaves, whichever way it ends. -/
def Ablauf.danach : Ablauf → Lage
  | .ok l => l
  | .error l => l

namespace Lage

def rufe (u : Umgebung) (w : Wirkung) (l : Lage) : Ablauf :=
  let l := { l with verlauf := l.verlauf ++ [w] }
  if u.wirft w then .error l else .ok l

/-- Reports to the cloud, where there is one. -/
def meldeCloud (u : Umgebung) (ereignis : RiskEvent) (l : Lage) : Lage :=
  if u.cloudLoggingAvailable then { l with verlauf := l.verlauf ++ [.cloud ereignis] } else l

/-! ## The stages -/

/-- The loss since the start of the session, as a part of what there was. -/
def pctDown (rm : RiskManager) (currentEquity : ExtRat) : ExtRat :=
  (rm.sessionStartEquity - currentEquity) / rm.sessionStartEquity

def loeseAus (u : Umgebung) (pct : ExtRat) (l : Lage) : Ablauf :=
  if !l.rm.portfolioStopTriggered then
    { l with rm := { l.rm with portfolioStopTriggered := true, tradingHalted := true } }.rufe u
      (.trip (.portfolioStopLoss pct) l.rm.userId)
  else .ok l

def kontoPortfolioStop (u : Umgebung) (currentEquity : ExtRat) (l : Lage) : Ablauf :=
  if 0 < l.rm.sessionStartEquity ∧ 0 < l.rm.portfolioStopLossPct then
    if l.rm.portfolioStopLossPct ≤ pctDown l.rm currentEquity then do
      let l ← l.loeseAus u (pctDown l.rm currentEquity)
      return l.meldeCloud u
        { eventType := .portfolioStopLoss
          triggerValue := l.rm.sessionStartEquity - currentEquity
          thresholdValue := l.rm.sessionStartEquity * l.rm.portfolioStopLossPct
          equity := currentEquity }
    else .ok l
  else .ok l

def mitSpitze (currentEquity : ExtRat) (l : Lage) : Lage :=
  if l.rm.peakDailyEquity < currentEquity then
    { l with rm := { l.rm with peakDailyEquity := currentEquity } }
  else l

/-- The drawdown from the peak, also in percent of it and relative to the limit. -/
structure Drawdown where
  drawdown : ExtRat
  drawdownPercent : ExtRat
  drawdownRatio : ExtRat

/-- What `_konto_drawdown` answers, after it has followed the peak. -/
def kontoDrawdown (rm : RiskManager) (currentEquity : ExtRat) : Drawdown :=
  let drawdown := rm.peakDailyEquity - currentEquity
  { drawdown
    drawdownPercent :=
      if 0 < rm.peakDailyEquity then drawdown / rm.peakDailyEquity * ExtRat.of 100 else 0
    drawdownRatio := if 0 < rm.dailyDrawdownLimit then drawdown / rm.dailyDrawdownLimit else 0 }

def kontoWarnstufe (u : Umgebung) (currentEquity : ExtRat) (d : Drawdown) (l : Lage) : Lage :=
  if ExtRat.of (3 / 5) < d.drawdownRatio ∧ !l.rm.tradingReduced ∧ !l.rm.tradingHalted then
    { l with rm := { l.rm with tradingReduced := true } }.meldeCloud u
      { eventType := .warning
        triggerValue := d.drawdown
        thresholdValue := l.rm.dailyDrawdownLimit * ExtRat.of (3 / 5)
        equity := currentEquity }
  else if d.drawdownRatio ≤ ExtRat.of (1 / 2) ∧ l.rm.tradingReduced ∧ !l.rm.tradingHalted then
    { l with rm := { l.rm with tradingReduced := false } }.meldeCloud u
      { eventType := .recovery
        triggerValue := d.drawdown
        thresholdValue := l.rm.dailyDrawdownLimit * ExtRat.of (1 / 2)
        equity := currentEquity }
  else l

def liquidateThroughGateway (u : Umgebung) (l : Lage) : Ablauf :=
  match u.bestand with
  | .unbekannt => .ok l
  | .fehler => .error l
  | .positionen [] => .ok l
  | .positionen positions => l.rufe u (.liquidation positions)

def anhalten (u : Umgebung) (currentEquity : ExtRat) (d : Drawdown) (l : Lage) : Ablauf := do
  let l ← { l with rm := { l.rm with tradingHalted := true } }.rufe u
    (.trip (.dailyDrawdownLimit d.drawdownPercent) l.rm.userId)
  let l ← l.rufe u .uhr
  let l : Lage :=
    { l with
      rm :=
        { l.rm with
          lastHaltTime := some u.jetzt
          haltTriggerCount := l.rm.haltTriggerCount + 1
          unlockRecoveryPercent := .of (1 / 2) } }
  return l.meldeCloud u
    { eventType := .circuitBreaker
      triggerValue := d.drawdown
      thresholdValue := l.rm.dailyDrawdownLimit
      equity := currentEquity }

/-- `_konto_breaker`.  The liquidation is tried after the halt, and what it raises is caught. -/
def kontoBreaker (u : Umgebung) (currentEquity : ExtRat) (d : Drawdown) (l : Lage) : Ablauf :=
  if l.rm.dailyDrawdownLimit < d.drawdown then
    if !l.rm.tradingHalted then do
      let l ← l.anhalten u currentEquity d
      return (l.liquidateThroughGateway u).danach
    else .ok l
  else .ok l

def stunden (von bis : Int) : ℚ := (bis - von : ℤ) / 3600000000

/-- The threshold of the recovery falls with the duration of the halt. -/
def mitSchwelle (u : Umgebung) (seit : Int) (l : Lage) : Lage :=
  let l := if stunden seit u.jetzt > 2 then
      { l with rm := { l.rm with unlockRecoveryPercent := .of (3 / 10) } }
    else l
  if stunden seit u.jetzt > 4 then
    { l with rm := { l.rm with unlockRecoveryPercent := .of (1 / 5) } }
  else l

def aufheben (u : Umgebung) (currentEquity : ExtRat) (d : Drawdown) (l : Lage) : Ablauf := do
  let schwelle := l.rm.dailyDrawdownLimit * l.rm.unlockRecoveryPercent
  let l ← { l with rm := { l.rm with tradingHalted := false } }.rufe u (.reset l.rm.userId)
  let l : Lage :=
    { l with
      rm := { l.rm with lastHaltTime := none, tradingReduced := false, haltTriggerCount := 0 } }
  return l.meldeCloud u
    { eventType := .unlock
      triggerValue := d.drawdown
      thresholdValue := schwelle
      equity := currentEquity }

/-- Reads the clock for a halt that has a time. -/
def mitDauer (u : Umgebung) (l : Lage) : Ablauf :=
  match l.rm.lastHaltTime with
  | none => .ok l
  | some seit => do
      let l ← l.rufe u .uhr
      return l.mitSchwelle u seit

def kontoErholung (u : Umgebung) (currentEquity : ExtRat) (d : Drawdown) (l : Lage) : Ablauf := do
  let l ← l.mitDauer u
  if d.drawdown ≤ l.rm.dailyDrawdownLimit * l.rm.unlockRecoveryPercent ∧
      !l.rm.portfolioStopTriggered then
    l.aufheben u currentEquity d
  else .ok l

/-- The recovery runs only where it is allowed. -/
def erholtSich (u : Umgebung) (currentEquity : ExtRat) (d : Drawdown) (allowUnlock : Bool)
    (l : Lage) : Ablauf :=
  if l.rm.tradingHalted && allowUnlock then l.kontoErholung u currentEquity d else .ok l

def kontoStufen (u : Umgebung) (currentEquity : ExtRat) (allowUnlock : Bool) (l : Lage) :
    Ablauf := do
  let l ← l.kontoPortfolioStop u currentEquity
  let l := l.mitSpitze currentEquity
  let d := kontoDrawdown l.rm currentEquity
  let l := l.kontoWarnstufe u currentEquity d
  let l ← l.kontoBreaker u currentEquity d
  l.erholtSich u currentEquity d allowUnlock

/-! ## The calls -/

/-- What a call is given for the equity. -/
inductive Equity where
  | keine
  | zahl (x : ExtRat)
  | unlesbar
deriving DecidableEq, Repr

/-- `update_account_equity`.  Nothing but a number gets past `float`. -/
def updateAccountEquity (u : Umgebung) (currentEquity : Equity) (allowUnlock : Bool) (l : Lage) :
    Ablauf :=
  match currentEquity with
  | .zahl x => l.kontoStufen u x allowUnlock
  | _ => .error l

def mitTageslimit (x : ExtRat) (l : Lage) : Lage :=
  { l with
    rm :=
      { l.rm with
        initialDailyEquity := x
        dailyDrawdownLimit := x * l.rm.dailyDrawdownLimitPercent
        tradingHalted := false } }

/-- `reset_daily_limit`.  No equity counts as zero. -/
def resetDailyLimit (currentEquity : Equity) (l : Lage) : Ablauf :=
  match currentEquity with
  | .keine => .ok (l.mitTageslimit 0)
  | .zahl x => .ok (l.mitTageslimit x)
  | .unlesbar => .error l

end Lage

/-- A call of the risk manager. -/
inductive Aufruf where
  | updateAccountEquity (u : Umgebung) (currentEquity : Lage.Equity) (allowUnlock : Bool)
  | resetDailyLimit (currentEquity : Lage.Equity)

def Lage.schritt (l : Lage) : Aufruf → Lage
  | .updateAccountEquity u currentEquity allowUnlock =>
      (l.updateAccountEquity u currentEquity allowUnlock).danach
  | .resetDailyLimit currentEquity => (l.resetDailyLimit currentEquity).danach

def Lage.lauf (l : Lage) (aufrufe : List Aufruf) : Lage :=
  aufrufe.foldl Lage.schritt l

end Konto
