import AutonomousEngine.Verkauf.Freigabe

/-!
# The two paths of a sale

A sell signal reaches the gateway on one of two paths.  The desktop path serves
the one account of an installation.  The tenant path serves an account under
many and holds a lock on the symbol meanwhile.

The paths resolve the quantity on their own.  The desktop takes the suggested
quantity and reads the position at the broker only when there is none
(`desktopMenge`).  A tenant always takes the position
(`schrittMandantBestand`), and the suggested quantity is a ceiling only for an
order that a human has approved (`schrittMandantMenge`).

Of both paths the branch of a sale is modelled, step by step in the order of the
source.
-/

namespace Verkauf

open Basis

/-- What the broker answers to the question for the position of a symbol. -/
inductive Positionsantwort where
  | menge (qty : Rat)
  | fehlt
  | fehler
deriving DecidableEq, Repr

/-- The held quantity that an answer is a witness for, zero when there is none. -/
def Positionsantwort.zeuge : Positionsantwort → Rat
  | .menge qty => |qty|
  | .fehlt => 0
  | .fehler => 0

/-- The quantity of an answer.  Without one the sale ends. -/
def Positionsantwort.lies : Positionsantwort → Except Abbruch Rat
  | .menge qty => .ok qty
  | .fehlt => .error .keinePosition
  | .fehler => .error .bestandUnlesbar

/-- What both paths meet. -/
structure Lage where
  marktGeschlossen : Bool
  getOpenPosition : Positionsantwort
  complianceGuardian : Option ComplianceGuardian
  dustFloor : DustConfig
  equity : Rat
  now : Rat
  shadowMode : Bool
  tor : TorLage

/-- What the desktop path meets.  Compliance may ask for the position once more. -/
structure DesktopLage extends Lage where
  getOpenPositionErneut : Positionsantwort
  portfolioManager : Option Handelsbuch
  hitl : HitlLage
  activeUid : Option String

/-- What the tenant path meets. -/
structure MandantLage extends Lage where
  lockErhalten : Bool
  portfolioManager : Handelsbuch
  userId : String

/-! ## Common steps -/

def complianceOrder (event : SignalEvent) (qty heldQty : Rat) (userId : String) :
    ComplianceOrder :=
  { symbol := event.symbol, side := event.action, quantity := qty
    price := event.decisionContext.currentPrice, userId, heldQty
    exitKind := classifyExitKind event }

/-- The iron dome: the order, the dust floor and the daily budget. -/
def eisenKuppel (L : Lage) (event : SignalEvent) (order : ComplianceOrder) (source : Quelle) :
    Except Abbruch Unit := do
  match L.complianceGuardian with
  | none => return ()
  | some g =>
      gate (g.checkOrder order) .checkOrder
      match dustFloorSkipsExit L.dustFloor event order.quantity order.heldQty L.equity with
      | some grund => .error (.staub grund)
      | none => gate (checkTrade g order source) .tageslimit

/-- The halt at one of the places where it is looked at. -/
def checkHalt (L : Lage) (event : SignalEvent) (punkt : HaltPunkt) : Except Abbruch Unit :=
  gate (haltExemptProtectiveExit event.decisionContext event.action || !L.tor.halt punkt) .halt

/-- The head of both paths: a sale that is no simulation, and an open market. -/
def schrittMarktOffen (L : Lage) (event : SignalEvent) : Except Abbruch Unit := do
  gate (event.action == .sell && !event.isSimulation) .keinVerkauf
  gate (!L.marktGeschlossen) .marktGeschlossen

/-! ## The desktop path -/

/-- The quantity of a sale and the witness for what is held. -/
def desktopMenge (L : DesktopLage) (event : SignalEvent) : Except Abbruch (Rat × Rat) :=
  if event.suggestedQuantity ≤ 0 then
    (fun qty => (qty, |qty|)) <$> L.getOpenPosition.lies
  else .ok (event.suggestedQuantity, 0)

/-- The minimum hold.  A risk exit would pass without a question. -/
def schrittDesktopVerkaufstor (L : DesktopLage) (event : SignalEvent) : Except Abbruch Unit :=
  match classifyExitKind event, L.portfolioManager with
  | some .risk, _ => .ok ()
  | _, none => .ok ()
  | _, some b =>
      let urteil := canSellPosition b L.now event.symbol
      gate urteil.1 (.gehalten urteil.2)

/-- Compliance.  Without a witness the position is read here. -/
def schrittCompliance (L : DesktopLage) (event : SignalEvent) (qty heldBrokerQty : Rat) :
    Except Abbruch Unit :=
  let held := if heldBrokerQty ≤ 0 then L.getOpenPositionErneut.zeuge else heldBrokerQty
  eisenKuppel L.toLage event (complianceOrder event qty held (L.activeUid.getD "global")) .ai

/-- The order and the gate of the kill switch. -/
def schrittDesktopAuftrag (L : DesktopLage) (event : SignalEvent) : Except Abbruch Unit :=
  checkHalt L.toLage event .vorAbsendung

/-- The submission, in shadow mode to the dry run, and the halt once more before
a real one. -/
def schrittAbsenden (L : DesktopLage) (event : SignalEvent) (qty : Rat) :
    Except Abbruch (Rat × Bool) :=
  let schutzExit := haltExemptProtectiveExit event.decisionContext event.action
  if L.shadowMode then sendeDurchsTor L.tor true event.symbol qty schutzExit
  else do
    checkHalt L.toLage event .grenze
    sendeDurchsTor L.tor false event.symbol qty schutzExit

def processSignalEvent (L : DesktopLage) (event : SignalEvent) : Except Abbruch (Rat × Bool) := do
  schrittMarktOffen L.toLage event
  let (qty, heldBrokerQty) ← desktopMenge L event
  gate (0 < qty) .mengeNull
  gate (!hitlHoldsOrder L.hitl event qty) .wartetAufMensch
  schrittDesktopVerkaufstor L event
  schrittCompliance L event qty heldBrokerQty
  schrittDesktopAuftrag L event
  schrittAbsenden L event qty

/-! ## The tenant path -/

/-- The preparation: without a price there is no order. -/
def schrittMandantVorbereiten (event : SignalEvent) : Except Abbruch Unit :=
  gate (0 < event.decisionContext.currentPrice) .preisFehlt

/-- The minimum hold, which no sale passes without a question, and then the
position at the broker as the quantity. -/
def schrittMandantBestand (L : MandantLage) (event : SignalEvent) : Except Abbruch Rat := do
  let urteil := canSellPosition L.portfolioManager L.now event.symbol
  gate urteil.1 (.gehalten urteil.2)
  L.getOpenPosition.lies

/-- The approved quantity as a ceiling.  A quantity of zero ends the sale. -/
def schrittMandantMenge (event : SignalEvent) (source : Quelle) (size : Rat) :
    Except Abbruch Rat :=
  let approvedQty := |event.suggestedQuantity|
  let size := if source = .humanApproved ∧ 0 < approvedQty then min size approvedQty else size
  if size ≤ 0 then .error .mengeNull else .ok size

/-- Compliance, with the position as the witness for what is held. -/
def schrittMandantCompliance (L : MandantLage) (event : SignalEvent) (source : Quelle)
    (size heldBrokerQty : Rat) : Except Abbruch Unit :=
  eisenKuppel L.toLage event (complianceOrder event size heldBrokerQty L.userId) source

/-- The order and the gate of the kill switch. -/
def schrittMandantAuftrag (L : MandantLage) (event : SignalEvent) : Except Abbruch Unit :=
  checkHalt L.toLage event .vorAbsendung

/-- The submission, in shadow mode to the dry run. -/
def schrittMandantSenden (L : MandantLage) (event : SignalEvent) (size : Rat) :
    Except Abbruch (Rat × Bool) :=
  sendeDurchsTor L.tor L.shadowMode event.symbol size
    (haltExemptProtectiveExit event.decisionContext event.action)

/-- A sale for a single tenant, under the lock on the symbol. -/
def executeTenantOrder (L : MandantLage) (event : SignalEvent) (source : Quelle) :
    Except Abbruch (Rat × Bool) := do
  gate L.lockErhalten .orderSperre
  schrittMandantVorbereiten event
  let bestand ← schrittMandantBestand L event
  let size ← schrittMandantMenge event source bestand
  schrittMandantCompliance L event source size |bestand|
  schrittMandantAuftrag L event
  schrittMandantSenden L event size

/-- A sale on the tenant path: a signal of the engine that is handed to a tenant. -/
def schrittVerteilung (L : MandantLage) (event : SignalEvent) : Except Abbruch (Rat × Bool) := do
  schrittMarktOffen L.toLage event
  executeTenantOrder L event .ai

/-! ## What the steps do -/

variable {P : Abbruch → Prop}

/-- No class passes the minimum hold of the desktop without a question, since no event has
one. -/
@[simp] theorem ends_schrittDesktopVerkaufstor {Q : Unit → Prop} {L : DesktopLage}
    {event : SignalEvent} :
    Ends P Q (schrittDesktopVerkaufstor L event) ↔
      match L.portfolioManager with
      | none => Q ()
      | some b =>
          let urteil := canSellPosition b L.now event.symbol
          (urteil.1 = true → Q ()) ∧ (urteil.1 = false → P (.gehalten urteil.2)) := by
  unfold schrittDesktopVerkaufstor
  rw [classifyExitKind_eq_none]
  cases L.portfolioManager with
  | none => exact Iff.rfl
  | some b => exact ends_gate

/-- The dust floor stops nothing. -/
@[simp] theorem ends_eisenKuppel {Q : Unit → Prop} {L : Lage} {event : SignalEvent}
    {order : ComplianceOrder} {source : Quelle} :
    Ends P Q (eisenKuppel L event order source) ↔
      match L.complianceGuardian with
      | none => Q ()
      | some g =>
          (g.checkOrder order = true →
            (checkTrade g order source = true → Q ()) ∧
            (checkTrade g order source = false → P .tageslimit)) ∧
          (g.checkOrder order = false → P .checkOrder) := by
  unfold eisenKuppel
  cases L.complianceGuardian with
  | none => exact Iff.rfl
  | some g => simp only [dustFloorSkipsExit_eq_none, ends_bind, ends_gate]

/-- The rule of the reading of a position. -/
@[simp] theorem ends_lies {Q : Rat → Prop} {antwort : Positionsantwort} :
    Ends P Q antwort.lies ↔
      match antwort with
      | .menge qty => Q qty
      | .fehlt => P .keinePosition
      | .fehler => P .bestandUnlesbar := by
  cases antwort with
  | menge qty => exact Iff.rfl
  | fehlt => exact Iff.rfl
  | fehler => exact Iff.rfl

/-- A tenant takes the position that was read. -/
theorem getOpenPosition_of_bestand {L : MandantLage} {event : SignalEvent} {x : Rat}
    (h : schrittMandantBestand L event = .ok x) : L.getOpenPosition = .menge x := by
  have hende : Ends (fun _ => True) (fun y => L.getOpenPosition = .menge y)
      (schrittMandantBestand L event) := by
    refine ends_bind_of_ok (fun _ => trivial) fun _ _ => ends_lies.mpr ?_
    cases L.getOpenPosition with
    | menge qty => rfl
    | fehlt => trivial
    | fehler => trivial
  exact hende.of_ok h

/-- The engine's own sales keep it. -/
theorem menge_of_schrittMandantMenge {event : SignalEvent} {bestand size : Rat}
    (h : schrittMandantMenge event .ai bestand = .ok size) : size = bestand ∧ 0 < size := by
  unfold schrittMandantMenge at h
  simp only [reduceCtorEq, false_and, if_false] at h
  split at h
  next => cases h
  next hpos =>
    cases h
    exact ⟨rfl, not_le.mp hpos⟩

end Verkauf
