import AutonomousEngine.Basis.Calendar
import AutonomousEngine.Basis.Rounding
import AutonomousEngine.Idempotenz.Eindeutig

/-!
# The plan of the broker stops

A stop rests at the broker for every position, so that the protection outlives
the engine.  Whole shares get a stop that stays until it is cancelled, and a
remaining fraction gets one for the day.  The planner looks at the positions and
at the resting stops and says which stops are to be placed, which are to be
cancelled, and which positions stay without protection.

Its own stops are told from other orders by their key (`istEigenerStop`).
-/

namespace Stops

open Basis
open Idempotenz (Ziffern)
open Verkauf (minBrokerQty epsilon)

/-- The part of a position a stop covers. -/
inductive Leg where
  | whole
  | fraction
deriving DecidableEq, Repr

inductive TimeInForce where
  | gtc
  | day
deriving DecidableEq, Repr

/-- The text of `_zeitgeltung`. -/
def TimeInForce.text : TimeInForce → String
  | .gtc => "gtc"
  | .day => "day"

/-- A position at the broker, the quantity negative when it is short. -/
structure Position extends Verkauf.BrokerPosition where
  avgEntryPrice : ℚ
deriving DecidableEq, Repr

/-- An order that rests at the broker. -/
structure LiegendeOrder where
  id : Option String
  symbol : String
  clientOrderId : Option String
  qty : ℚ
  stopPrice : ℚ
  /-- The time in force as `_zeitgeltung` reads it. -/
  zeitgeltung : String
deriving DecidableEq, Repr

/-- A stop that is to rest at the broker. -/
structure StopOrder where
  symbol : String
  qty : ℚ
  stopPrice : ℚ
  timeInForce : TimeInForce
  leg : Leg
  decisionId : String
  clientOrderId : String
deriving DecidableEq, Repr

/-- Why a position has no stop. -/
inductive Grund where
  | keinEinstandspreis
  | unterMindestmenge (menge : ℚ)
  | preisNichtPositiv
  | keinBein (menge : ℚ)
deriving DecidableEq, Repr

structure BrokerStopPlan where
  toPlace : List StopOrder
  toCancel : List String
  unprotected : List (String × Grund)
deriving DecidableEq, Repr

/-! ## Own stops -/

/-- Whether a key begins like `stop-<attempt>-stop-`. -/
def eigenerSchluessel (z : Ziffern) (key : List Char) : Bool :=
  let rest := key.drop "stop-".length
  let ziffer (c : Char) := (z.wert c).isSome
  "stop-".toList.isPrefixOf key && !(rest.takeWhile ziffer).isEmpty &&
    "-stop-".toList.isPrefixOf (rest.dropWhile ziffer)

def istEigenerStop (z : Ziffern) (order : LiegendeOrder) : Bool :=
  eigenerSchluessel z (order.clientOrderId.getD "").toList

def eigeneStops (z : Ziffern) (symbol : String) (orders : List LiegendeOrder) :
    List LiegendeOrder :=
  orders.filter fun s => s.symbol = symbol && istEigenerStop z s

/-- `_menge`: the shares that may be covered, never more than are held. -/
def menge (z : Ziffern) (position : Position) (eigene : List LiegendeOrder) : ℚ :=
  match position.qtyAvailable with
  | none => |position.qty|
  | some roh =>
      let eigene := ((eigeneStops z position.symbol eigene).map fun s => |s.qty|).sum
      let gesamt := |position.qty|
      let menge := |roh| + eigene
      if 0 < gesamt then min menge gesamt else menge

/-! ## The stops that are wanted -/

def stopPreis (avgEntryPrice stopLossPct : ℚ) : ℚ :=
  roundTo 2 (avgEntryPrice * (1 - |stopLossPct| / 100))

/-- The decision behind a stop.  The one for the whole shares is the same after a
restart, the one for the fraction has the day in it. -/
def decisionId (symbol : String) (leg : Leg) (sessionDate : Option Date) : String :=
  match leg with
  | .whole => "stop-" ++ symbol
  | .fraction => "stop-" ++ symbol ++ "-" ++ (sessionDate.map Date.isoformat).getD "day"

/-- `_schluessel`: the key of a stop at an attempt. -/
def schluessel (digest : String → String) (decisionId : String) (versuch : ℤ) :
    Except Idempotenz.SchluesselFehler String :=
  Idempotenz.deriveClientOrderId digest decisionId "stop" versuch

section

variable (digest : String → String) (z : Ziffern)

def bauen (symbol : String) (qty preis : ℚ) (leg : Leg) (sessionDate : Option Date) :
    StopOrder where
  symbol := symbol
  qty := qty
  stopPrice := preis
  timeInForce := match leg with
    | .whole => .gtc
    | .fraction => .day
  leg := leg
  decisionId := decisionId symbol leg sessionDate
  -- a decision is never empty, so there is a key (`schluessel_bauen`)
  clientOrderId := match schluessel digest (decisionId symbol leg sessionDate) 0 with
    | .ok key => key
    | .error _ => ""

/-- Whether a resting order covers a wanted one. -/
def passt (vorhanden : LiegendeOrder) (gewuenscht : StopOrder) : Bool :=
  vorhanden.symbol == gewuenscht.symbol &&
    vorhanden.zeitgeltung == gewuenscht.timeInForce.text &&
    decide (|vorhanden.qty - gewuenscht.qty| ≤ epsilon) &&
    decide (|vorhanden.stopPrice - gewuenscht.stopPrice| ≤ 5 / 1000)

/-- The stops wanted for a quantity: one for the whole shares and one for the rest. -/
def beine (symbol : String) (qty preis : ℚ) (sessionDate : Option Date) : List StopOrder :=
  let ganze : ℚ := ⌊qty⌋
  let rest := roundTo 9 (qty - ganze)
  (if 1 ≤ ganze then [bauen digest symbol ganze preis .whole sessionDate] else []) ++
    if minBrokerQty ≤ rest then [bauen digest symbol rest preis .fraction sessionDate] else []

/-- The stops wanted for a position, or why there are none. -/
def gewuenscht (stopLossPct : ℚ) (existingStops : List LiegendeOrder) (sessionDate : Option Date)
    (pos : Position) : Except Grund (List StopOrder) :=
  let qty := menge z pos existingStops
  let preis := stopPreis pos.avgEntryPrice stopLossPct
  if pos.avgEntryPrice ≤ 0 then .error .keinEinstandspreis
  else if qty < minBrokerQty then .error (.unterMindestmenge qty)
  else if preis ≤ 0 then .error .preisNichtPositiv
  else
    match beine digest pos.symbol qty preis sessionDate with
    | [] => .error (.keinBein qty)
    | stops => .ok stops

/-! ## The plan -/

/-- The resting stops that count as cover.  Stops for the day of an earlier
session do not. -/
def vorhandene (existingStops : List LiegendeOrder)
    (sessionDate existingSessionDate : Option Date) : List LiegendeOrder :=
  match existingSessionDate, sessionDate with
  | some alt, some neu =>
      if alt ≠ neu then existingStops.filter fun s => s.zeitgeltung ≠ "day" else existingStops
  | _, _ => existingStops

/-- What the planner is given. -/
structure Lage where
  positions : List Position
  stopLossPct : ℚ
  existingStops : List LiegendeOrder
  sessionDate : Option Date
  existingSessionDate : Option Date
deriving DecidableEq

variable (l : Lage)

/-- The positions with a symbol.  Others are skipped. -/
def Lage.benannte : List Position := l.positions.filter fun pos => pos.symbol ≠ ""

/-- The stops wanted for a position of the plan, none where there is a reason
against it. -/
def Lage.beineFuer (pos : Position) : List StopOrder :=
  match gewuenscht digest z l.stopLossPct l.existingStops l.sessionDate pos with
  | .ok stops => stops
  | .error _ => []

def Lage.alleGewuenschten : List StopOrder := l.benannte.flatMap (l.beineFuer digest z)

/-- Whether the plan cancels a resting stop: its symbol is not held, or stops are
wanted on it and it is none of them. -/
def Lage.raeumtAb (v : LiegendeOrder) : Bool :=
  let zuSymbol := (l.alleGewuenschten digest z).filter fun s => s.symbol = v.symbol
  if v.symbol ∉ l.benannte.map (·.symbol) then true
  else !zuSymbol.isEmpty && !zuSymbol.any (passt v)

def planBrokerStops : BrokerStopPlan where
  toPlace := (l.alleGewuenschten digest z).filter fun stop =>
    !(vorhandene l.existingStops l.sessionDate l.existingSessionDate).any (passt · stop)
  toCancel := l.existingStops.filterMap fun v =>
    match v.id with
    | some oid => if oid ≠ "" ∧ l.raeumtAb digest z v then some oid else none
    | none => none
  unprotected := l.benannte.filterMap fun pos =>
    match gewuenscht digest z l.stopLossPct l.existingStops l.sessionDate pos with
    | .ok _ => none
    | .error grund => some (pos.symbol, grund)

end

/-- The key of a wanted stop is derived from its decision. -/
theorem schluessel_bauen (digest : String → String) (symbol : String) (qty preis : ℚ) (leg : Leg)
    (sessionDate : Option Date) :
    schluessel digest (bauen digest symbol qty preis leg sessionDate).decisionId 0 =
      .ok (bauen digest symbol qty preis leg sessionDate).clientOrderId := by
  have hne : decisionId symbol leg sessionDate ≠ "" := by
    cases leg <;> simp [decisionId]
  have hkey : schluessel digest (decisionId symbol leg sessionDate) 0 =
      .ok (Idempotenz.kopf "stop" 0 ++
        Idempotenz.koerper digest (decisionId symbol leg sessionDate) "stop" 0) :=
    Idempotenz.deriveClientOrderId_eq_ok_iff.mpr
      ⟨hne, Idempotenz.legText_mem_legs .stop, 0, rfl, rfl⟩
  simp only [bauen, hkey]

end Stops
