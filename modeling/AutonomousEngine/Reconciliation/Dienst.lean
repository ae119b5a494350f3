import AutonomousEngine.Basis.Text
import AutonomousEngine.Basis.Transition
import AutonomousEngine.Verkauf.Freigabe

/-!
# The reconciliation service

A run of the service reads the broker three times, compares what it got with
its own books, records the breaks it found, and may block new entries.  It
corrects nothing but its list of fills.  The first run adopts what it finds
instead of reporting it.

Numbers reach the service as texts.  `Textlesung` says how they are read and
written: `float` gives none for a text that is no number.  The fills of an order
are told apart by a text too, the order id with the filled quantity as the
broker spells it (`fillId`).

A fill event without an order id is no valid event.  Then the run that comes
upon it ends with an exception, and what it has entered so far stays.
-/

namespace Reconciliation

open Basis
open Verkauf (IntentKind)

/-! ## What the broker reports -/

/-- How texts are read and numbers written. -/
structure Textlesung where
  float : String → Option Rat
  repr : Rat → String
  isdigit : String → Bool

/-- The status of an order, as far as the service tells them apart. -/
inductive OrderStatus where
  | filled
  | partiallyFilled
  | andere
deriving DecidableEq, Repr

/-- The side of an order. -/
inductive Side where
  | buy
  | sell
deriving DecidableEq, Repr

/-- An order as the broker reports it. -/
structure BrokerOrder where
  id : String
  clientOrderId : String
  symbol : String
  side : Side
  status : OrderStatus
  filledQty : String
  filledAvgPrice : String
  filledAt : Option String
deriving DecidableEq, Repr

/-- A position as the broker reports it. -/
structure Position where
  symbol : String
  qty : String
deriving DecidableEq, Repr

/-- The answers to the three reads of a run, with the text of the exception where
one failed. -/
structure Antworten where
  orders : Except String (List BrokerOrder)
  abgeschlosseneOrders : Except String (List BrokerOrder)
  positions : Except String (List Position)

/-- The state of the broker as a run sees it. -/
structure BrokerState where
  orders : List BrokerOrder
  abgeschlosseneOrders : List BrokerOrder
  positions : List Position
  errors : List (String × String)
deriving DecidableEq, Repr

/-- What a read gives when its failure counts as an empty list. -/
def gelesen {α : Type} : Except String (List α) → List α
  | .ok l => l
  | .error _ => []

def lesefehler {α : Type} (feld : String) : Except String (List α) → List (String × String)
  | .ok _ => []
  | .error e => [(feld, e)]

/-- Reads the broker.  A failed read leaves an empty list and an error. -/
def watch (a : Antworten) : BrokerState where
  orders := gelesen a.orders
  abgeschlosseneOrders := gelesen a.abgeschlosseneOrders
  positions := gelesen a.positions
  errors := lesefehler "orders" a.orders ++
    lesefehler "abgeschlossene_orders" a.abgeschlosseneOrders ++
    lesefehler "positions" a.positions

/-- The orders a run looks for fills in, open ones first. -/
def BrokerState.fillOrders (w : BrokerState) : List BrokerOrder :=
  w.orders ++ w.abgeschlosseneOrders

/-- Whether an order is filled, in part or in full. -/
def BrokerOrder.ausgefuehrt (o : BrokerOrder) : Bool :=
  o.status = .filled || o.status = .partiallyFilled

/-! ## The records of the service -/

/-- The kinds of breaks. -/
inductive BreakKind where
  | orphanedOrder
  | positionMismatch
  | unknownPosition
  | missingFill
  | missingOrder
  | brokerUnreachable
deriving DecidableEq, Repr

/-- One break, with both sides of the comparison as texts. -/
structure ReconciliationBreak where
  kind : BreakKind
  symbol : String := ""
  orderId : String := ""
  brokerSide : String := ""
  engineSide : String := ""
  detail : String := ""
  geheilt : Bool := false
deriving DecidableEq, Repr

/-- The result of a run. -/
structure ReconciliationRecord where
  runId : String
  startedAt : String
  finishedAt : String
  brokerOrders : Nat
  brokerPositions : Nat
  engineOrders : Nat
  enginePositions : Nat
  breaks : List ReconciliationBreak
deriving DecidableEq, Repr

def ReconciliationRecord.clean (r : ReconciliationRecord) : Bool :=
  r.breaks.isEmpty

/-- A fill with its origin. -/
structure FillEvent where
  fillId : String
  brokerOrderId : String
  clientOrderId : String
  decisionId : String
  symbol : String
  side : Side
  filledQty : Rat
  price : Rat
  filledAt : String
deriving DecidableEq, Repr

/-- The positions the engine knows, each symbol once. -/
structure Buch where
  eintraege : List (String × Rat)
  eindeutig : (eintraege.map (·.1)).Nodup

def Buch.leer : Buch := ⟨[], List.nodup_nil⟩

/-- The quantity of a symbol, none where the book does not have it. -/
def Buch.get (b : Buch) (symbol : String) : Option Rat :=
  (b.eintraege.find? (·.1 = symbol)).map (·.2)

/-- The entries with the quantity of one symbol replaced, or added at the end. -/
def setzeIn (symbol : String) (qty : Rat) : List (String × Rat) → List (String × Rat)
  | [] => [(symbol, qty)]
  | e :: es => if e.1 = symbol then (symbol, qty) :: es else e :: setzeIn symbol qty es

theorem mem_map_setzeIn {symbol s : String} {qty : Rat} {es : List (String × Rat)} :
    s ∈ (setzeIn symbol qty es).map (·.1) ↔ s = symbol ∨ s ∈ es.map (·.1) := by
  induction es with
  | nil => simp [setzeIn]
  | cons e es ih =>
      unfold setzeIn
      split
      next h => simp [h]
      next =>
        rw [List.map_cons, List.mem_cons, ih, List.map_cons, List.mem_cons]
        exact or_left_comm

theorem setzeIn_nodup (symbol : String) (qty : Rat) {es : List (String × Rat)}
    (h : (es.map (·.1)).Nodup) : ((setzeIn symbol qty es).map (·.1)).Nodup := by
  induction es with
  | nil => simp [setzeIn]
  | cons e es ih =>
      obtain ⟨hne, hes⟩ := List.nodup_cons.mp h
      unfold setzeIn
      split
      next heq => exact List.nodup_cons.mpr ⟨heq ▸ hne, hes⟩
      next hdiff =>
        refine List.nodup_cons.mpr ⟨fun hm => ?_, ih hes⟩
        rcases mem_map_setzeIn.mp hm with hs | hs
        · exact hdiff hs
        · exact hne hs

def Buch.setze (b : Buch) (symbol : String) (qty : Rat) : Buch :=
  ⟨setzeIn symbol qty b.eintraege, setzeIn_nodup symbol qty b.eindeutig⟩

/-- The service. -/
structure ReconciliationService extends Verkauf.Abgleich where
  internalOrderIds : List String
  knownPositions : Buch
  adopted : Bool
  lastRecord : Option ReconciliationRecord
  blockRecord : Option ReconciliationRecord
  blockOnBreak : Bool
  fills : List FillEvent
  seenFills : List String
  laeufe : Nat

namespace ReconciliationService

def neu (blockOnBreak : Bool) (knownPositions : Buch) : ReconciliationService where
  reconciledOnce := false
  entriesBlocked := false
  internalOrderIds := []
  knownPositions := knownPositions
  adopted := false
  lastRecord := none
  blockRecord := none
  blockOnBreak := blockOnBreak
  fills := []
  seenFills := []
  laeufe := 0

/-- Whether a movement of a kind may not go out. -/
def blocks (d : ReconciliationService) (kind : IntentKind) : Bool :=
  d.toAbgleich.blocks kind

/-- Adds an order to the ones the engine knows. -/
def registerOrder (d : ReconciliationService) (orderId : String) : ReconciliationService :=
  { d with internalOrderIds := d.internalOrderIds.insert orderId }

/-- Removes an order from the ones the engine knows. -/
def deregisterOrder (d : ReconciliationService) (orderId : String) : ReconciliationService :=
  { d with internalOrderIds := d.internalOrderIds.filter (· ≠ orderId) }

def setKnownPositions (d : ReconciliationService) (b : Buch) : ReconciliationService :=
  { d with knownPositions := b }

/-- Lifts the block.  Only a person does this. -/
def releaseBlock (d : ReconciliationService) : ReconciliationService :=
  { d with entriesBlocked := false, blockRecord := none }

end ReconciliationService

/-! ## Fills -/

/-- The identity of an execution: the order id and the filled quantity as the
broker spells it. -/
def fillId (o : BrokerOrder) : String :=
  o.id ++ ":" ++ o.filledQty

/-- A quantity without its sign.  A text that is no number counts as zero. -/
def qty (t : Textlesung) (text : String) : Rat :=
  |(t.float text).getD 0|

/-- The decision a fill is entered under: what stands behind the second hyphen
of the client order id if the part before it is a number, and else the whole
id, or the order id when there is none. -/
def decisionVon (t : Textlesung) (clientOrderId orderId : String) : String :=
  match splitAtMost '-' 2 clientOrderId.toList with
  | [_, versuch, rumpf] =>
      if t.isdigit (String.ofList versuch) && !rumpf.isEmpty then String.ofList rumpf
      else if clientOrderId ≠ "" then clientOrderId else orderId
  | _ => if clientOrderId ≠ "" then clientOrderId else orderId

/-- How the entry of a fill ends. -/
inductive Buchung where
  | keine
  | ungueltig
  | gebucht (e : FillEvent)
deriving DecidableEq, Repr

def fillEvent (t : Textlesung) (o : BrokerOrder) (decisionId jetzt : String) : FillEvent where
  fillId := fillId o
  brokerOrderId := o.id
  clientOrderId := o.clientOrderId
  decisionId := if decisionId ≠ "" then decisionId else decisionVon t o.clientOrderId o.id
  symbol := if o.symbol ≠ "" then o.symbol else "?"
  side := o.side
  filledQty := qty t o.filledQty
  price := qty t o.filledAvgPrice
  filledAt := o.filledAt.getD jetzt

@[simp] theorem fillEvent_fillId (t : Textlesung) (o : BrokerOrder) (decisionId jetzt : String) :
    (fillEvent t o decisionId jetzt).fillId = fillId o := rfl

namespace ReconciliationService

/-- Enters a fill, unless it is known or says nothing. -/
def onBrokerFill (t : Textlesung) (d : ReconciliationService) (o : BrokerOrder)
    (decisionId jetzt : String) : Buchung × ReconciliationService :=
  if fillId o ∈ d.seenFills then (.keine, d)
  else if qty t o.filledQty ≤ 0 ∨ qty t o.filledAvgPrice ≤ 0 then (.keine, d)
  else if o.id = "" then (.ungueltig, d)
  else
    let e := fillEvent t o decisionId jetzt
    (.gebucht e, { d with seenFills := d.seenFills.insert e.fillId, fills := d.fills ++ [e] })

def beiHandelsereignis (t : Textlesung) (d : ReconciliationService) (o : BrokerOrder)
    (jetzt : String) : ReconciliationService :=
  if o.ausgefuehrt then (d.onBrokerFill t o "" jetzt).2 else d

/-! ## Comparing -/

def nichtAbrufbar (e : String × String) : ReconciliationBreak where
  kind := .brokerUnreachable
  detail := e.1 ++ ": " ++ e.2
  brokerSide := "nicht abrufbar"
  engineSide := "Vergleich nicht moeglich"

/-- The positions of the broker as a book. -/
def buchVon (t : Textlesung) (positions : List Position) : Buch :=
  positions.foldl (fun b p => if p.symbol ≠ "" then b.setze p.symbol (qty t p.qty) else b) .leer

def uebernimm (t : Textlesung) (d : ReconciliationService) (w : BrokerState) :
    ReconciliationService :=
  { d with
    adopted := true
    internalOrderIds :=
      ((w.orders.map (·.id)).filter (· ≠ "")).foldl (fun ids i => ids.insert i) d.internalOrderIds
    knownPositions :=
      if d.knownPositions.eintraege.isEmpty then buchVon t w.positions else d.knownPositions
    seenFills :=
      ((w.fillOrders.filter (·.ausgefuehrt)).map fillId).foldl (fun ids i => ids.insert i)
        d.seenFills }

/-- The break of a fill the run itself enters. -/
def entgangenerFill (t : Textlesung) (e : FillEvent) : ReconciliationBreak where
  kind := .missingFill
  symbol := e.symbol
  orderId := e.brokerOrderId
  brokerSide := "gefuellt " ++ t.repr e.filledQty ++ " @ " ++ t.repr e.price
  engineSide := "kein FillEvent — Ereignisstrom hat ihn nicht gemeldet"
  detail := "nachgetragen"
  geheilt := true

/-- Enters the fills that the stream missed.  No list of breaks is an exception
on the way. -/
def trageNach (t : Textlesung) (jetzt : String) (d : ReconciliationService) :
    List BrokerOrder → Option (List ReconciliationBreak) × ReconciliationService
  | [] => (some [], d)
  | o :: os =>
      if !o.ausgefuehrt then trageNach t jetzt d os
      else
        match d.onBrokerFill t o "" jetzt with
        | (.keine, d) => trageNach t jetzt d os
        | (.ungueltig, d) => (none, d)
        | (.gebucht e, d) =>
            let (breaks, d) := trageNach t jetzt d os
            (breaks.map (entgangenerFill t e :: ·), d)

/-- The break of an open order the engine does not know. -/
def verwaist (d : ReconciliationService) (o : BrokerOrder) : Option ReconciliationBreak :=
  if o.id ≠ "" ∧ o.id ∉ d.internalOrderIds then
    some { kind := .orphanedOrder, orderId := o.id, symbol := o.symbol
           brokerSide := "offen beim Broker", engineSide := "nicht in den Buechern" }
  else none

def qtyEpsilon : Rat := 1 / 1000000

/-- The break of a position the broker has. -/
def positionsBreak (t : Textlesung) (b : Buch) (p : Position) : Option ReconciliationBreak :=
  if p.symbol = "" then none
  else
    let brokerQty := qty t p.qty
    match b.get p.symbol with
    | none => some { kind := .unknownPosition, symbol := p.symbol
                     brokerSide := "qty=" ++ t.repr brokerQty, engineSide := "keine Position" }
    | some k =>
        let engineQty := |k|
        if |brokerQty - engineQty| > qtyEpsilon then
          some { kind := .positionMismatch, symbol := p.symbol
                 brokerSide := "qty=" ++ t.repr brokerQty
                 engineSide := "qty=" ++ t.repr engineQty }
        else none

/-- The symbols of the positions the broker has. -/
def gesehen (positions : List Position) : List String :=
  (positions.map (·.symbol)).filter (· ≠ "")

/-- The break of a position only the engine has. -/
def verschwunden (t : Textlesung) (positions : List Position) (e : String × Rat) :
    Option ReconciliationBreak :=
  if e.1 ∉ gesehen positions ∧ |e.2| > qtyEpsilon then
    some { kind := .positionMismatch, symbol := e.1
           brokerSide := "keine Position", engineSide := "qty=" ++ t.repr |e.2| }
  else none

def positionsBreaks (t : Textlesung) (b : Buch) (positions : List Position) :
    List ReconciliationBreak :=
  positions.filterMap (positionsBreak t b) ++ b.eintraege.filterMap (verschwunden t positions)

/-- Compares the broker with the books.  The first run takes over instead. -/
def compare (t : Textlesung) (jetzt : String) (d : ReconciliationService) (w : BrokerState) :
    Option (List ReconciliationBreak) × ReconciliationService :=
  let unerreichbar := w.errors.map nichtAbrufbar
  if !d.adopted then (some unerreichbar, d.uebernimm t w)
  else
    let (fehlend, d) := d.trageNach t jetzt w.fillOrders
    (fehlend.map fun fehlend => unerreichbar ++ fehlend ++ w.orders.filterMap d.verwaist ++
      positionsBreaks t d.knownPositions w.positions, d)

/-! ## Recording -/

/-- Blocks new entries for an open break, if the service is set to. -/
def report (d : ReconciliationService) (r : ReconciliationRecord) : ReconciliationService :=
  let d := { d with laeufe := d.laeufe + 1 }
  if r.clean then d
  else if (r.breaks.filter (!·.geheilt)).isEmpty then d
  else if d.blockOnBreak then { d with entriesBlocked := true, blockRecord := some r }
  else d

/-- One run: its id, the times it starts and ends at, and the answers of the
broker. -/
structure Lauf where
  runId : String
  startedAt : String
  finishedAt : String
  antworten : Antworten

def record (l : Lauf) (w : BrokerState) (d : ReconciliationService)
    (breaks : List ReconciliationBreak) : ReconciliationRecord where
  runId := l.runId
  startedAt := l.startedAt
  finishedAt := l.finishedAt
  brokerOrders := w.orders.length
  brokerPositions := w.positions.length
  engineOrders := d.internalOrderIds.length
  enginePositions := d.knownPositions.eintraege.length
  breaks := breaks

/-- A whole run.  Without a record it ended with an exception. -/
def runOnce (t : Textlesung) (d : ReconciliationService) (l : Lauf) :
    Option ReconciliationRecord × ReconciliationService :=
  let w := watch l.antworten
  match d.compare t l.finishedAt w with
  | (none, d) => (none, d)
  | (some breaks, d) =>
      let r := record l w d breaks
      (some r, { d with lastRecord := some r, reconciledOnce := true }.report r)

/-! ## Runs -/

/-- What happens to the service. -/
inductive Aktion where
  | lauf (l : Lauf)
  | strom (o : BrokerOrder) (jetzt : String)
  | anmelden (orderId : String)
  | abmelden (orderId : String)
  | setzePositionen (b : Buch)
  | aufheben

def schritt (t : Textlesung) (d : ReconciliationService) : Aktion → ReconciliationService
  | .lauf l => (d.runOnce t l).2
  | .strom o jetzt => d.beiHandelsereignis t o jetzt
  | .anmelden orderId => d.registerOrder orderId
  | .abmelden orderId => d.deregisterOrder orderId
  | .setzePositionen b => d.setKnownPositions b
  | .aufheben => d.releaseBlock

/-- The actions of the service from a new one. -/
def system (t : Textlesung) : System ReconciliationService Aktion where
  start d := ∃ blockOnBreak knownPositions, d = neu blockOnBreak knownPositions
  step d a d' := d' = d.schritt t a

end ReconciliationService

end Reconciliation
