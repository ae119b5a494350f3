import AutonomousEngine.Absendung.Vorlauf
import AutonomousEngine.Verkauf.Pfade

/-!
# To the broker

The steps of an order run from the compliance guardian on.  They reserve a slot
of the daily budget, build the request, look at the halt, and send the order, in
shadow mode to the dry run.  The order is then polled until it is filled or the
time is over, and cancelled.  What is left of a marketable limit exit follows as
a market order.

An order that the broker rejects, or that was cancelled with nothing seen filled,
gives its slot back.  Both places first take back a displacement, and for that
read a field that a sale has never set.
-/

namespace Absendung

open Basis
open Gateway (Auftrag)
open Verkauf (Quelle)

/-! ## Compliance -/

/-- The event as compliance and the dust floor see it. -/
def Signal.toSignalEvent (event : Signal) : Verkauf.SignalEvent where
  symbol := event.symbol
  action := event.seite.action
  decisionContext := event.kontext.toDecisionContext
  suggestedQuantity := event.suggestedQuantity

/-- Whether the dust floor holds an order back. -/
def dustFloorSkipsExit (u : Umfeld) (event : Signal) (qty heldQty equity : Rat) : Bool :=
  event.seite == .sell &&
    (Verkauf.dustFloorSkipsExit u.dustFloor event.toSignalEvent qty heldQty equity).isSome

/-- The iron dome, which reserves a slot for an order without a human. -/
def schrittMandantCompliance (u : Umfeld) (tenant : Tenant) (event : Signal) (source : Quelle)
    (st : St) : Lauf Unit :=
  if u.complianceGuardian then do
    let heldQty :=
      match event.seite with
      | .sell => st.heldBrokerQty
      | .buy => 0
    let order := Verkauf.complianceOrder event.toSignalEvent st.size heldQty tenant.userId
    if ← dienst (.checkOrder order) then
      if dustFloorSkipsExit u event st.size st.heldBrokerQty tenant.equity then throw .vorDemBroker
      else if ← dienst (.checkTrade order source) then
        if source = .humanApproved then return ()
        else recordTrade u order none
      else throw .vorDemBroker
    else throw .vorDemBroker
  else return ()

/-! ## The request -/

/-- The request of an order: a marketable limit, or a market order. -/
def buildBrokerOrderRequest (symbol : String) (qty : Rat) (seite : Seite) (clientOrderId : String)
    (currentPrice : Rat) (useLimitOrders useLimitExits : Bool) (spreadBuffer : Rat) : Auftrag :=
  let wantLimit := useLimitOrders || (useLimitExits && seite == .sell)
  let limitPrice :=
    match seite with
    | .buy => currentPrice * (1 + spreadBuffer)
    | .sell => currentPrice * (1 - spreadBuffer)
  if wantLimit = true ∧ currentPrice ≠ 0 then
    { symbol, side := seite.action, qty, limitPrice := some (runde 2 limitPrice)
      form := .mitFeld (some clientOrderId) }
  else marketOrderRequest symbol qty seite (some clientOrderId)

/-- Whether a request is a marketable limit exit. -/
def istLimitExit (seite : Seite) (req : Auftrag) : Bool :=
  req.limitPrice.isSome && seite == .sell

/-- Whether the halt does not hold the order back. -/
def Signal.isProtectiveExit (event : Signal) : Bool :=
  Verkauf.haltExemptProtectiveExit event.kontext.toDecisionContext event.seite.action

def auftragsCoid (u : Umfeld) (context : Kontext) : Lauf String :=
  if context.clientOrderId ≠ "" then return context.clientOrderId
  else derivedCoid u context .entry 0

def schrittMandantAuftrag (u : Umfeld) (event : Signal) (st : St) : Lauf Auftrag := do
  let coid ← auftragsCoid u event.kontext
  let req := buildBrokerOrderRequest event.symbol st.size event.seite coid
    event.kontext.currentPrice u.useLimitOrders u.useLimitExits u.limitOrderSpreadBufferPct
  if event.isProtectiveExit then return req
  else
    checkHalt .auftrag
    return req

/-! ## Sending -/

/-- What the order of the event is sent with. -/
def Signal.absende (event : Signal) (tenant : Tenant) (qty : Rat) : Absende where
  symbol := event.symbol
  seite := event.seite
  qty
  userId := tenant.userId
  decisionId := event.kontext.decisionId
  isProtectiveExit := event.isProtectiveExit

/-- The sale that was deferred, if there is one. -/
def verkaufeAufgeschoben (u : Umfeld) (client : Client) (tenant : Tenant) (event : Signal)
    (st : St) : Lauf Unit :=
  match st.deferredCloseSymbol with
  | none => return ()
  | some symbol => do
      let _ ← submitDeferredDisplacementSell u client tenant.userId symbol st.deferredCloseQty
        event.kontext.decisionId

def schrittMandantSchatten (u : Umfeld) (tenant : Tenant) (event : Signal) (st : St)
    (req : Auftrag) : Lauf Unit := do
  let _ ← sendeDurchsTor u .dryRun (.auftrag st.size (istLimitExit event.seite req)) req
    (event.absende tenant st.size)
  verkaufeAufgeschoben u .dryRun tenant event st

/-- Takes back the sale before the purchase. -/
def nimmVerkaufZurueck (u : Umfeld) (tenant : Tenant) (event : Signal) (st : St) : Lauf Unit := do
  let symbolToClose ← gebunden st.symbolToClose .symbolToClose
  match symbolToClose, st.displacementSellOrderId with
  | some symbol, some orderId =>
      if symbol = "" then return ()
      else
        recoverDisplacement u tenant.userId symbol (some orderId) st.displacementSellQty
          event.kontext
  | _, _ => return ()

/-- Whether an error is a rejection for certain. -/
def istAblehnung : Ende → Bool
  | .fremd (.apiError (some statusCode) _) => 400 ≤ statusCode && statusCode < 500
  | _ => false

/-- The order, its fallback after a rejection, and the deferred sale. -/
def schrittMandantSenden (u : Umfeld) (tenant : Tenant) (event : Signal) (source : Quelle)
    (st : St) (req : Auftrag) : Lauf Nat := do
  let order ← exceptApiError
    (submitWithMarketFailsafe u req (event.absende tenant st.size) (istLimitExit event.seite req))
    fun submitErr => do
      nimmVerkaufZurueck u tenant event st
      if u.complianceGuardian = true ∧ source ≠ .humanApproved ∧ istAblehnung submitErr = true then
        frage (.slotFreigeben .abgelehnt)
      throw submitErr
  exceptException (do
      if st.deferredCloseSymbol.isSome then
        checkHalt .vorAufgeschoben
        verkaufeAufgeschoben u .broker tenant event st)
    fun _ => return ()
  return order

/-! ## Polling -/

/-- Polls an order a number of times.  `true` is the fill, with the last state
seen. -/
def frageAb (z : Zweck) (id : Nat) : Nat → Option Orderstand → Lauf (Bool × Option Orderstand)
  | 0, gesehen => return (false, gesehen)
  | n + 1, gesehen => do
      let a ← frage (.getOrderById z id)
      let gesehen := nachAbfrage gesehen a
      match a with
      | .ok (some live) =>
          if live.status = .filled then return (true, gesehen)
          else if live.status ≠ .andere then return (false, gesehen)
          else frageAb z id n gesehen
      | _ => frageAb z id n gesehen

/-- How often an order is polled until the time is over, `none` where no time
passes. -/
def abfragen (maxWaitSeconds pollInterval : Rat) : Option Nat :=
  if maxWaitSeconds ≤ 0 then some 0
  else if 0 < pollInterval then some ⌈maxWaitSeconds / pollInterval⌉₊
  else none

/-- Polls the order until it is filled, has ended, or the time is over. -/
def schrittMandantFuellung (u : Umfeld) (z : Zweck) (order : Nat) :
    Lauf (Bool × Option Orderstand) :=
  match abfragen u.orderFillTimeoutSeconds u.orderFillPollSeconds with
  | some n => frageAb z order n none
  | none => do
      let n ← frage .geduld
      let (gefuellt, gesehen) ← frageAb z order n none
      if gefuellt = true ∨ (gesehen.any fun live => live.status ≠ .andere) = true then
        return (gefuellt, gesehen)
      else
        let nie ← frage .endlos
        nie.elim

/-! ## Cancelling -/

/-- What is left of an exit, as far as it is known. -/
def exitFailsafeRemainingQty (isLimitExit : Bool) (orderQty : Rat) (liveOrder : Option Orderstand) :
    Option Rat :=
  if isLimitExit then
    match liveOrder.bind fun live => liesWert live.filledQty with
    | none => none
    | some filled =>
        let remaining := runde 6 (orderQty - filled)
        if remaining ≤ 0 then none else some remaining
  else none

/-- Sends what is left of an exit as a market order. -/
def sendeRest (u : Umfeld) (tenant : Tenant) (event : Signal) (st : St) (req : Auftrag)
    (liveOrder : Option Orderstand) : Lauf Unit :=
  match exitFailsafeRemainingQty (istLimitExit event.seite req) st.size liveOrder with
  | none => return ()
  | some failsafeQty =>
      let filled := (liveOrder.bind fun live => liesWert live.filledQty).getD 0
      exceptException (do
          let coid ← naechsterVersuch u (schluessel req)
          let _ ← sendeDurchsTor u .broker (.nachFrist st.size filled)
            (marketOrderRequest event.symbol failsafeQty event.seite (some coid))
            (event.absende tenant failsafeQty)
          return ())
        fun _ => return ()

/-- Cancels the order, sends what is left of an exit, takes a displacement back,
and gives the slot back. -/
def schrittMandantStorno (u : Umfeld) (tenant : Tenant) (event : Signal) (source : Quelle)
    (st : St) (req : Auftrag) (order : Nat) (liveOrder : Option Orderstand) : Lauf Unit := do
  let _ ← frage (.cancelOrderById (.auftrag st.size (istLimitExit event.seite req)) order)
  sendeRest u tenant event st req liveOrder
  nimmVerkaufZurueck u tenant event st
  let filledQty := liveOrder.bind fun live => liesWert live.filledQty
  if u.complianceGuardian = true ∧ source ≠ .humanApproved ∧ filledQty = some 0 then
    frage (.slotFreigeben .ungefuellt)

/-! ## What they ask -/

section

variable {k : Rahmen} {x : Zwischenstand} {u : Umfeld} {tenant : Tenant} {event : Signal}
  {source : Quelle} {st : St}

theorem meets_recordTrade {order : Verkauf.ComplianceOrder} {Q : Unit → Zwischenstand → Prop}
    {E : Ende → Zwischenstand → Prop} (hbelegt : x.belegt = false) (hx : x.eigen = .nichts)
    (hfrei : u.allowRiskReducingExits = true → Verkauf.isRiskReducingExit order = true → Q () x)
    (h : Q () { x with belegt := true }) :
    Meets (Schritt k) x (recordTrade u order none) Q E := by
  unfold recordTrade
  split
  next hex =>
    rw [Bool.and_eq_true] at hex
    exact hfrei hex.1 hex.2
  next => exact meets_frage fun _ => ⟨_, .belegen hbelegt hx, h⟩

/-- A purchase of no human has its slot after the guardian. -/
theorem meets_schrittMandantCompliance {Q : Unit → Zwischenstand → Prop} (hx : Vorher x)
    (hbelegt : x.belegt = false)
    (h : ∀ belegt, (u.complianceGuardian = true → source ≠ .humanApproved → event.seite = .buy →
      belegt = true) → Q () { x with belegt }) :
    Meets (Schritt k) x (schrittMandantCompliance u tenant event source st) Q (Abgebrochen k) := by
  unfold schrittMandantCompliance
  have hunbelegt (hnot : ¬(u.complianceGuardian = true ∧ source ≠ .humanApproved ∧
      event.seite = .buy)) : Q () x := by
    have hx' := h x.belegt fun hg hs hb => absurd ⟨hg, hs, hb⟩ hnot
    exact hx'
  split
  next =>
    dsimp only
    rw [meets_bind]
    refine meets_dienst_vorher hx fun ok => ?_
    split
    next =>
      split
      next => exact hx.abgebrochen rfl
      next =>
        rw [meets_bind]
        refine meets_dienst_vorher hx fun ok' => ?_
        split
        next =>
          split
          next hhuman => exact hunbelegt fun hnot => hnot.2.1 hhuman
          next =>
            refine meets_recordTrade hbelegt hx.eigen (fun _ hex => hunbelegt fun hnot => ?_)
              (h true fun _ _ _ => rfl)
            -- only a sale is exempt
            simp [Verkauf.isRiskReducingExit, Verkauf.complianceOrder, Signal.toSignalEvent,
              hnot.2.2, Seite.action] at hex
        next => exact hx.abgebrochen rfl
    next => exact hx.abgebrochen rfl
  next hno => exact hunbelegt fun hnot => hno hnot.1

theorem qty_buildBrokerOrderRequest (symbol : String) (qty : Rat) (seite : Seite) (coid : String)
    (currentPrice : Rat) (useLimitOrders useLimitExits : Bool) (spreadBuffer : Rat) :
    (buildBrokerOrderRequest symbol qty seite coid currentPrice useLimitOrders useLimitExits
      spreadBuffer).qty = qty := by
  unfold buildBrokerOrderRequest
  dsimp only
  split <;> rfl

theorem form_buildBrokerOrderRequest (symbol : String) (qty : Rat) (seite : Seite) (coid : String)
    (currentPrice : Rat) (useLimitOrders useLimitExits : Bool) (spreadBuffer : Rat) :
    (buildBrokerOrderRequest symbol qty seite coid currentPrice useLimitOrders useLimitExits
      spreadBuffer).form = .mitFeld (some coid) := by
  unfold buildBrokerOrderRequest
  dsimp only
  split <;> rfl

theorem meets_auftragsCoid {context : Kontext} {Q : String → Zwischenstand → Prop}
    {E : Ende → Zwischenstand → Prop}
    (h : ∀ coid, (context.clientOrderId ≠ "" → coid = context.clientOrderId) → Q coid x) :
    Meets (Schritt k) x (auftragsCoid u context) Q E := by
  unfold auftragsCoid
  split
  next => exact h _ fun _ => rfl
  next hempty => exact meets_derivedCoid fun coid => h coid fun hne => absurd hne hempty

theorem meets_schrittMandantAuftrag {Q : Auftrag → Zwischenstand → Prop} (hx : Vorher x)
    (h : ∀ req, req.qty = st.size → (event.kontext.clientOrderId ≠ "" →
      schluessel req = some event.kontext.clientOrderId) → Q req x) :
    Meets (Schritt k) x (schrittMandantAuftrag u event st) Q (Abgebrochen k) := by
  rw [schrittMandantAuftrag, meets_bind]
  refine meets_auftragsCoid fun coid hcoid => ?_
  have hQ : Q (buildBrokerOrderRequest event.symbol st.size event.seite coid
      event.kontext.currentPrice u.useLimitOrders u.useLimitExits u.limitOrderSpreadBufferPct) x := by
    refine h _ (qty_buildBrokerOrderRequest ..) fun hne => ?_
    rw [schluessel, form_buildBrokerOrderRequest, hcoid hne]
    exact if_neg hne
  dsimp only
  split
  next => exact hQ
  next =>
    rw [meets_bind]
    exact meets_checkHalt (by simp) hQ (hx.abgebrochen rfl)

/-- A run that is about to send its order, or has sent it.  The state and the
summary agree on the displacement, and a slot of a purchase without a human is
reserved. -/
structure Bereit (k : Rahmen) (u : Umfeld) (source : Quelle) (st : St) (x : Zwischenstand) :
    Prop where
  fehler : x.fehler = none
  zurueck : Zurueckgenommen x.tausch x.gehalten
  uebersprungen : x.uebersprungen = false
  erstattet : x.erstattet = false
  belegt : u.complianceGuardian = true → source ≠ .humanApproved → k.seite = .buy → x.belegt = true
  symbolToClose : st.symbolToClose.isSome = true ↔ k.seite = .buy
  deferred : st.deferredCloseSymbol.isSome = true → k.buyFirst = true
  verkauft : ∀ id, st.displacementSellOrderId = some id →
    x.tausch = .verkauft id st.displacementSellQty

theorem meets_verkaufeAufgeschoben {client : Client} {Q : Unit → Zwischenstand → Prop}
    {E : Ende → Zwischenstand → Prop} (hb : Bereit k u source st x)
    (hclient : client = .broker → x.frei = true) (h : Q () x) :
    Meets (Schritt k) x (verkaufeAufgeschoben u client tenant event st) Q E := by
  unfold verkaufeAufgeschoben
  split
  next => exact h
  next symbol hsymbol =>
    rw [meets_bind]
    exact meets_submitDeferredDisplacementSell
      (fun hc => ⟨hb.deferred (by rw [hsymbol]; rfl), hclient hc⟩) fun _ => h

theorem meets_schrittMandantSchatten {req : Auftrag} {Q : Unit → Zwischenstand → Prop}
    (hb : Bereit k u source st x) (hx : x.eigen = .nichts) (hqty : req.qty = st.size)
    (h : Q () { x with eigen := .schatten }) :
    Meets (Schritt k) x (schrittMandantSchatten u tenant event st req) Q (Abgebrochen k) := by
  have hvorher : Vorher x := ⟨hx, hb.fehler, hb.zurueck⟩
  rw [schrittMandantSchatten, meets_bind]
  refine meets_sendeDurchsTor hqty (fun r _ => meets_dryRun fun id =>
    ⟨_, .schatten id hx hb.uebersprungen, ?_⟩) (hvorher.abgebrochen rfl)
    (fun _ => hvorher.abgebrochen rfl) fun _ => hvorher.abgebrochen rfl
  exact meets_verkaufeAufgeschoben
    ⟨hb.fehler, hb.zurueck, hb.uebersprungen, hb.erstattet, hb.belegt, hb.symbolToClose,
      hb.deferred, hb.verkauft⟩ nofun h

/-- A purchase goes on with the sale taken back, and a sale reads a field that was
never set. -/
theorem meets_nimmVerkaufZurueck {Q : Unit → Zwischenstand → Prop}
    {E : Ende → Zwischenstand → Prop} (hb : Bereit k u source st x)
    (h : k.seite = .buy → ∀ tausch gehalten, Zurueckgenommen tausch gehalten →
      Q () { x with tausch, gehalten })
    (hE : k.seite = .sell → E (.unboundLocal .symbolToClose) x) :
    Meets (Schritt k) x (nimmVerkaufZurueck u tenant event st) Q E := by
  rw [nimmVerkaufZurueck, meets_bind]
  refine meets_gebunden (fun symbolToClose hsymbol => ?_) fun hnone => hE ?_
  · have hbuy : k.seite = .buy := hb.symbolToClose.mp (by rw [hsymbol]; rfl)
    have hunveraendert : Q () x := by
      have hx := h hbuy x.tausch x.gehalten hb.zurueck
      exact hx
    split
    next symbol orderId hid =>
      split
      next => exact hunveraendert
      next hne => exact meets_recoverDisplacement hne (hb.verkauft orderId hid) (h hbuy)
    next => exact hunveraendert
  · cases hseite : k.seite with
    | sell => rfl
    | buy =>
        have hsome := hb.symbolToClose.mpr hseite
        rw [hnone] at hsome
        cases hsome

theorem istAblehnung_iff {e : Ende} : istAblehnung e = true ↔
    ∃ s b, e = .fremd (.apiError (some s) b) ∧ 400 ≤ s ∧ s < 500 := by
  unfold istAblehnung
  split
  next s b => simp
  next hno =>
    simp only [Bool.false_eq_true, false_iff]
    rintro ⟨s, b, rfl, -⟩
    exact hno s b rfl

theorem Bereit.gesendet (hb : Bereit k u source st x) (eigen : Eigen)
    (groesse : Option (Rat × Bool)) : Bereit k u source st { x with eigen, groesse } :=
  ⟨hb.fehler, hb.zurueck, hb.uebersprungen, hb.erstattet, hb.belegt, hb.symbolToClose, hb.deferred,
    hb.verkauft⟩

/-- After a rejection the displacement is taken back, the slot is given back where
the rejection is certain, and the error is raised again. -/
theorem meets_abgelehnt {q : Rat} {isExit : Bool} {s : Option Nat} {b : Bool} {z : Zweck}
    {Q : Nat → Zwischenstand → Prop} (hb : Bereit k u source st x)
    (hexit : isExit = true → k.seite = .sell) (hgroesse : x.groesse = some (q, isExit))
    (hx : x.eigen = .gescheitert z (.apiError s b)) (hz : z.letzter = true) :
    Meets (Schritt k) x (do
      nimmVerkaufZurueck u tenant event st
      if u.complianceGuardian = true ∧ source ≠ .humanApproved ∧
          istAblehnung (.fremd (.apiError s b)) = true then
        frage (.slotFreigeben .abgelehnt)
      throw (.fremd (.apiError s b)) : Lauf Nat) Q (Abgebrochen k) := by
  have herhalten : x.eigen.erhalten = false := by rw [hx]; rfl
  have hfest (hbuy : k.seite = .buy) : x.groesse = some (q, false) := by
    cases isExit with
    | false => exact hgroesse
    | true => cases hbuy.symm.trans (hexit rfl)
  rw [meets_bind]
  refine meets_nimmVerkaufZurueck hb (fun hbuy tausch gehalten hzurueck => ?_) fun hsell => ?_
  · split
    next hrueck =>
      obtain ⟨hguard, hsource, habl⟩ := hrueck
      obtain ⟨s', b', he, h400, h500⟩ := istAblehnung_iff.mp habl
      obtain ⟨rfl, rfl⟩ := Fremdfehler.apiError.inj (Ende.fremd.inj he)
      rw [meets_bind]
      exact meets_frage fun _ =>
        ⟨_, .abgelehnt hb.erstattet (.inl (hb.belegt hguard hsource hbuy)) (hfest hbuy) hx h400 h500,
          ⟨hb.fehler, trivial, .inl herhalten, hzurueck⟩⟩
    next => exact ⟨hb.fehler, trivial, .inl herhalten, hzurueck⟩
  · exact ⟨hb.fehler, ⟨hsell, .inr ⟨z, s, b, hx, hz⟩⟩, .inr rfl, hb.zurueck⟩

/-- The deferred sale follows an order at the broker, and a halt in front of it leaves
the run as it is. -/
theorem meets_danachVerkauf {Q : Unit → Zwischenstand → Prop} {E : Ende → Zwischenstand → Prop}
    (hb : Bereit k u source st x) {id : Nat} (hx : x.eigen = .da id)
    (h : ∀ frei, Q () { x with frei }) :
    Meets (Schritt k) x (exceptException (do
        if st.deferredCloseSymbol.isSome then
          checkHalt .vorAufgeschoben
          verkaufeAufgeschoben u .broker tenant event st)
      fun _ => return ()) Q E := by
  rw [meets_exceptException]
  split
  next =>
    rw [meets_bind, checkHalt, istHalted, meets_bind]
    refine meets_frage fun halted => ⟨_, .haltAufgeschoben halted hx, ?_⟩
    cases halted with
    | true => exact h false
    | false =>
        exact meets_verkaufeAufgeschoben
          ⟨hb.fehler, hb.zurueck, hb.uebersprungen, hb.erstattet, hb.belegt, hb.symbolToClose,
            hb.deferred, hb.verkauft⟩ (fun _ => rfl) (h true)
  next =>
    have hx' := h x.frei
    exact hx'

/-- Only a sale is an exit. -/
theorem seite_of_istLimitExit {seite : Seite} {req : Auftrag} (h : istLimitExit seite req = true) :
    seite = .sell := by
  rw [istLimitExit, Bool.and_eq_true, beq_iff_eq] at h
  exact h.2

theorem meets_schrittMandantSenden {req : Auftrag} {Q : Nat → Zwischenstand → Prop}
    (hb : Bereit k u source st x) (hx : x.eigen = .nichts) (hqty : req.qty = st.size)
    (hseite : event.seite = k.seite)
    (hcoid : ∀ c, k.coid = some c → schluessel req = some c)
    (hfolge : ∀ c, k.folge = some c → ∃ c₀, schluessel req = some c₀ ∧
      Idempotenz.nextAttempt u.digest u.ziffern c₀ = .ok c)
    (hgrenze : k.Begrenzt st.size)
    (h : ∀ id frei, Q id { x with eigen := .da id
                                  groesse := some (st.size, istLimitExit event.seite req)
                                  frei }) :
    Meets (Schritt k) x (schrittMandantSenden u tenant event source st req) Q (Abgebrochen k) := by
  rw [schrittMandantSenden, meets_bind, meets_exceptApiError]
  have hexit : istLimitExit event.seite req = true → k.seite = .sell := fun h =>
    hseite ▸ seite_of_istLimitExit h
  refine meets_submitWithMarketFailsafe hx hb.uebersprungen hqty hexit hcoid hfolge
    hgrenze (fun id => ?_) fun e eigen groesse hab => ?_
  · rw [meets_bind]
    exact meets_danachVerkauf (hb.gesendet _ _) rfl fun frei => h id frei
  · have hb' := hb.gesendet eigen groesse
    cases e with
    | fremd f =>
      cases f with
      | apiError s b =>
          obtain ⟨⟨q, hgroesse⟩, z, hz, hletzter⟩ := hab.apiError s b rfl
          exact meets_abgelehnt hb' hexit hgroesse hz hletzter
      | sonst => exact ⟨hb.fehler, trivial, .inl hab.erhalten, hb.zurueck⟩
    | unboundLocal name => cases hab.ungebunden
    | _ => exact ⟨hb.fehler, trivial, .inl hab.erhalten, hb.zurueck⟩

/-- Every poll leaves what it has seen. -/
theorem meets_frageAb {z : Zweck} {id : Nat} (hz : z.eigen = true) {n : Nat}
    {gesehen : Option Orderstand} {Q : Bool × Option Orderstand → Zwischenstand → Prop}
    {E : Ende → Zwischenstand → Prop} (hx : x.eigen = .da id) (hstorniert : x.storniert = false)
    (hgesehen : x.gesehen = gesehen)
    (h : ∀ gefuellt gesehen, Q (gefuellt, gesehen) { x with gesehen }) :
    Meets (Schritt k) x (frageAb z id n gesehen) Q E := by
  induction n generalizing x gesehen with
  | zero =>
      subst hgesehen
      have hx' := h false x.gesehen
      exact hx'
  | succ n ih =>
      subst hgesehen
      rw [frageAb, meets_bind]
      refine meets_frage fun a => ⟨_, .gesehen a hx hstorniert hz, ?_⟩
      have hweiter : Meets (Schritt k) { x with gesehen := nachAbfrage x.gesehen a }
          (frageAb z id n (nachAbfrage x.gesehen a)) Q E :=
        ih hx hstorniert rfl h
      dsimp only
      split
      next live =>
        split
        next => exact h true (some live)
        next =>
          split
          next => exact h false (some live)
          next => exact hweiter
      next => exact hweiter

theorem meets_schrittMandantFuellung {z : Zweck} {id : Nat} (hz : z.eigen = true)
    {Q : Bool × Option Orderstand → Zwischenstand → Prop} {E : Ende → Zwischenstand → Prop}
    (hx : x.eigen = .da id) (hstorniert : x.storniert = false) (hgesehen : x.gesehen = none)
    (h : ∀ gefuellt gesehen, Q (gefuellt, gesehen) { x with gesehen }) :
    Meets (Schritt k) x (schrittMandantFuellung u z id) Q E := by
  unfold schrittMandantFuellung
  split
  next => exact meets_frageAb hz hx hstorniert hgesehen h
  next =>
    rw [meets_bind]
    refine meets_still rfl fun n => ?_
    rw [meets_bind]
    refine meets_frageAb hz hx hstorniert hgesehen fun gefuellt gesehen => ?_
    dsimp only
    split
    next => exact h gefuellt gesehen
    next =>
      rw [meets_bind]
      exact meets_still rfl fun nie => nie.elim

theorem exitFailsafeRemainingQty_eq_some {isLimitExit : Bool} {orderQty rest : Rat}
    {liveOrder : Option Orderstand}
    (h : exitFailsafeRemainingQty isLimitExit orderQty liveOrder = some rest) :
    isLimitExit = true ∧ ∃ live filled, liveOrder = some live ∧ liesWert live.filledQty = some filled ∧
      rest = runde 6 (orderQty - filled) := by
  unfold exitFailsafeRemainingQty at h
  split at h
  next hexit =>
    split at h
    next => cases h
    next filled hfilled =>
      obtain ⟨live, hlive, hlies⟩ := Option.bind_eq_some_iff.mp hfilled
      dsimp only at h
      split at h
      next => cases h
      next => exact ⟨hexit, live, filled, hlive, hlies, (Option.some.inj h).symm⟩
  next => cases h

/-- The fallback after the timeout, whose errors are swallowed. -/
theorem meets_sendeRest {req : Auftrag} {id : Nat} {live : Option Orderstand}
    {Q : Unit → Zwischenstand → Prop} {E : Ende → Zwischenstand → Prop} (hx : x.eigen = .da id)
    (hgroesse : x.groesse = some (st.size, istLimitExit event.seite req))
    (hstorniert : x.storniert = true) (hnach : x.nachgereicht = false) (hgesehen : x.gesehen = live)
    (hfolge : ∀ c, k.folge = some c → ∃ c₀, schluessel req = some c₀ ∧
      Idempotenz.nextAttempt u.digest u.ziffern c₀ = .ok c)
    (hgrenze : k.Begrenzt st.size) (h : ∀ nachgereicht, Q () { x with nachgereicht }) :
    Meets (Schritt k) x (sendeRest u tenant event st req live) Q E := by
  have hunveraendert : Q () x := by
    have hx' := h x.nachgereicht
    exact hx'
  unfold sendeRest
  split
  next => exact hunveraendert
  next rest hrest =>
    obtain ⟨hexit, live, filled, rfl, hfilled, rfl⟩ := exitFailsafeRemainingQty_eq_some hrest
    have hbind : (some live).bind (fun live => liesWert live.filledQty) = some filled := hfilled
    rw [hbind, meets_exceptException, meets_bind]
    refine meets_naechsterVersuch (fun c hne hc => ?_) hunveraendert
    rw [meets_bind]
    refine meets_sendeDurchsTor rfl (fun r hr => meets_broker fun a => ?_) hunveraendert
      (fun _ => hunveraendert) fun _ => hunveraendert
    have htraegt : Traegt k.folge r := by
      intro c' hc'
      obtain ⟨c₀, hc₀, hnext⟩ := hfolge c' hc'
      obtain rfl := Except.ok.inj ((hc c₀ hc₀).symm.trans hnext)
      exact hr.form _ (schluessel_marketOrderRequest hne)
    rw [hexit] at hgroesse
    refine ⟨_, .nachFrist a hgroesse hx hstorniert hnach hgesehen hfilled hr.qty_le htraegt
      hgrenze, ?_⟩
    cases a with
    | ok neu => exact h true
    | error f =>
        rw [ending_error]
        exact .of_not_massgeblich rfl (h true) fun _ neu =>
          ⟨_, .nachFristUebernommen hgroesse rfl, h true⟩

theorem Bereit.storniert (hb : Bereit k u source st x) (nachgereicht : Bool) :
    Bereit k u source st { x with storniert := true, nachgereicht } :=
  ⟨hb.fehler, hb.zurueck, hb.uebersprungen, hb.erstattet, hb.belegt, hb.symbolToClose, hb.deferred,
    hb.verkauft⟩

theorem meets_schrittMandantStorno {req : Auftrag} {order : Nat} {live : Option Orderstand}
    {Q : Unit → Zwischenstand → Prop} (hb : Bereit k u source st x) (hx : x.eigen = .da order)
    (hseite : event.seite = k.seite)
    (hgroesse : x.groesse = some (st.size, istLimitExit event.seite req))
    (hnach : x.nachgereicht = false) (hgesehen : x.gesehen = live)
    (hfolge : ∀ c, k.folge = some c → ∃ c₀, schluessel req = some c₀ ∧
      Idempotenz.nextAttempt u.digest u.ziffern c₀ = .ok c)
    (hgrenze : k.Begrenzt st.size)
    (h : ∀ nachgereicht tausch gehalten erstattet, Zurueckgenommen tausch gehalten →
      Q () { x with storniert := true, nachgereicht, tausch, gehalten, erstattet }) :
    Meets (Schritt k) x (schrittMandantStorno u tenant event source st req order live) Q
      (Abgebrochen k) := by
  unfold schrittMandantStorno
  rw [meets_bind]
  refine meets_frage fun a => ⟨_, .storno a hx rfl, ?_⟩
  rw [meets_bind]
  refine meets_sendeRest hx hgroesse rfl hnach hgesehen hfolge hgrenze fun nachgereicht => ?_
  rw [meets_bind]
  refine meets_nimmVerkaufZurueck (hb.storniert nachgereicht)
    (fun hbuy tausch gehalten hzurueck => ?_) fun hsell =>
      ⟨hb.fehler, ⟨hsell, .inl rfl⟩, .inr rfl, hb.zurueck⟩
  dsimp only
  split
  next hfrei =>
    obtain ⟨hguard, hsource, hleer⟩ := hfrei
    obtain ⟨st', rfl, hlies⟩ := Option.bind_eq_some_iff.mp hleer
    have hfest : x.groesse = some (st.size, false) := by
      rw [hgroesse]
      simp [istLimitExit, hseite, hbuy]
    exact meets_frage fun _ =>
      ⟨_, .ungefuellt hb.erstattet (hb.belegt hguard hsource hbuy) hfest hx rfl hgesehen hlies,
        h nachgereicht tausch gehalten true hzurueck⟩
  next => exact h nachgereicht tausch gehalten x.erstattet hzurueck

end

end Absendung
