import AutonomousEngine.Absendung.Protokoll

/-!
# Through the gate

An order passes the write lease and the lock of the reconciliation, a sale also
the release of its shares, and then the order gateway.  If the broker denies it
because the key is known, the order it holds under the key is taken for it.

A marketable limit exit that the broker rejects is sent once more as a market
order under a follow-up key.

The outbox writes along the way and never stops an order.  It is left out.
-/

namespace Absendung

open Basis
open Gateway (Auftrag ComplianceDecision OrderGateway)
open Idempotenz (Intent Request Ziffern)
open Verkauf (IntentKind)

/-! ## Asking -/

def frage (i : Frage) : Lauf i.Antwort := Raising.ask i

/-- Goes on with an answer, or raises it. -/
def liefere {α : Type} (a : Except Fremdfehler α) : Lauf α :=
  .raise (a.mapError .fremd)

def dienst (d : Dienst) : Lauf d.Antwort := do
  let a ← frage (.dienst d)
  liefere a

def istHalted (ort : HaltOrt) : Lauf Bool := frage (.istHalted ort)

def checkHalt (ort : HaltOrt) : Lauf Unit := do
  let halted ← istHalted ort
  if halted then throw .tradingHalted

/-- `except Exception`.  A step that ends the run is no exception. -/
def exceptException {α : Type} (p : Lauf α) (h : Ende → Lauf α) : Lauf α :=
  tryCatch p fun
    | .vorDemBroker => throw .vorDemBroker
    | e => h e

/-- `except APIError`. -/
def exceptApiError {α : Type} (p : Lauf α) (h : Ende → Lauf α) : Lauf α :=
  tryCatch p fun
    | .fremd (.apiError statusCode schluesselBekannt) =>
        h (.fremd (.apiError statusCode schluesselBekannt))
    | e => throw e

/-! ## Settings -/

/-- What a run is configured with. -/
structure Umfeld where
  digest : String → String
  ziffern : Ziffern
  shadowMode : Bool
  displacementBuyFirst : Bool
  useLimitOrders : Bool
  useLimitExits : Bool
  limitOrderSpreadBufferPct : Rat
  allowRiskReducingExits : Bool
  complianceGuardian : Bool
  dustFloor : Verkauf.DustConfig
  orderFillTimeoutSeconds : Rat
  orderFillPollSeconds : Rat

/-- The client of an order: the broker, or the dry run. -/
inductive Client where
  | broker
  | dryRun
deriving DecidableEq, Repr

/-! ## Keys and intents -/

/-- The id that stands in for a missing decision. -/
def ersatzDecisionId (art : IntentKind) (wer symbol : String) : String :=
  "ersatz-" ++ Idempotenz.legText art ++ "-" ++ (if wer = "" then "global" else wer) ++ "-" ++ symbol

/-- What an order is sent with, besides its request. -/
structure Absende where
  symbol : String
  seite : Seite
  qty : Rat
  userId : String
  decisionId : String
  isProtectiveExit : Bool := false
  intentKind : Option IntentKind := none

/-- The kind of the intent.  Only a displacement is named. -/
def Absende.art (a : Absende) : IntentKind :=
  if a.intentKind = some .displacement ∧ a.isProtectiveExit = false then .displacement
  else if a.isProtectiveExit then .stop
  else
    match a.seite with
    | .buy => .entry
    | .sell => .trim

/-- The decision of an order, read from its key where none is given. -/
def Absende.gelesen (u : Umfeld) (a : Absende) (request : Auftrag) : String :=
  if a.decisionId ≠ "" then a.decisionId
  else (request.form.clientOrderId.bind (Idempotenz.decisionIdAus u.ziffern)).getD ""

/-- The decision of an order, or what stands in for it. -/
def Absende.decision (u : Umfeld) (a : Absende) (request : Auftrag) : String :=
  if a.gelesen u request ≠ "" then a.gelesen u request
  else ersatzDecisionId a.art a.userId a.symbol

/-- The intent of an order, unless it does not validate. -/
def bildeIntent (decisionId symbol : String) (seite : Seite) (qty : Rat) (art : IntentKind)
    (isProtectiveExit halted : Bool) : Option Intent :=
  if h : decisionId ≠ "" ∧ symbol ≠ "" ∧ 0 < qty then
    some { symbol, side := seite.action, qty, intentKind := art, isProtectiveExit, halted
           decisionId, decisionId_ne := h.1, symbol_ne := h.2.1 }
  else none

/-! ## The gate -/

/-- The order gateway in front of a client. -/
def gatewayFor (client : Client) (z : Zweck) : OrderGateway Lauf Nat where
  submitOrder r :=
    match client with
    | .broker => do
        let a ← frage (.submitOrder z r)
        liefere a
    | .dryRun => frage (.submitSchatten z r)
  isHalted := istHalted .gateway
  record d _ := frage (.aufzeichnen d)

/-- The order that the broker holds under a key, if that is why it denied one. -/
def bestehendeOrder (z : Zweck) (coid : Option String) (symbol : String) (fehler : Ende) :
    Lauf (Option Nat) :=
  match coid, fehler with
  | some coid, .fremd f =>
      if istDuplikat f then do
        match ← frage (.getOrderByClientId z coid symbol) with
        | .ok (some gefunden) =>
            if gefunden.symbol ≠ "" ∧ gefunden.symbol ≠ symbol then return none
            else
              frage (.uebernommen z gefunden.id)
              return some gefunden.id
        | _ => return none
      else return none
  | _, _ => return none

/-- The gateway, and what becomes of a denial, a duplicate and an error. -/
def torAbsenden (client : Client) (z : Zweck) (u : Umfeld) (intent : Intent) (request : Auftrag)
    (coid : Option String) (symbol : String) : Lauf Nat := do
  let ergebnis ← tryCatch
    (do
      let (_, order) ← (gatewayFor client z).submitWithResult u.digest (fun _ : Ende => "")
        intent request none
      return order)
    fun fehler => do
      match ← bestehendeOrder z coid symbol fehler with
      | none => throw fehler
      | some bestehend => return some bestehend
  match ergebnis with
  | some order => return order
  -- the gateway has denied, and the broker was not called
  | none => throw .tradingHalted

/-- Frees the shares of a sale.  The quantity of the request sinks to what is
free. -/
def gibVerkaufFrei (client : Client) (intent : Intent) (request : Auftrag) : Lauf Auftrag := do
  let bestand ← frage (.freierBestand intent.symbol)
  match Verkauf.gibVerkaufFrei bestand (client == .dryRun) intent.toOrderIntent with
  | .ok menge => return { request with qty := menge }
  | .error _ => throw .stueckeNichtFrei

/-- Sends an order through the gate and returns the order of the broker. -/
def sendeDurchsTor (u : Umfeld) (client : Client) (z : Zweck) (request : Auftrag) (a : Absende) :
    Lauf Nat := do
  let halted ← istHalted .intent
  match bildeIntent (a.decision u request) a.symbol a.seite a.qty a.art a.isProtectiveExit halted with
  | none => throw .ungueltigerIntent
  | some intent =>
      let request := request.mitSchluessel u.digest intent
      let gesperrt ← frage (.torGesperrt a.art)
      if gesperrt then throw .tradingHalted
      let frei ←
        match a.seite with
        | .sell => gibVerkaufFrei client intent request
        | .buy => pure request
      torAbsenden client z u intent frei (schluessel request) a.symbol

/-! ## The fallback of an exit -/

def naechsterVersuch (u : Umfeld) (coid : Option String) : Lauf String := do
  let coid ←
    match coid with
    | some coid => pure coid
    | none => frage .uuid4
  match Idempotenz.nextAttempt u.digest u.ziffern coid with
  | .ok coid => return coid
  | .error _ => throw (.fremd .sonst)

def marketOrderRequest (symbol : String) (qty : Rat) (seite : Seite) (coid : Option String) :
    Auftrag where
  symbol
  side := seite.action
  qty
  limitPrice := none
  form := .mitFeld coid

/-- Sends the order of the event.  A marketable limit exit that the broker rejects
is followed by a market order. -/
def submitWithMarketFailsafe (u : Umfeld) (primaryReq : Auftrag) (a : Absende) (isExit : Bool) :
    Lauf Nat :=
  exceptApiError (sendeDurchsTor u .broker (.auftrag a.qty isExit) primaryReq a) fun submitErr => do
    if isExit then
      let coid ← naechsterVersuch u (schluessel primaryReq)
      sendeDurchsTor u .broker (.nachAblehnung a.qty)
        (marketOrderRequest a.symbol a.qty a.seite (some coid)) a
    else throw submitErr

/-! ## What a submission asks -/

section

variable {k : Rahmen} {x : Zwischenstand} {α : Type} {E : Ende → Zwischenstand → Prop}

theorem meets_frage {i : Frage} {Q : i.Antwort → Zwischenstand → Prop}
    (h : ∀ a, ∃ y, Schritt k x i a y ∧ Q a y) : Meets (Schritt k) x (frage i) Q E :=
  h

/-- A question that changes nothing. -/
theorem meets_still {i : Frage} {Q : i.Antwort → Zwischenstand → Prop} (hi : i.still = true)
    (h : ∀ a, Q a x) : Meets (Schritt k) x (frage i) Q E :=
  fun a => ⟨x, .still a hi, h a⟩

theorem meets_liefere {a : Except Fremdfehler α} {Q : α → Zwischenstand → Prop} :
    Meets (Schritt k) x (liefere a) Q E ↔ Ending Q (fun f => E (.fremd f)) a x := by
  cases a with
  | ok a => exact Iff.rfl
  | error f => exact Iff.rfl

theorem meets_dienst {d : Dienst} {Q : d.Antwort → Zwischenstand → Prop} (h : ∀ a, Q a x)
    (hE : ∀ f, E (.fremd f) x) : Meets (Schritt k) x (dienst d) Q E := by
  rw [dienst, meets_bind]
  refine meets_still rfl fun a => meets_liefere.mpr ?_
  cases a with
  | ok a => exact h a
  | error f => exact hE f

theorem meets_checkHalt {ort : HaltOrt} {Q : Unit → Zwischenstand → Prop}
    (hort : ort ≠ .vorAufgeschoben) (h : Q () x) (hE : E .tradingHalted x) :
    Meets (Schritt k) x (checkHalt ort) Q E := by
  rw [checkHalt, istHalted, meets_bind]
  refine meets_still (by simpa [Frage.still] using hort) fun halted => ?_
  cases halted with
  | true => exact hE
  | false => exact h

theorem meets_exceptException {p : Lauf α} {h : Ende → Lauf α} {Q : α → Zwischenstand → Prop} :
    Meets (Schritt k) x (exceptException p h) Q E ↔ Meets (Schritt k) x p Q fun e y =>
      match e with
      | .vorDemBroker => E .vorDemBroker y
      | e => Meets (Schritt k) y (h e) Q E := by
  rw [exceptException, meets_tryCatch]
  refine iff_of_eq (congrArg (Meets (Schritt k) x p Q) (funext fun e => funext fun y => ?_))
  cases e <;> rfl

theorem meets_exceptApiError {p : Lauf α} {h : Ende → Lauf α} {Q : α → Zwischenstand → Prop} :
    Meets (Schritt k) x (exceptApiError p h) Q E ↔ Meets (Schritt k) x p Q fun e y =>
      match e with
      | .fremd (.apiError s b) => Meets (Schritt k) y (h (.fremd (.apiError s b))) Q E
      | e => E e y := by
  rw [exceptApiError, meets_tryCatch]
  refine iff_of_eq (congrArg (Meets (Schritt k) x p Q) (funext fun e => funext fun y => ?_))
  cases e with
  | fremd f => cases f <;> rfl
  | _ => rfl

/-- What reaches the broker of a request: the same under a key of its own, and of a
sale at most as much. -/
structure Wie (request : Auftrag) (seite : Seite) (r : Auftrag) : Prop where
  qty_pos : 0 < request.qty
  qty_le : r.qty ≤ request.qty
  qty_eq : seite = .buy → r.qty = request.qty
  form : ∀ c, schluessel request = some c → r.form.clientOrderId = some c

/-- The order that exists under a known key is looked up.  If it is found it is taken
over, and otherwise the error stays. -/
def Sucht (k : Rahmen) (z : Zweck) (Q : Nat → Zwischenstand → Prop) (E : Zwischenstand → Prop)
    (y : Zwischenstand) : Prop :=
  ∀ coid symbol a, ∃ w, Schritt k y (.getOrderByClientId z coid symbol) a w ∧
    match fund symbol a with
    | some id => ∃ w', Schritt k w (.uebernommen z id) () w' ∧ Q id w'
    | none => E w

/-- Whether an error denies a request because its key is known. -/
def Ende.sucht (r : Auftrag) : Ende → Bool
  | .fremd f => istDuplikat f && (schluessel r).isSome
  | _ => false

def Danach (k : Rahmen) (z : Zweck) (r : Auftrag) (Q : Nat → Zwischenstand → Prop)
    (E : Ende → Zwischenstand → Prop) (e : Ende) (y : Zwischenstand) : Prop :=
  if e.sucht r then Sucht k z Q (E e) y else E e y

/-- Where the outcome of the run does not depend on the order, the error may stay at
any time. -/
theorem Danach.of_not_massgeblich {z : Zweck} {r : Auftrag} {Q : Nat → Zwischenstand → Prop}
    {f : Fremdfehler} {y : Zwischenstand} (hz : z.massgeblich = false) (hE : E (.fremd f) y)
    (h : istDuplikat f = true → ∀ id, ∃ w, Schritt k y (.uebernommen z id) () w ∧ Q id w) :
    Danach k z r Q E (.fremd f) y := by
  unfold Danach
  split
  next hsucht =>
    rw [Ende.sucht, Bool.and_eq_true] at hsucht
    refine fun coid symbol a => ⟨y, .still a (by simp [Frage.still, hz]), ?_⟩
    split
    next id _ => exact h hsucht.1 id
    next => exact hE
  next => exact hE

/-- After an attempt on the order of the event an existing order is taken over, or the
attempt has failed. -/
theorem Danach.of_nach {z : Zweck} {r : Auftrag} {Q : Nat → Zwischenstand → Prop}
    {f : Fremdfehler} (hueber : x.uebersprungen = false)
    (hQ : ∀ id, Q id { x with eigen := .da id })
    (hE : E (.fremd f) { x with eigen := .gescheitert z f }) :
    Danach k z r Q E (.fremd f) { x with eigen := .nach z r (.error f) } := by
  have hnach : Eigen.nach z r (.error f) =
      if istDuplikat f && (schluessel r).isSome then .gesucht z f else .gescheitert z f := rfl
  rw [Danach, Ende.sucht, hnach]
  cases hsucht : istDuplikat f && (schluessel r).isSome with
  | false => exact hE
  | true =>
      refine fun coid symbol a => ⟨_, .nachgeschlagen a rfl, ?_⟩
      cases hfund : fund symbol a with
      | none => exact hE
      | some id =>
          rw [Bool.and_eq_true] at hsucht
          exact ⟨_, .uebernommen rfl hsucht.1 hueber, hQ id⟩

theorem ersatzDecisionId_ne (art : IntentKind) (wer symbol : String) :
    ersatzDecisionId art wer symbol ≠ "" := by
  simp [ersatzDecisionId]

theorem Absende.decision_ne (u : Umfeld) (a : Absende) (request : Auftrag) :
    a.decision u request ≠ "" := by
  unfold decision
  split
  next h => exact h
  next => exact ersatzDecisionId_ne _ _ _

theorem bildeIntent_eq_none {decisionId symbol : String} {seite : Seite} {qty : Rat}
    {art : IntentKind} {isProtectiveExit halted : Bool} (hid : decisionId ≠ "")
    (h : bildeIntent decisionId symbol seite qty art isProtectiveExit halted = none) :
    symbol = "" ∨ qty ≤ 0 := by
  by_contra hno
  rw [not_or, not_le] at hno
  rw [bildeIntent, dif_pos ⟨hid, hno.1, hno.2⟩] at h
  cases h

theorem bildeIntent_eq_some {decisionId symbol : String} {seite : Seite} {qty : Rat}
    {art : IntentKind} {isProtectiveExit halted : Bool} {intent : Intent}
    (h : bildeIntent decisionId symbol seite qty art isProtectiveExit halted = some intent) :
    intent.qty = qty ∧ 0 < qty := by
  unfold bildeIntent at h
  split at h
  next hpos =>
    obtain rfl := Option.some.inj h
    exact ⟨rfl, hpos.2.2⟩
  next => cases h

/-- A key that is set stays. -/
theorem mitSchluessel_form {digest : String → String} {intent : Intent} {r : Auftrag} {c : String}
    (h : schluessel r = some c) : (r.mitSchluessel digest intent).form = r.form := by
  obtain ⟨symbol, side, qty, limitPrice, form⟩ := r
  cases form with
  | ohneFeld => rfl
  | mitFeld coid =>
    cases coid with
    | none => cases h
    | some coid =>
      have hne : coid ≠ "" := by
        intro h0
        simp [schluessel, Idempotenz.Request.clientOrderId, h0] at h
      simp [Auftrag.mitSchluessel, Idempotenz.mitSchluessel, hne]

theorem clientOrderId_of_schluessel {r : Auftrag} {c : String} (h : schluessel r = some c) :
    r.form.clientOrderId = some c := by
  unfold schluessel at h
  split at h
  next => cases h
  next c' hc =>
    split at h
    next => cases h
    next => rw [hc]; exact h

/-- The release lowers a quantity. -/
theorem gibVerkaufFrei_le {b : Verkauf.Broker} {dryRun : Bool} {intent : Verkauf.OrderIntent}
    {menge : Rat} (hpos : 0 < intent.qty) (h : Verkauf.gibVerkaufFrei b dryRun intent = .ok menge) :
    menge ≤ intent.qty := by
  have hends : Ends (fun _ => True) (fun menge => menge ≤ intent.qty)
      (Verkauf.gibVerkaufFrei b dryRun intent) := by
    rw [Verkauf.ends_gibVerkaufFrei hpos]
    split
    next => exact le_rfl
    next =>
      split
      next => trivial
      next =>
        split
        next => trivial
        next frei _ =>
          split
          next => trivial
          next =>
            unfold Verkauf.gesenkt
            split
            next hlt => exact (hlt.trans_le (sub_le_self _ Verkauf.epsilon_pos.le)).le
            next => exact le_rfl
  rw [h] at hends
  exact hends

theorem meets_gibVerkaufFrei {client : Client} {intent : Intent} {request : Auftrag}
    {Q : Auftrag → Zwischenstand → Prop} (hpos : 0 < intent.qty)
    (h : ∀ menge, menge ≤ intent.qty → Q { request with qty := menge } x)
    (hE : E .stueckeNichtFrei x) :
    Meets (Schritt k) x (gibVerkaufFrei client intent request) Q E := by
  rw [gibVerkaufFrei, meets_bind]
  refine meets_still rfl fun bestand => ?_
  split
  next menge hm => exact h menge (gibVerkaufFrei_le hpos hm)
  next => exact hE

/-- The broker. -/
theorem meets_broker {z : Zweck} {r : Auftrag} {Q : Nat → Zwischenstand → Prop}
    (h : ∀ a, ∃ y, Schritt k x (.submitOrder z r) a y ∧
      Ending Q (fun f => E (.fremd f)) a y) :
    Meets (Schritt k) x ((gatewayFor .broker z).submitOrder r) Q E := by
  intro a
  obtain ⟨y, hy, hend⟩ := h a
  exact ⟨y, hy, meets_liefere.mpr hend⟩

/-- The dry run, which never raises. -/
theorem meets_dryRun {z : Zweck} {r : Auftrag} {Q : Nat → Zwischenstand → Prop}
    (h : ∀ id, ∃ y, Schritt k x (.submitSchatten z r) id y ∧ Q id y) :
    Meets (Schritt k) x ((gatewayFor .dryRun z).submitOrder r) Q E :=
  h

theorem kopf_append_ne (leg : String) (n : Int) (s : String) : Idempotenz.kopf leg n ++ s ≠ "" := by
  simp [Idempotenz.kopf]

/-- A key that was set once is set. -/
theorem mitSchluessel_mitSchluessel (digest : String → String) (intent : Intent) (r : Request) :
    Idempotenz.mitSchluessel digest intent (Idempotenz.mitSchluessel digest intent r) =
      Idempotenz.mitSchluessel digest intent r := by
  cases r with
  | ohneFeld => rfl
  | mitFeld vorhanden =>
    cases hany : vorhanden.any fun c => !decide (c = "") with
    | true => simp [Idempotenz.mitSchluessel, hany]
    | false =>
      cases hersatz : Idempotenz.istErsatz intent.decisionId with
      | true => simp [Idempotenz.mitSchluessel, hany, hersatz]
      | false =>
        cases hkey : Idempotenz.deriveClientOrderId digest (intent.decisionId ++ "-" ++ intent.symbol)
            (Idempotenz.legText intent.intentKind) 0 with
        | error _ => simp [Idempotenz.mitSchluessel, hany, hersatz, hkey]
        | ok key =>
            have hne : key ≠ "" := by
              unfold Idempotenz.deriveClientOrderId at hkey
              split_ifs at hkey
              · obtain rfl := Except.ok.inj hkey
                exact kopf_append_ne _ _ _
              · obtain rfl := Except.ok.inj hkey
                rw [String.append_assoc]
                exact kopf_append_ne _ _ _
            simp [Idempotenz.mitSchluessel, hany, hersatz, hkey, hne]

theorem meets_bestehendeOrder {z : Zweck} {r : Auftrag} {coid : Option String} {symbol : String}
    {fehler : Ende} {Q : Nat → Zwischenstand → Prop} (hcoid : coid.isSome = (schluessel r).isSome)
    (h : Danach k z r Q E fehler x) :
    Meets (Schritt k) x (bestehendeOrder z coid symbol fehler)
      (fun id y => match id with | none => E fehler y | some id => Q id y) E := by
  unfold bestehendeOrder
  unfold Danach at h
  split
  next coid f =>
    have hsucht : Ende.sucht r (.fremd f) = istDuplikat f := by
      rw [Ende.sucht, ← hcoid]
      exact Bool.and_true _
    rw [hsucht] at h
    split
    next hdup =>
      rw [if_pos hdup] at h
      rw [meets_bind]
      refine meets_frage fun a => ?_
      obtain ⟨w, hw, hnach⟩ := h coid symbol a
      refine ⟨w, hw, ?_⟩
      split
      next gefunden =>
        split
        next hfremd =>
          have hfund : fund symbol (.ok (some gefunden)) = none := if_pos hfremd
          rw [hfund] at hnach
          exact hnach
        next hsymbol =>
          have hfund : fund symbol (.ok (some gefunden)) = some gefunden.id := if_neg hsymbol
          rw [hfund] at hnach
          rw [meets_bind]
          exact meets_frage fun _ => hnach
      next hno =>
        have hfund : fund symbol a = none := by
          unfold fund
          split
          next gefunden => exact absurd rfl (hno gefunden)
          next => rfl
        rw [hfund] at hnach
        exact hnach
    next hdup =>
      rw [if_neg hdup] at h
      exact h
  next hno =>
    have hsucht : fehler.sucht r = false := by
      cases fehler with
      | fremd f =>
        cases coid with
        | none =>
            rw [Ende.sucht, ← hcoid]
            exact Bool.and_false _
        | some coid => exact absurd rfl (hno coid f rfl)
      | _ => rfl
    rw [hsucht, if_neg Bool.false_ne_true] at h
    exact h

/-- What the gateway asks, given what its client does. -/
theorem meets_torAbsenden {client : Client} {z : Zweck} {u : Umfeld} {intent : Intent}
    {request : Auftrag} {coid : Option String} {symbol : String} {Q : Nat → Zwischenstand → Prop}
    (hcoid : coid.isSome = (schluessel (request.mitSchluessel u.digest intent)).isSome)
    (hsub : Meets (Schritt k) x
      ((gatewayFor client z).submitOrder (request.mitSchluessel u.digest intent)) Q
      (Danach k z (request.mitSchluessel u.digest intent) Q E)) (hhalt : E .tradingHalted x) :
    Meets (Schritt k) x (torAbsenden client z u intent request coid symbol) Q E := by
  rw [torAbsenden, meets_bind, meets_tryCatch, meets_bind, Gateway.meets_submitWithResult]
  refine meets_still rfl fun halted => ?_
  split
  next =>
    refine hsub.mono (fun id y hQ => ?_) fun e y hE => ?_
    · exact meets_still rfl fun _ => hQ
    · refine meets_still rfl fun _ => ?_
      rw [meets_bind]
      refine (meets_bestehendeOrder hcoid hE).mono (fun id w hid => ?_) fun _ _ h => h
      cases id with
      | none => exact hid
      | some id => exact hid
  next => exact meets_still rfl fun _ => hhalt

/-- What an order through the gate asks: one submission at most, of the request
under its key and over at most its quantity. -/
theorem meets_sendeDurchsTor {client : Client} {z : Zweck} {u : Umfeld} {request : Auftrag}
    {a : Absende} {Q : Nat → Zwischenstand → Prop} (hqty : request.qty = a.qty)
    (hsub : ∀ r, Wie request a.seite r →
      Meets (Schritt k) x ((gatewayFor client z).submitOrder r) Q (Danach k z r Q E))
    (hhalt : E .tradingHalted x) (hstueck : a.seite = .sell → E .stueckeNichtFrei x)
    (hintent : a.symbol = "" ∨ a.qty ≤ 0 → E .ungueltigerIntent x) :
    Meets (Schritt k) x (sendeDurchsTor u client z request a) Q E := by
  rw [sendeDurchsTor, istHalted, meets_bind]
  refine meets_still rfl fun halted => ?_
  split
  next h => exact hintent (bildeIntent_eq_none (a.decision_ne u request) h)
  next intent h =>
    obtain ⟨hiqty, hpos⟩ := bildeIntent_eq_some h
    have hform (menge : Rat) :
        ({ request.mitSchluessel u.digest intent with qty := menge }.mitSchluessel u.digest
          intent).form = (request.mitSchluessel u.digest intent).form :=
      mitSchluessel_mitSchluessel u.digest intent request.form
    have hkey (menge : Rat) (c : String) (hc : schluessel request = some c) :
        ({ request.mitSchluessel u.digest intent with qty := menge }.mitSchluessel u.digest
          intent).form.clientOrderId = some c := by
      rw [hform, mitSchluessel_form hc]
      exact clientOrderId_of_schluessel hc
    have hcoid (menge : Rat) :
        (schluessel { request.mitSchluessel u.digest intent with qty := menge }).isSome =
          (schluessel ({ request.mitSchluessel u.digest intent with qty := menge }.mitSchluessel
            u.digest intent)).isSome := by
      rw [schluessel, schluessel, hform]
    simp only [meets_bind]
    refine meets_still rfl fun gesperrt => ?_
    cases gesperrt with
    | true => exact hhalt
    | false =>
        cases hseite : a.seite with
        | sell =>
            show Meets (Schritt k) x (gibVerkaufFrei client intent _ >>= fun frei =>
              torAbsenden client z u intent frei _ _) Q E
            rw [meets_bind]
            refine meets_gibVerkaufFrei (hiqty ▸ hpos) (fun menge hle => ?_) (hstueck hseite)
            refine meets_torAbsenden (hcoid menge) (hsub _ ⟨hqty ▸ hpos, ?_, ?_, hkey menge⟩) hhalt
            · exact (hle.trans_eq hiqty).trans_eq hqty.symm
            · intro hbuy
              rw [hseite] at hbuy
              cases hbuy
        | buy =>
            show Meets (Schritt k) x (torAbsenden client z u intent _ _ _) Q E
            exact meets_torAbsenden (hcoid request.qty)
              (hsub _ ⟨hqty ▸ hpos, le_rfl, fun _ => rfl, hkey request.qty⟩) hhalt

/-- No key of a next attempt is empty. -/
theorem nextAttempt_ne {digest : String → String} {z : Ziffern} {key c : String}
    (h : Idempotenz.nextAttempt digest z key = .ok c) : c ≠ "" := by
  have hretry : "retry-1-_" ++ digest key ≠ "" := by simp
  unfold Idempotenz.nextAttempt at h
  split at h
  next => cases h
  next =>
    split at h
    next leg attempt rest _ =>
      split at h
      next =>
        obtain rfl := Except.ok.inj h
        simp [Idempotenz.gekappt, Idempotenz.kopf, Idempotenz.maxClientOrderIdLen]
      next => exact Except.ok.inj h ▸ hretry
    next => exact Except.ok.inj h ▸ hretry

theorem meets_naechsterVersuch {u : Umfeld} {coid : Option String}
    {Q : String → Zwischenstand → Prop}
    (h : ∀ c, c ≠ "" →
      (∀ c₀, coid = some c₀ → Idempotenz.nextAttempt u.digest u.ziffern c₀ = .ok c) → Q c x)
    (hE : E (.fremd .sonst) x) :
    Meets (Schritt k) x (naechsterVersuch u coid) Q E := by
  have hnext : ∀ c₀, (∀ c₁, coid = some c₁ → c₁ = c₀) →
      Meets (Schritt k) x (match Idempotenz.nextAttempt u.digest u.ziffern c₀ with
        | .ok coid => (return coid : Lauf String)
        | .error _ => throw (.fremd .sonst)) Q E := by
    intro c₀ hc₀
    split
    next c hc => exact h c (nextAttempt_ne hc) fun c₁ h₁ => hc₀ c₁ h₁ ▸ hc
    next => exact hE
  cases coid with
  | some c₀ => exact hnext c₀ fun c₁ h₁ => (Option.some.inj h₁).symm
  | none =>
      show Meets (Schritt k) x (frage .uuid4 >>= fun coid => _) Q E
      rw [meets_bind]
      exact meets_still rfl fun c₀ => hnext c₀ fun c₁ h₁ => nomatch h₁

theorem schluessel_marketOrderRequest {symbol c : String} {qty : Rat} {seite : Seite}
    (h : c ≠ "") : schluessel (marketOrderRequest symbol qty seite (some c)) = some c := by
  simp [schluessel, marketOrderRequest, Request.clientOrderId, h]

/-- How the order of the event fails: without an order at the broker, and if with an
API error then with the one of the last attempt. -/
structure Abgewiesen (isExit : Bool) (e : Ende) (eigen : Eigen) (groesse : Option (Rat × Bool)) :
    Prop where
  erhalten : eigen.erhalten = false
  ungebunden : e.ungebunden = false
  apiError : ∀ s b, e = .fremd (.apiError s b) → (∃ q, groesse = some (q, isExit)) ∧
    ∃ z, eigen = .gescheitert z (.apiError s b) ∧ z.letzter = true

/-- The last attempt has failed. -/
theorem Abgewiesen.of_gescheitert {isExit : Bool} {q : Rat} {z : Zweck} {f : Fremdfehler}
    (hz : z.letzter = true) :
    Abgewiesen isExit (.fremd f) (.gescheitert z f) (some (q, isExit)) where
  erhalten := rfl
  ungebunden := rfl
  apiError s b h := by
    obtain rfl := Ende.fremd.inj h
    exact ⟨⟨q, rfl⟩, z, rfl, hz⟩

/-- What the fallback of a rejected exit asks. -/
theorem meets_nachAblehnung {u : Umfeld} {request : Auftrag} {a : Absende} {s : Option Nat} {b : Bool}
    {Q : Nat → Zwischenstand → Prop} (hueber : x.uebersprungen = false)
    (hfolge : ∀ c, k.folge = some c → ∃ c₀, schluessel request = some c₀ ∧
      Idempotenz.nextAttempt u.digest u.ziffern c₀ = .ok c)
    (hgrenze : k.Begrenzt a.qty) (hgroesse : x.groesse = some (a.qty, true))
    (heigen : x.eigen = .gescheitert (.auftrag a.qty true) (.apiError s b))
    (hQ : ∀ id, Q id { x with eigen := .da id })
    (hE : ∀ e eigen, Abgewiesen true e eigen x.groesse → E e { x with eigen }) :
    Meets (Schritt k) x (do
      let coid ← naechsterVersuch u (schluessel request)
      sendeDurchsTor u .broker (.nachAblehnung a.qty)
        (marketOrderRequest a.symbol a.qty a.seite (some coid)) a) Q E := by
  have hfrei {e : Ende} (he : e.ungebunden = false) (hapi : ∀ s b, e ≠ .fremd (.apiError s b)) :
      E e x := hE e x.eigen ⟨heigen ▸ rfl, he, fun s b h => absurd h (hapi s b)⟩
  rw [meets_bind]
  refine meets_naechsterVersuch (fun c hne hc => ?_) (hfrei rfl nofun)
  refine meets_sendeDurchsTor rfl (fun r hr => meets_broker fun ans => ?_) (hfrei rfl nofun)
    (fun _ => hfrei rfl nofun) fun _ => hfrei rfl nofun
  have htraegt : Traegt k.folge r := by
    intro c' hc'
    obtain ⟨c₀, hc₀, hnext⟩ := hfolge c' hc'
    obtain rfl := Except.ok.inj ((hc c₀ hc₀).symm.trans hnext)
    exact hr.form _ (schluessel_marketOrderRequest hne)
  refine ⟨_, .nachAblehnung ans hgroesse heigen hueber hr.qty_le htraegt hgrenze, ?_⟩
  cases ans with
  | ok id => exact hQ id
  | error f =>
      exact .of_nach hueber hQ (hE _ _ (hgroesse ▸ .of_gescheitert rfl))

/-- What the submission of the order asks.  It is at the broker, or its attempt has
failed, or it has not got to the broker. -/
theorem meets_sendeAuftrag {u : Umfeld} {request : Auftrag} {a : Absende} {isExit : Bool}
    {Q : Nat → Zwischenstand → Prop} (hx : x.eigen = .nichts) (hueber : x.uebersprungen = false)
    (hqty : request.qty = a.qty) (hexit : isExit = true → k.seite = .sell)
    (hcoid : ∀ c, k.coid = some c → schluessel request = some c) (hgrenze : k.Begrenzt a.qty)
    (hQ : ∀ id, Q id { x with eigen := .da id, groesse := some (a.qty, isExit) })
    (hfrei : ∀ e, e.ungebunden = false → (∀ f, e ≠ .fremd f) → E e x)
    (hE : ∀ f, E (.fremd f)
      { x with eigen := .gescheitert (.auftrag a.qty isExit) f, groesse := some (a.qty, isExit) }) :
    Meets (Schritt k) x (sendeDurchsTor u .broker (.auftrag a.qty isExit) request a) Q E := by
  refine meets_sendeDurchsTor hqty (fun r hr => meets_broker fun ans => ?_) (hfrei _ rfl nofun)
    (fun _ => hfrei _ rfl nofun) fun _ => hfrei _ rfl nofun
  have htraegt : Traegt k.coid r := fun c hc => hr.form c (hcoid c hc)
  refine ⟨_, .auftrag ans hx hueber (hqty ▸ hr.qty_pos) (hr.qty_le.trans_eq hqty) hexit htraegt
    hgrenze, ?_⟩
  cases ans with
  | ok id => exact hQ id
  | error f =>
      rw [ending_error]
      exact Danach.of_nach (x := { x with groesse := some (a.qty, isExit) }) hueber hQ (hE f)

/-- What the submission of the order with its fallback asks. -/
theorem meets_submitWithMarketFailsafe {u : Umfeld} {request : Auftrag} {a : Absende}
    {isExit : Bool} {Q : Nat → Zwischenstand → Prop} (hx : x.eigen = .nichts)
    (hueber : x.uebersprungen = false) (hqty : request.qty = a.qty)
    (hexit : isExit = true → k.seite = .sell)
    (hcoid : ∀ c, k.coid = some c → schluessel request = some c)
    (hfolge : ∀ c, k.folge = some c → ∃ c₀, schluessel request = some c₀ ∧
      Idempotenz.nextAttempt u.digest u.ziffern c₀ = .ok c)
    (hgrenze : k.Begrenzt a.qty)
    (hQ : ∀ id, Q id { x with eigen := .da id, groesse := some (a.qty, isExit) })
    (hE : ∀ e eigen groesse, Abgewiesen isExit e eigen groesse → E e { x with eigen, groesse }) :
    Meets (Schritt k) x (submitWithMarketFailsafe u request a isExit) Q E := by
  have hfrei (e : Ende) (he : e.ungebunden = false) (hfremd : ∀ f, e ≠ .fremd f) : E e x :=
    hE e x.eigen x.groesse ⟨hx ▸ rfl, he, fun s b h => absurd h (hfremd _)⟩
  rw [submitWithMarketFailsafe, meets_exceptApiError]
  refine meets_sendeAuftrag hx hueber hqty hexit hcoid hgrenze hQ (fun e he hfremd => ?_) fun f => ?_
  · cases e with
    | fremd f => exact absurd rfl (hfremd f)
    | _ => exact hfrei _ he hfremd
  · cases f with
    | sonst => exact hE _ _ _ ⟨rfl, rfl, nofun⟩
    | apiError s b =>
      cases isExit with
      | false => exact hE _ _ _ (.of_gescheitert rfl)
      | true =>
          -- the rejection, which the fallback follows
          exact meets_nachAblehnung
            (x := { x with eigen := .gescheitert (.auftrag a.qty true) (.apiError s b)
                           groesse := some (a.qty, true) })
            hueber hfolge hgrenze rfl rfl hQ fun e eigen hab => hE e eigen _ hab

end

end Absendung
