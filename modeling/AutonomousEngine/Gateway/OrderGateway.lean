import AutonomousEngine.Basis.Program
import AutonomousEngine.Idempotenz.Schluessel

/-!
# The order gateway

The gateway takes an intent with a request, decides, calls the broker and
records.  The order of the checks is the exemption, then the halt, then the
decision that the caller has made before.  An exempt intent passes everything,
and a rejection it passes over is carried in the detail.

Broker, halt and record sink are handed in, so the gateway is a program over any
monad with exceptions.  As a program of its own it asks just these three, and a
run is any number of calls side by side over any world
(`OrderGateway.einDatensatz_je_aufruf`).
-/

namespace Gateway

open Basis
open Verkauf (IntentKind freigestellt)
open Idempotenz (Intent Request mitSchluessel legText)

/-! ## Decisions -/

/-- Why a check has decided as it has. -/
inductive ReasonCode where
  | restrictedSymbol
  | nonSpotUsEquity
  | missingMifidFields
  | washTrade
  | maxOrderValue
  | hftThrottle
  | systemError
  | maxDailyTrades
  | exitExempt
  | tradingHalted
  | emergency
  | breaker
  | strategySwitch
  | approved
deriving DecidableEq, Repr

def ReasonCode.value : ReasonCode → String
  | .restrictedSymbol => "restricted_symbol"
  | .nonSpotUsEquity => "non_spot_us_equity"
  | .missingMifidFields => "missing_mifid_fields"
  | .washTrade => "wash_trade"
  | .maxOrderValue => "max_order_value"
  | .hftThrottle => "hft_throttle"
  | .systemError => "system_error"
  | .maxDailyTrades => "max_daily_trades"
  | .exitExempt => "exit_exempt"
  | .tradingHalted => "trading_halted"
  | .emergency => "emergency"
  | .breaker => "breaker"
  | .strategySwitch => "strategy_switch"
  | .approved => "approved"

/-- What a check has decided, and why. -/
structure ComplianceDecision where
  decisionId : String
  decisionId_ne : decisionId ≠ ""
  approved : Bool
  reasonCode : ReasonCode
  detail : String := ""
  halted : Bool
deriving DecidableEq, Repr

/-- The reason that an exemption is recorded with. -/
def exemptReasonByKind : IntentKind → ReasonCode
  | .panic => .emergency
  | .breaker => .breaker
  | .strategySwitch => .strategySwitch
  | _ => .exitExempt

def freistellungsDetail (intent : Intent) (prior : Option ComplianceDecision) : String :=
  let detail :=
    if intent.isProtectiveExit then "Schutz-Exit: protokolliert, nicht blockiert"
    else legText intent.intentKind ++ ": protokolliert, nicht blockiert (Freistellungs-Matrix)"
  match prior with
  | none => detail
  | some prior =>
      if prior.approved then detail
      else detail ++ " (uebergangene Ablehnung: " ++ prior.reasonCode.value ++ ")"

/-- The decision on an intent: exemption, halt, prior decision. -/
def OrderGateway.decide (intent : Intent) (prior : Option ComplianceDecision) (halted : Bool) :
    ComplianceDecision :=
  if freigestellt intent.toOrderIntent then
    { decisionId := intent.decisionId, decisionId_ne := intent.decisionId_ne
      approved := true
      reasonCode := exemptReasonByKind intent.intentKind
      detail := freistellungsDetail intent prior
      halted }
  else if halted then
    { decisionId := intent.decisionId, decisionId_ne := intent.decisionId_ne
      approved := false
      reasonCode := .tradingHalted
      detail := "Handel gehalten — nur Schutz-Exits passieren"
      halted := true }
  else
    match prior with
    | some prior => prior
    | none =>
        { decisionId := intent.decisionId, decisionId_ne := intent.decisionId_ne
          approved := true
          reasonCode := .approved
          halted := false }

/-- Whether a decision made before rejects. -/
def lehntAb (prior : Option ComplianceDecision) : Bool :=
  prior.any fun d => !d.approved

/-- An intent is approved when it is exempt, or when neither the halt nor the
prior decision speaks against it. -/
theorem OrderGateway.decide_approved (intent : Intent) (prior : Option ComplianceDecision)
    (halted : Bool) :
    (OrderGateway.decide intent prior halted).approved =
      (freigestellt intent.toOrderIntent || !halted && !lehntAb prior) := by
  unfold decide lehntAb
  cases hf : freigestellt intent.toOrderIntent with
  | true => rfl
  | false =>
    cases halted with
    | true => rfl
    | false =>
      cases prior with
      | none => rfl
      | some d => simp

theorem exemptReasonByKind_ne (kind : IntentKind) : exemptReasonByKind kind ≠ .systemError := by
  cases kind <;> exact fun h => nomatch h

/-- Only a failed broker call is recorded as a system error. -/
theorem OrderGateway.decide_reasonCode_ne (intent : Intent) (halted : Bool) :
    (OrderGateway.decide intent none halted).reasonCode ≠ .systemError := by
  unfold decide
  split
  next => exact exemptReasonByKind_ne intent.intentKind
  next =>
    cases halted with
    | true => exact fun h => nomatch h
    | false => exact fun h => nomatch h

/-! ## Submission -/

/-- An attribute of a broker object. -/
inductive Wert where
  | fehlt
  | zahl (x : Rat)
  | unlesbar
deriving DecidableEq, Repr

/-- A request in the form of the broker. -/
structure Auftrag where
  symbol : String
  side : Verkauf.Action
  qty : Rat
  /-- The price of a limit order.  A market order has none. -/
  limitPrice : Option Rat := none
  form : Request
deriving DecidableEq, Repr

/-- A request with the key that belongs to it. -/
def Auftrag.mitSchluessel (digest : String → String) (intent : Intent) (r : Auftrag) : Auftrag :=
  { r with form := Idempotenz.mitSchluessel digest intent r.form }

/-- The gateway's dependencies: the broker, the question for the halt, and the
record sink. -/
structure OrderGateway (m : Type → Type) (α : Type) where
  submitOrder : Auftrag → m α
  isHalted : m Bool
  record : ComplianceDecision → Intent → m Unit

/-- The decision that a failed broker call is recorded with. -/
def gescheitert (intent : Intent) (entschieden : ComplianceDecision) (exc : String) :
    ComplianceDecision :=
  { decisionId := intent.decisionId, decisionId_ne := intent.decisionId_ne
    approved := entschieden.approved
    reasonCode := .systemError
    detail := "Broker-Aufruf fehlgeschlagen: " ++ exc
    halted := entschieden.halted }

section

variable {m : Type → Type} {ε α : Type} [Monad m] [MonadExceptOf ε m]

/-- Decides, calls the broker if approved, and records.  A failed call is recorded
and raised again. -/
def OrderGateway.submitWithResult (g : OrderGateway m α) (digest : String → String)
    (text : ε → String) (intent : Intent) (request : Auftrag) (decision : Option ComplianceDecision) :
    m (ComplianceDecision × Option α) := do
  let halted ← g.isHalted
  let entschieden := decide intent decision halted
  if !entschieden.approved then
    g.record entschieden intent
    return (entschieden, none)
  else
    let antwort ← tryCatch (g.submitOrder (request.mitSchluessel digest intent)) fun exc => do
      g.record (gescheitert intent entschieden (text exc)) intent
      throw exc
    g.record entschieden intent
    return (entschieden, some antwort)

/-- The submission without the broker's answer. -/
def OrderGateway.submit (g : OrderGateway m α) (digest : String → String) (text : ε → String)
    (intent : Intent) (request : Auftrag) (decision : Option ComplianceDecision) :
    m ComplianceDecision := do
  let (entschieden, _) ← g.submitWithResult digest text intent request decision
  return entschieden

end

/-- What a submission asks, over any questions. -/
theorem meets_submitWithResult {ι ε α φ : Type} {ω : ι → Type} {N : Protocol ι ω φ} {x : φ}
    {g : OrderGateway (Raising ι ω ε) α} {digest : String → String} {text : ε → String}
    {intent : Intent} {request : Auftrag} {decision : Option ComplianceDecision}
    {Q : ComplianceDecision × Option α → φ → Prop} {E : ε → φ → Prop} :
    Meets N x (g.submitWithResult digest text intent request decision) Q E ↔
      Meets N x g.isHalted (fun h y =>
        if (OrderGateway.decide intent decision h).approved = true then
          Meets N y (g.submitOrder (request.mitSchluessel digest intent))
            (fun a z => Meets N z (g.record (OrderGateway.decide intent decision h) intent)
              (fun _ => Q (OrderGateway.decide intent decision h, some a)) E)
            (fun e z => Meets N z
              (g.record (gescheitert intent (OrderGateway.decide intent decision h) (text e)) intent)
              (fun _ => E e) E)
        else
          Meets N y (g.record (OrderGateway.decide intent decision h) intent)
            (fun _ => Q (OrderGateway.decide intent decision h, none)) E) E := by
  simp only [OrderGateway.submitWithResult, meets_bind]
  refine iff_of_eq (congrArg (Meets N x g.isHalted · E) (funext fun h => funext fun y => ?_))
  cases (OrderGateway.decide intent decision h).approved with
  | true => simp
  | false => simp

/-! ## The gateway on its own -/

/-- What the gateway asks. -/
inductive Zugriff where
  | isHalted
  | submitOrder (request : Auftrag)
  | record (entscheidung : ComplianceDecision) (intent : Intent)

/-- What it is answered.  Only the broker raises. -/
@[reducible] def Zugriff.Antwort (ε α : Type) : Zugriff → Type
  | .isHalted => Bool
  | .submitOrder _ => Except ε α
  | .record _ _ => Unit

def frage {ε α : Type} (i : Zugriff) :
    Raising Zugriff (Zugriff.Antwort ε α) ε (Zugriff.Antwort ε α i) :=
  Raising.ask i

def tor (ε α : Type) : OrderGateway (Raising Zugriff (Zugriff.Antwort ε α) ε) α where
  submitOrder r := do
    let antwort ← frage (.submitOrder r)
    Raising.raise antwort
  isHalted := frage .isHalted
  record d intent := frage (.record d intent)

/-- A call of `submitWithResult`. -/
structure Aufruf where
  intent : Intent
  request : Auftrag
  decision : Option ComplianceDecision

def Aufruf.programm {ε α : Type} (digest : String → String) (text : ε → String) (c : Aufruf) :
    Program Zugriff (Zugriff.Antwort ε α) (Except ε (ComplianceDecision × Option α)) :=
  ((tor ε α).submitWithResult digest text c.intent c.request c.decision).run

/-- The questions of a call with their answers. -/
abbrev Verlauf (ε α : Type) := List (Σ i, Zugriff.Antwort ε α i)

/-- The answers to the question for the halt. -/
def haltAntworten {ε α : Type} (l : Verlauf ε α) : List Bool :=
  l.filterMap fun
    | ⟨.isHalted, h⟩ => some h
    | _ => none

/-- The requests the broker was called with. -/
def brokerAufrufe {ε α : Type} (l : Verlauf ε α) : List Auftrag :=
  l.filterMap fun
    | ⟨.submitOrder r, _⟩ => some r
    | _ => none

def datensaetze {ε α : Type} (l : Verlauf ε α) : List ComplianceDecision :=
  l.filterMap fun
    | ⟨.record d _, _⟩ => some d
    | _ => none

/-- Whether a call may be approved: it is exempt, or it meets no halt and no
rejecting decision. -/
def zulaessig {ε α : Type} (c : Aufruf) (l : Verlauf ε α) : Prop :=
  freigestellt c.intent.toOrderIntent = true ∨ true ∉ haltAntworten l ∧ lehntAb c.decision = false

/-- What holds of a call at any time: at most one record, and at most one broker
call, which is not made unless the call may be approved. -/
structure Geordnet {ε α : Type} (c : Aufruf) (l : Verlauf ε α) : Prop where
  datensaetze_le : (datensaetze l).length ≤ 1
  brokerAufrufe_le : (brokerAufrufe l).length ≤ 1
  zulaessig : brokerAufrufe l ≠ [] → zulaessig c l

/-- What holds of a call that has returned or raised: exactly one record, and
exactly one broker call or none, as the record says.  The record is the returned
decision, and it approves if and only if the call may be approved. -/
structure Erledigt {ε α : Type} (c : Aufruf) (l : Verlauf ε α)
    (r : Except ε (ComplianceDecision × Option α)) (d : ComplianceDecision) : Prop where
  datensaetze : datensaetze l = [d]
  brokerAufrufe : (brokerAufrufe l).length = if d.approved then 1 else 0
  approved : d.approved = true ↔ zulaessig c l
  returned : ∀ d' antwort, r = .ok (d', antwort) → d' = d

section

variable {ε α φ : Type} {digest : String → String} {text : ε → String} {c : Aufruf}

theorem geordnet_nil : Geordnet (ε := ε) (α := α) c [] :=
  ⟨by simp [datensaetze], by simp [brokerAufrufe], fun h => absurd rfl h⟩

variable {N : Protocol Zugriff (Zugriff.Antwort ε α) φ} {x : φ} {E : ε → φ → Prop}

theorem meets_isHalted {Q : Bool → φ → Prop} :
    Meets N x (tor ε α).isHalted Q E ↔ ∀ h, ∃ y, N x .isHalted h y ∧ Q h y := Iff.rfl

theorem meets_submitOrder {r : Auftrag} {Q : α → φ → Prop} :
    Meets N x ((tor ε α).submitOrder r) Q E ↔
      ∀ a, ∃ y, N x (.submitOrder r) a y ∧ Ending Q E a y := Iff.rfl

theorem meets_record {d : ComplianceDecision} {intent : Intent} {Q : Unit → φ → Prop} :
    Meets N x ((tor ε α).record d intent) Q E ↔ ∀ a, ∃ y, N x (.record d intent) a y ∧ Q a y :=
  Iff.rfl

/-- The decision approves if and only if the call may be approved. -/
theorem decide_approved_iff {h : Bool} {l : Verlauf ε α} (hl : haltAntworten l = [h]) :
    (OrderGateway.decide c.intent c.decision h).approved = true ↔ zulaessig c l := by
  rw [OrderGateway.decide_approved, zulaessig, hl]
  cases h with
  | true => simp
  | false => simp

/-- A call keeps its order at each step, and at its end one record stands. -/
theorem Aufruf.programm_follows (c : Aufruf) :
    (c.programm (α := α) digest text).Follows (Protocol.logs (Geordnet c))
      (fun r l => ∃ d, Erledigt c l r d) [] := by
  rw [Aufruf.programm, follows_run]
  rw [meets_submitWithResult, meets_isHalted]
  intro h
  have happ : ∀ l : Verlauf ε α, haltAntworten l = [h] →
      ((OrderGateway.decide c.intent c.decision h).approved = true ↔ zulaessig c l) :=
    fun _ hl => decide_approved_iff hl
  generalize OrderGateway.decide c.intent c.decision h = d at happ ⊢
  refine ⟨_, ⟨rfl, ?_⟩, ?_⟩
  · exact ⟨by simp [datensaetze], by simp [brokerAufrufe], fun hb => absurd rfl hb⟩
  · split
    next hyes =>
      simp only [meets_record, meets_submitOrder]
      intro a
      refine ⟨_, ⟨rfl, ?_⟩, ?_⟩
      · exact ⟨by simp [datensaetze], by simp [brokerAufrufe],
          fun _ => (happ _ (by simp [haltAntworten])).mp hyes⟩
      · cases a with
        | ok antwort =>
            intro _
            refine ⟨_, ⟨rfl, ?_⟩, d, ?_⟩
            · exact ⟨by simp [datensaetze], by simp [brokerAufrufe],
                fun _ => (happ _ (by simp [haltAntworten])).mp hyes⟩
            · refine ⟨by simp [datensaetze], by simp [brokerAufrufe, hyes],
                happ _ (by simp [haltAntworten]), fun d' antwort hr => ?_⟩
              exact (congrArg Prod.fst (Except.ok.inj hr)).symm
        | error exc =>
            intro _
            refine ⟨_, ⟨rfl, ?_⟩, gescheitert c.intent d (text exc), ?_⟩
            · exact ⟨by simp [datensaetze], by simp [brokerAufrufe],
                fun _ => (happ _ (by simp [haltAntworten])).mp hyes⟩
            · exact ⟨by simp [datensaetze], by simp [brokerAufrufe, gescheitert, hyes],
                happ _ (by simp [haltAntworten]), fun _ _ hr => nomatch hr⟩
    next hno =>
      simp only [meets_record]
      intro _
      refine ⟨_, ⟨rfl, ?_⟩, d, ?_⟩
      · exact ⟨by simp [datensaetze], by simp [brokerAufrufe], fun hb => absurd rfl hb⟩
      · refine ⟨by simp [datensaetze], by simp [brokerAufrufe, hno],
          happ _ (by simp [haltAntworten]), fun d' antwort hr => ?_⟩
        exact (congrArg Prod.fst (Except.ok.inj hr)).symm

end

/-! ## Any number of calls -/

section

variable {ε α σ : Type} {digest : String → String} {text : ε → String}

/-- In every run of calls of `submitWithResult` side by side, over a world that
answers for the halt and the broker in any way: a call that has ended has called
the broker exactly once if the decision it returned or recorded approves and not
at all otherwise, has written exactly one record, and was approved if and only if
it is exempt or met neither the halt nor a rejecting decision.  A call that has
not ended has called the broker at most once, and only if it may be approved. -/
theorem einDatensatz_je_aufruf {W : World σ Zugriff (Zugriff.Antwort ε α)} {init : σ → Prop}
    {p : Pool σ Aufruf (Verlauf ε α × Program Zugriff (Zugriff.Antwort ε α)
      (Except ε (ComplianceDecision × Option α)))
      (Verlauf ε α × Except ε (ComplianceDecision × Option α))}
    (h : ((W.machine (Aufruf.programm digest text)).pool init).Reach p) :
    (∀ d ∈ p.log, ∃ e, Erledigt d.call d.answer.1 d.answer.2 e) ∧
      ∀ i j, p.jobs i = some j → Geordnet j.call j.point.1 := by
  have hrun := System.Reach.restrict_of_forall
    (G := guarded (World.questions fun _ _ _ => True)) (fun p a p' _ => ?_) h
  · obtain ⟨⟨-, hdone⟩, hjobs⟩ := World.machine_sound (I := fun _ => True)
      (N := fun c => Protocol.logs (Geordnet c)) (x := fun _ => [])
      (R := fun c r l => ∃ e, Erledigt c l r e) Aufruf.programm_follows (fun _ _ => trivial)
      (fun _ _ => trivial) (fun _ _ _ _ => trivial) hrun
    refine ⟨fun d hd => ?_, fun i j hj => ?_⟩
    · obtain ⟨l, hl, hR⟩ := hdone d hd
      obtain ⟨rfl, -⟩ := hl.of_logs geordnet_nil
      exact hR
    · obtain ⟨l, hl, -⟩ := hjobs i j hj
      exact (hl.of_logs geordnet_nil).2
  · cases a with
    | access c => exact fun _ _ _ _ _ => trivial
    | enter _ _ => trivial
    | crash _ => trivial
    | idle => trivial

end

def beliebig (ε α : Type) : World Unit Zugriff (Zugriff.Antwort ε α) where
  drift _ _ := True
  answer _ _ _ _ := True

theorem beliebig_answer {ε α : Type} {i : Zugriff} (a : Zugriff.Antwort ε α i) :
    (beliebig ε α).answer () i a () := trivial

def trimAufruf : Aufruf where
  intent :=
    { symbol := "AAPL", side := .sell, qty := 5, intentKind := .trim, isProtectiveExit := false
      halted := false, decisionId := "d1", decisionId_ne := by simp, symbol_ne := by simp }
  request := { symbol := "AAPL", side := .sell, qty := 5, form := .mitFeld (some "trim-0-d1") }
  decision := none

/-- The log of the trim when the broker does not answer in time. -/
def trimVerlauf : Verlauf String Unit :=
  [⟨.isHalted, false⟩, ⟨.submitOrder trimAufruf.request, .error "timeout"⟩,
    ⟨.record (gescheitert trimAufruf.intent (OrderGateway.decide trimAufruf.intent none false) "timeout")
      trimAufruf.intent, ()⟩]

theorem trim_start :
    ((((beliebig String Unit).machine (Aufruf.programm id id)).pool fun _ => True).restrict
      (guarded fun _ _ _ => True)).Reach ⟨(), fun _ => none, []⟩ :=
  .start ⟨trivial, fun _ => rfl, rfl⟩

theorem trim_reach :
    (((beliebig String Unit).machine (Aufruf.programm id id)).pool fun _ => True).Reach
      ⟨(), fun _ => none, [] ++ [⟨0, trimAufruf, 0, (trimVerlauf, .error "timeout")⟩]⟩ := by
  refine (alone_reach (C := fun _ _ => True) (i := 0) (c := trimAufruf) trim_start ?_ trivial
    fun _ _ _ _ => trivial).of_restrict
  refine .next trivial (.ask (beliebig_answer false)) ?_
  refine .next trivial (.ask (beliebig_answer (i := .submitOrder _) (Except.error "timeout"))) ?_
  refine .next trivial (.ask (beliebig_answer (i := .record _ _) ())) ?_
  exact .answer trivial .done

theorem einDatensatz_je_aufruf_trim :
    ∃ d, Erledigt trimAufruf trimVerlauf (.error "timeout") d :=
  (einDatensatz_je_aufruf trim_reach).1 ⟨0, trimAufruf, 0, (trimVerlauf, .error "timeout")⟩
    (List.mem_singleton.mpr rfl)

end Gateway
