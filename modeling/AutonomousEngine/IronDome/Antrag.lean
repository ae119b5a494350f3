import AutonomousEngine.Basis.Interleave
import AutonomousEngine.IronDome.Policy

/-!
# Requests for a change of the policy

An admin sets a policy, proposes one, or approves one that was proposed.  The policy in
force, the proposals and the audit chain lie in tables, and a request turns to them one
statement at a time, each in a session of its own.  Between two statements any other
request may do the same.

A request to set a policy loads the policy in force, refuses to loosen it, writes the
audit record and saves.  A request to approve a change reads it, adds its name to the
approvals, and once the change is ready goes on like that: it loads the policy in force,
writes the audit record, saves, and marks the change as applied.

Where a statement raises, the request dies with it.  A request may die at any point.
-/

namespace IronDome

open Basis

/-! ## Tables -/

abbrev Dict : Type := List (String × JsonWert)

/-- A row of `pending_policy_change`. -/
structure PendingPolicyChange where
  id : String
  initiator : String
  requestedPolicy : Dict
  approvals : List String
  /-- In microseconds. -/
  cooloffUntil : ℤ
  applied : Bool

/-- A record of the audit chain. -/
structure AuditRecord where
  oldPolicy : Dict
  newPolicy : Dict
  actor : String

/-- The tables and the clock. -/
structure Ablage where
  policy : Option Dict
  pending : List PendingPolicyChange
  audit : List AuditRecord
  /-- In microseconds. -/
  jetzt : ℤ
  /-- The changes that were approved and saved, in the order of the saves. -/
  gespeichert : List String

namespace Ablage

variable (s : Ablage)

def loadIronDomePolicyValue : Dict := s.policy.getD []

def getPending (pendingId : String) : Option PendingPolicyChange :=
  s.pending.find? (·.id = pendingId)

def mitZeile (pendingId : String) (f : PendingPolicyChange → PendingPolicyChange) : Ablage :=
  { s with pending := s.pending.map fun row => if row.id = pendingId then f row else row }

def updatePendingApprovals (pendingId : String) (approvals : List String) : Ablage :=
  s.mitZeile pendingId fun row => { row with approvals := approvals }

def markPendingApplied (pendingId : String) (approvals : List String) : Ablage :=
  s.mitZeile pendingId fun row => { row with approvals := approvals, applied := true }

end Ablage

/-! ## Two admins -/

def addApproval (approvals : List String) (approver initiator : String) : List String :=
  if approver ≠ initiator ∧ approver ∉ approvals then approvals ++ [approver] else approvals

def isReadyToApply (approvals : List String) (cooloffUntil now : ℤ) : Bool :=
  decide (1 ≤ approvals.length ∧ cooloffUntil ≤ now)

def cooloff : ℤ := 600000000

/-! ## Requests -/

inductive Anfrage where
  | set (p : Dict)
  | propose (p : Dict) (xUserId : String)
  | approve (pendingId xUserId : String)

inductive Antwort where
  | httpException (statusCode : ℕ) (detail : String)
  /-- `load_policy` raised. -/
  | fehler
  | ok (policy : Dict)
  | vorgeschlagen (pendingId : String) (cooloffUntil : ℤ)
  | angewendet
  | offen (approvals : List String)

def ohneKennung : Antwort := .httpException 400 "X-User-Id header required."

def nichtGefunden : Antwort := .httpException 404 "Pending change not found."

def schonAngewendet : Antwort := .httpException 409 "Pending change already applied."

def brauchtVierAugen : Antwort :=
  .httpException 409
    ("Loosening an Iron Dome limit requires four-eyes; POST " ++
      "/api/admin/iron-dome-policy/propose then /approve.")

/-- What a policy is committed for. -/
inductive Anlass where
  | set
  | freigabe (pending : PendingPolicyChange) (approvals : List String) (approver : String)

/-- The arguments of `_commit_iron_dome_policy`. -/
structure Aenderung where
  oldPolicy : Dict
  effective : Dict
  anlass : Anlass

def Anlass.actor : Anlass → String
  | .set => "iron_dome_admin"
  | .freigabe pending _ approver => pending.initiator ++ "->" ++ approver

/-- What a request does next. -/
inductive Punkt where
  | laden (p : Dict)
  | vorschlagen (p : Dict) (xUserId : String)
  /-- `_create_pending`. -/
  | anlegen (row : PendingPolicyChange)
  | holen (pendingId xUserId : String)
  | pruefen (pending : PendingPolicyChange) (xUserId : String)
  | altLaden (pending : PendingPolicyChange) (approvals : List String) (xUserId : String)
  | auditieren (c : Aenderung)
  /-- With the place of the audit record. -/
  | speichern (c : Aenderung) (beleg : ℕ)
  | markieren (pendingId : String) (approvals : List String)
  | nachtragen (pendingId : String) (approvals : List String)

variable (P : Python) (B : Betrieb)

/-- `set_iron_dome_policy`, once the policy in force is loaded. -/
def nachLaden (p oldPolicy : Dict) : Punkt ⊕ Antwort :=
  match loadPolicy P B (.objekt p) with
  | none => .inr .fehler
  | some effective =>
      match isLoosening P B (.objekt oldPolicy) (.objekt effective.asdict) with
      | none => .inr .fehler
      | some true => .inr brauchtVierAugen
      | some false => .inl (.auditieren ⟨oldPolicy, effective.asdict, .set⟩)

/-- `propose_iron_dome_policy` up to the insertion of the row. -/
def nachVorschlagen (p : Dict) (xUserId pendingId : String) (now : ℤ) : Punkt ⊕ Antwort :=
  if xUserId = "" then .inr ohneKennung
  else
    match loadPolicy P B (.objekt p) with
    | none => .inr .fehler
    | some effective =>
        .inl (.anlegen
          { id := pendingId
            initiator := xUserId
            requestedPolicy := effective.asdict
            approvals := []
            cooloffUntil := now + cooloff
            applied := false })

/-- `approve_iron_dome_policy`, once the row is read. -/
def nachHolen (pending : Option PendingPolicyChange) (xUserId : String) : Punkt ⊕ Antwort :=
  if xUserId = "" then .inr ohneKennung
  else
    match pending with
    | none => .inr nichtGefunden
    | some row => if row.applied then .inr schonAngewendet else .inl (.pruefen row xUserId)

/-- The approvals with the name of the request. -/
def mitNamen (pending : PendingPolicyChange) (xUserId : String) : List String :=
  addApproval pending.approvals xUserId pending.initiator

/-- Goes on to apply a change that is ready. -/
def nachPruefen (pending : PendingPolicyChange) (xUserId : String) (now : ℤ) : Punkt :=
  if isReadyToApply (mitNamen pending xUserId) pending.cooloffUntil now then
    .altLaden pending (mitNamen pending xUserId) xUserId
  else .nachtragen pending.id (mitNamen pending xUserId)

def nachSpeichern (c : Aenderung) : Punkt ⊕ Antwort :=
  match c.anlass with
  | .set => .inr (.ok c.effective)
  | .freigabe pending approvals _ => .inl (.markieren pending.id approvals)

def Ablage.saveIronDomePolicy (s : Ablage) (c : Aenderung) : Ablage :=
  { s with
    policy := some c.effective
    gespeichert :=
      match c.anlass with
      | .set => s.gespeichert
      | .freigabe pending _ _ => s.gespeichert ++ [pending.id] }

/-- One statement of a request. -/
inductive Zugriff : Ablage → Punkt → Ablage → Punkt ⊕ Antwort → Prop where
  | laden {s p} : Zugriff s (.laden p) s (nachLaden P B p s.loadIronDomePolicyValue)
  | vorschlagen {s p xUserId} (pendingId) : Zugriff s (.vorschlagen p xUserId) s
      (nachVorschlagen P B p xUserId pendingId s.jetzt)
  /-- The ids of the rows differ. -/
  | anlegen {s row} : s.getPending row.id = none →
      Zugriff s (.anlegen row) { s with pending := s.pending ++ [row] }
        (.inr (.vorgeschlagen row.id row.cooloffUntil))
  | holen {s pendingId xUserId} : Zugriff s (.holen pendingId xUserId) s
      (nachHolen (s.getPending pendingId) xUserId)
  | pruefen {s pending xUserId} : Zugriff s (.pruefen pending xUserId) s
      (.inl (nachPruefen pending xUserId s.jetzt))
  | altLaden {s pending approvals xUserId} : Zugriff s (.altLaden pending approvals xUserId) s
      (.inl (.auditieren ⟨s.loadIronDomePolicyValue, pending.requestedPolicy,
        .freigabe pending approvals xUserId⟩))
  | auditieren {s c} : Zugriff s (.auditieren c)
      { s with audit := s.audit ++ [⟨c.oldPolicy, c.effective, c.anlass.actor⟩] }
      (.inl (.speichern c s.audit.length))
  | speichern {s c beleg} : Zugriff s (.speichern c beleg) (s.saveIronDomePolicy c)
      (nachSpeichern c)
  | markieren {s pendingId approvals} : Zugriff s (.markieren pendingId approvals)
      (s.markPendingApplied pendingId approvals) (.inr .angewendet)
  | nachtragen {s pendingId approvals} : Zugriff s (.nachtragen pendingId approvals)
      (s.updatePendingApprovals pendingId approvals) (.inr (.offen approvals))

/-- Time passes. -/
inductive VonSelbst (s : Ablage) : Ablage → Prop where
  | uhr {jetzt : ℤ} : s.jetzt ≤ jetzt → VonSelbst s { s with jetzt := jetzt }

def Anfrage.punkt : Anfrage → Punkt
  | .set p => .laden p
  | .propose p xUserId => .vorschlagen p xUserId
  | .approve pendingId xUserId => .holen pendingId xUserId

def router : Machine Ablage Anfrage Punkt Antwort where
  entry := Anfrage.punkt
  access := Zugriff P B
  idle := VonSelbst

abbrev Stand : Type := Pool Ablage Anfrage Punkt Antwort

def Leer (s : Ablage) : Prop := s.pending = [] ∧ s.gespeichert = []

/-- All interleavings of all requests, in the edition with four eyes. -/
def system : System Stand (PoolAct Anfrage) := (router P B).pool Leer

end IronDome
