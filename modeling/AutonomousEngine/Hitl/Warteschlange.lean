import AutonomousEngine.Basis.Interleave
import Mathlib.Data.Rat.Init
import Mathlib.Data.Set.Insert

/-!
# The approval queue

Orders that wait for a human are entries of a key value store with a time to
live.  The keys fall into four families, `hitl:pending:`, `hitl:pending_idx:`,
`hitl:approved:` and `hitl:inflight:`, and no key of one family is a key of
another.  An entry of a family is a blob, except for the index, which holds an
approval id.

`push`, `approve`, `reject`, `claim_approved`, `ack_inflight` and `has_pending`
are each several commands to the store.  A point of a call (`Punkt`) is the
command it makes next, with the values it has read, and `Zugriff` says what the
commands do.  Operators and workers run these calls at the same time, and a call
may stop at any point, because its process dies or a command raises.

An expired entry is not read any more.  Whether it still counts when it is
deleted depends on the store: Redis has removed it, the local store of the
desktop has not looked yet.
-/

namespace Hitl

open Basis

/-- An order that waits for a human. -/
structure Payload where
  approvalId : String
  userId : String
  symbol : String
  action : String
  qty : ℚ
  price : ℚ
  conviction : ℚ
  targetWeight : ℚ
  eventJson : String
deriving DecidableEq, Repr

/-- The text of an entry: a payload in JSON, or something that is not one. -/
inductive Blob where
  | json (payload : Payload)
  | text (s : String)
deriving DecidableEq, Repr

/-- A stored value and the moment it expires at. -/
structure Eintrag (α : Type) where
  wert : α
  frist : Option Int
deriving DecidableEq, Repr

abbrev Familie (α : Type) : Type := String → Option (Eintrag α)

def Eintrag.lebt {α : Type} (jetzt : Int) (e : Eintrag α) : Bool :=
  match e.frist with
  | none => true
  | some d => decide (jetzt ≤ d)

/-- `get`. -/
def lies {α : Type} (jetzt : Int) : Option (Eintrag α) → Option α
  | none => none
  | some e => if e.lebt jetzt then some e.wert else none

/-- `set` with `px`, over the entry of before.  A `px` of zero sets no expiry. -/
def setze {α : Type} (jetzt : Int) (alt : Option (Eintrag α)) (wert : α) (px : Int) : Eintrag α where
  wert := wert
  frist :=
    if px = 0 then
      match alt with
      | some e => if e.lebt jetzt then e.frist else none
      | none => none
    else some (jetzt + px)

/-- The store, its clock, and the approval ids handed out so far. -/
structure Ablage where
  pending : Familie Blob
  idx : Familie String
  approved : Familie Blob
  inflight : Familie Blob
  jetzt : Int
  vergeben : Set String

/-- `_idx_key`, less the name of the family. -/
def idxKey (userId symbol : String) : String := userId ++ ":" ++ symbol

def approvedWindowSeconds : Int := 600

def inflightTtlSeconds : Int := 86400

/-! ## Calls and their points -/

/-- The arguments of `push`. -/
structure Auftrag where
  userId : String
  symbol : String
  action : String
  qty : ℚ
  price : ℚ
  conviction : ℚ
  targetWeight : ℚ
  eventJson : String
deriving DecidableEq, Repr

def Auftrag.payload (a : Auftrag) (approvalId : String) : Payload where
  approvalId := approvalId
  userId := a.userId
  symbol := a.symbol
  action := a.action
  qty := a.qty
  price := a.price
  conviction := a.conviction
  targetWeight := a.targetWeight
  eventJson := a.eventJson

inductive Ruf where
  | push (auftrag : Auftrag)
  | approve (approvalId : String)
  | reject (approvalId : String)
  | claimApproved
  | ackInflight (approvalId : String)
  | hasPending (symbol userId : String)
deriving DecidableEq, Repr

inductive Antwort where
  | kennung (approvalId : Option String)
  | satz (payload : Option Payload)
  | saetze (payloads : List Payload)
  | bool (b : Bool)
  /-- `json.loads` raised. -/
  | fehler
deriving DecidableEq, Repr

/-- The command a call makes next. -/
inductive Punkt where
  | start (ruf : Ruf)
  | pushIdx (a : Auftrag)
  | pushErsetzen (a : Auftrag) (existing : String)
  | pushPending (a : Auftrag)
  | pushIndex (a : Auftrag) (approvalId : String)
  | approveLesen (approvalId : String)
  | approveSetzen (approvalId : String) (payload : Payload)
  | approveLoeschen (approvalId : String) (payload : Payload)
  | rejectLesen (approvalId : String)
  | rejectLoeschen (approvalId : String) (idx : Option String)
  | claimKeys
  | claimLesen (key : String) (keys : List String) (results : List Payload)
  | claimVerwerfen (key : String) (keys : List String) (results : List Payload)
  | claimMarkieren (key : String) (payload : Payload) (keys : List String) (results : List Payload)
  | claimEntnehmen (key : String) (payload : Payload) (keys : List String) (results : List Payload)
  | ackLoeschen (approvalId : String)
  | pendingIdx (key : String)
  | pendingLesen (approvalId : String)
deriving DecidableEq, Repr

def Ruf.ohneRedis : Ruf → Antwort
  | .push _ => .kennung none
  | .approve _ => .satz none
  | .reject _ => .bool false
  | .claimApproved => .saetze []
  | .ackInflight _ => .bool false
  | .hasPending _ _ => .bool false

/-- Where a call goes on when there is a Redis. -/
def Ruf.mitRedis : Ruf → Punkt ⊕ Antwort
  | .push a => .inl (.pushIdx a)
  | .approve id => .inl (.approveLesen id)
  | .reject id => .inl (.rejectLesen id)
  | .claimApproved => .inl .claimKeys
  | .ackInflight id => if id = "" then .inr (.bool false) else .inl (.ackLoeschen id)
  | .hasPending symbol userId => .inl (.pendingIdx (idxKey userId symbol))

/-- What `push` does about the index it read. -/
def nachPushIdx (a : Auftrag) : Option String → Punkt
  | none => .pushPending a
  | some existing => if existing = "" then .pushPending a else .pushErsetzen a existing

/-- What `approve` does about the blob it read. -/
def nachApproveLesen (id : String) : Option Blob → Punkt ⊕ Antwort
  | none => .inr (.satz none)
  | some (.text s) => if s = "" then .inr (.satz none) else .inr .fehler
  | some (.json p) => .inl (.approveSetzen id p)

/-- The index key `reject` deletes as well, by the blob it read. -/
def rejectIdx : Option Blob → Option String
  | some (.json p) => some (idxKey p.userId p.symbol)
  | _ => none

/-- The loop of `claim_approved`: the next key, or the results. -/
def claimWeiter (results : List Payload) : List String → Punkt ⊕ Antwort
  | [] => .inr (.saetze results)
  | key :: keys => .inl (.claimLesen key keys results)

/-- What `claim_approved` does about the blob it read. -/
def nachClaimLesen (key : String) (keys : List String) (results : List Payload) :
    Option Blob → Punkt
  | some (.json p) => .claimMarkieren key p keys results
  | _ => .claimVerwerfen key keys results

/-- The id an approved blob is claimed under. -/
def Payload.aid (p : Payload) (key : String) : String :=
  if p.approvalId = "" then key else p.approvalId

/-- The payload `claim_approved` returns. -/
def Payload.gepinnt (p : Payload) (key : String) : Payload := { p with approvalId := p.aid key }

/-- What `has_pending` does about the index it read. -/
def nachPendingIdx : Option String → Punkt ⊕ Antwort
  | none => .inr (.bool false)
  | some id => if id = "" then .inr (.bool false) else .inl (.pendingLesen id)

/-! ## The commands -/

/-- Whether deleting some entries may answer that there were any: at least when
one is alive, at most when one is stored. -/
def Geloescht {α β : Type} (jetzt : Int) (e : Option (Eintrag α)) (e' : Option (Eintrag β))
    (b : Bool) : Prop :=
  ((lies jetzt e).isSome ∨ (lies jetzt e').isSome → b = true) ∧
    (b = true → e.isSome ∨ e'.isSome)

section

variable (s : Ablage)

def Ablage.ohnePending (id : String) : Ablage :=
  { s with pending := Function.update s.pending id none }

def Ablage.ohneIdx (key : String) : Ablage :=
  { s with idx := Function.update s.idx key none }

def Ablage.ohneApproved (id : String) : Ablage :=
  { s with approved := Function.update s.approved id none }

def Ablage.ohneInflight (id : String) : Ablage :=
  { s with inflight := Function.update s.inflight id none }

def Ablage.mitPending (id : String) (wert : Blob) (px : Int) : Ablage :=
  { s with
    pending := Function.update s.pending id (some (setze s.jetzt (s.pending id) wert px))
    vergeben := insert id s.vergeben }

def Ablage.mitIdx (key : String) (wert : String) (px : Int) : Ablage :=
  { s with idx := Function.update s.idx key (some (setze s.jetzt (s.idx key) wert px)) }

def Ablage.mitApproved (id : String) (wert : Blob) : Ablage :=
  { s with
    approved := Function.update s.approved id
      (some (setze s.jetzt (s.approved id) wert (approvedWindowSeconds * 1000))) }

def Ablage.mitInflight (id : String) (wert : Blob) : Ablage :=
  { s with
    inflight := Function.update s.inflight id
      (some (setze s.jetzt (s.inflight id) wert (inflightTtlSeconds * 1000))) }

/-- `reject` deletes the pending entry, and the index when it knows it. -/
def Ablage.verworfen (id : String) : Option String → Ablage
  | none => s.ohnePending id
  | some key => (s.ohnePending id).ohneIdx key

end

/-- One command of a call: from a store and a point to a store and the next point
or the answer.  `px` is `HITL_EXPIRY_SECONDS` in milliseconds. -/
inductive Zugriff (px : Int) : Ablage → Punkt → Ablage → Punkt ⊕ Antwort → Prop where
  | ohneRedis {s ruf} : Zugriff px s (.start ruf) s (.inr ruf.ohneRedis)
  | mitRedis {s ruf} : Zugriff px s (.start ruf) s ruf.mitRedis
  | pushIdx {s a} : Zugriff px s (.pushIdx a) s
      (.inl (nachPushIdx a (lies s.jetzt (s.idx (idxKey a.userId a.symbol)))))
  | pushErsetzen {s a existing} : Zugriff px s (.pushErsetzen a existing)
      ((s.ohnePending existing).ohneIdx (idxKey a.userId a.symbol)) (.inl (.pushPending a))
  /-- `uuid4` answers an id it never answered before. -/
  | pushPending {s a id} : id ∉ s.vergeben → Zugriff px s (.pushPending a)
      (s.mitPending id (.json (a.payload id)) px) (.inl (.pushIndex a id))
  | pushIndex {s a id} : Zugriff px s (.pushIndex a id)
      (s.mitIdx (idxKey a.userId a.symbol) id px) (.inr (.kennung (some id)))
  | approveLesen {s id} : Zugriff px s (.approveLesen id) s
      (nachApproveLesen id (lies s.jetzt (s.pending id)))
  | approveSetzen {s id p} : Zugriff px s (.approveSetzen id p)
      (s.mitApproved id (.json p)) (.inl (.approveLoeschen id p))
  | approveLoeschen {s id p} : Zugriff px s (.approveLoeschen id p)
      ((s.ohnePending id).ohneIdx (idxKey p.userId p.symbol)) (.inr (.satz (some p)))
  | rejectLesen {s id} : Zugriff px s (.rejectLesen id) s
      (.inl (.rejectLoeschen id (rejectIdx (lies s.jetzt (s.pending id)))))
  | rejectLoeschen {s id idx b} : Geloescht s.jetzt (s.pending id) (idx.bind s.idx) b →
      Zugriff px s (.rejectLoeschen id idx) (s.verworfen id idx) (.inr (.bool b))
  | claimKeys {s keys} : keys.Nodup → (∀ id, id ∈ keys ↔ (lies s.jetzt (s.approved id)).isSome) →
      Zugriff px s .claimKeys s (claimWeiter [] keys)
  | claimLesen {s key keys results} : Zugriff px s (.claimLesen key keys results) s
      (.inl (nachClaimLesen key keys results (lies s.jetzt (s.approved key))))
  | claimVerwerfen {s key keys results} : Zugriff px s (.claimVerwerfen key keys results)
      (s.ohneApproved key) (claimWeiter results keys)
  | claimMarkieren {s key p keys results} : Zugriff px s (.claimMarkieren key p keys results)
      (s.mitInflight (p.aid key) (.json p)) (.inl (.claimEntnehmen key p keys results))
  | claimEntnehmen {s key p keys results} : Zugriff px s (.claimEntnehmen key p keys results)
      (s.ohneApproved key) (claimWeiter (results ++ [p.gepinnt key]) keys)
  | ackLoeschen {s id b} : Geloescht (β := Blob) s.jetzt (s.inflight id) none b →
      Zugriff px s (.ackLoeschen id) (s.ohneInflight id) (.inr (.bool b))
  | pendingIdx {s key} : Zugriff px s (.pendingIdx key) s (nachPendingIdx (lies s.jetzt (s.idx key)))
  | pendingLesen {s id} : Zugriff px s (.pendingLesen id) s
      (.inr (.bool (lies s.jetzt (s.pending id)).isSome))

/-! ## The store by itself -/

/-- Entries that are expired may be gone. -/
def Geraeumt {α : Type} (jetzt : Int) (m m' : Familie α) : Prop :=
  ∀ k, m' k = m k ∨ m' k = none ∧ lies jetzt (m k) = none

/-- Time passes, as the clock of the store goes. -/
structure Vergeht (uhr : Int → Int → Prop) (s s' : Ablage) : Prop where
  jetzt : uhr s.jetzt s'.jetzt
  pending : Geraeumt s'.jetzt s.pending s'.pending
  idx : Geraeumt s'.jetzt s.idx s'.idx
  approved : Geraeumt s'.jetzt s.approved s'.approved
  inflight : Geraeumt s'.jetzt s.inflight s'.inflight
  vergeben : s'.vergeben = s.vergeben

def queue (px : Int) (uhr : Int → Int → Prop) : Machine Ablage Ruf Punkt Antwort where
  entry := .start
  access := Zugriff px
  idle := Vergeht uhr

/-- The store before anything was queued. -/
structure Leer (s : Ablage) : Prop where
  pending : ∀ k, s.pending k = none
  idx : ∀ k, s.idx k = none
  approved : ∀ k, s.approved k = none
  inflight : ∀ k, s.inflight k = none

def system (px : Int) (uhr : Int → Int → Prop) :
    System (Pool Ablage Ruf Punkt Antwort) (PoolAct Ruf) :=
  (queue px uhr).pool Leer

end Hitl
