import AutonomousEngine.Basis.Interleave
import AutonomousEngine.State.Sqlite

/-!
# The permission to write for an account

Any number of instances contend for one account.  Each has a lock on the same
key with a token of its own, and the permission of an engine (`EngineLease`) is
built over the lock: it acquires it, renews it, and writes a note beside it that
says who holds it.  When the lock is taken and the note names a process of this
machine that does not exist any more, the lock of exactly that token is broken.

An operation reads the clock first and runs its statement later.  It may be
delayed in between, and so may the take-over, between reading the note, looking
for the process and breaking the lock.  An operation goes no further when its
process has ended.

A process runs once.  Its number may be given to another one afterwards, and a
process that looks alive for that reason is only waited for.
-/

namespace Berechtigung

open Basis State

/-- A process of a machine.  `nr` tells apart processes of one pid. -/
structure Prozess where
  host : String
  pid : Nat
  nr : Nat
deriving DecidableEq, Repr

/-- Whether a process is still to start, runs, or has ended. -/
inductive Phase where
  | vor
  | laeuft
  | tot
deriving DecidableEq, Repr

/-- What may become of a process. -/
inductive Phase.Bis : Phase → Phase → Prop where
  | refl (x) : Bis x x
  | start : Bis .vor .laeuft
  | vorbei : Bis .vor .tot
  | ende : Bis .laeuft .tot

/-- What the note says about the holder. -/
structure Halter where
  host : String
  pid : Nat
  token : String
  instanz : String
deriving DecidableEq, Repr

/-- `json.dumps` and `json.loads` of the note. -/
structure Vermerkschrift where
  dumps : Halter → String
  loads : String → Option Halter
  loads_dumps : ∀ h, loads (dumps h) = some h

/-- An `EngineLease` with its lock. -/
structure Kandidat where
  token : String
  fristS : ℚ
  prozess : Prozess
  instanz : String
deriving DecidableEq, Repr

def Kandidat.halter (k : Kandidat) : Halter where
  host := k.prozess.host
  pid := k.prozess.pid
  token := k.token
  instanz := k.instanz

def sperreKey (konto : String) : String := "__lock__:engine_lease:" ++ konto

def halterKey (konto : String) : String := "engine_lease_halter:" ++ konto

theorem sperreKey_ne_halterKey (konto : String) : sperreKey konto ≠ halterKey konto := by
  intro h
  have hne : "__lock__:engine_lease:".toList ++ konto.toList ≠
      "engine_lease_halter:".toList ++ konto.toList := by
    simp
  rw [← String.toList_append, ← String.toList_append] at hne
  exact hne (congrArg String.toList h)

/-- The store of all instances, the clock, and the processes. -/
structure Ablage where
  db : Sqlite
  jetzt : ℚ
  phase : Prozess → Phase

/-! ## Operations and their points -/

/-- An operation of the lock or of the permission. -/
inductive Operation where
  | acquire
  | renew
  | release
  | held
  | brechen (fremdesToken : String)
  | erwerben
  | erneuern (fortschritt : Bool)
deriving DecidableEq, Repr

/-- An operation of a contender. -/
structure Ruf (κ : Type) where
  kandidat : κ
  operation : Operation

/-- What an acquisition is for. -/
inductive Zweck where
  | sperre
  | erwerben
  | nachBruch
deriving DecidableEq, Repr

/-- What a contender does next. -/
inductive Punkt (κ : Type) where
  | beginn (k : κ) (operation : Operation)
  | acquireUhr (k : κ)
  | acquireSql (k : κ) (zweck : Zweck) (jetzt : ℚ)
  | renewSql (k : κ) (erneuern : Bool) (jetzt : ℚ)
  | heldSql (k : κ) (jetzt : ℚ)
  | vermerkUhr (k : κ)
  | vermerkSetzen (k : κ) (jetzt : ℚ)
  | uebernehmenLesen (k : κ)
  | uebernehmenFrist (k : κ) (zeile : Zeile)
  | uebernehmenPruefen (k : κ) (halter : Halter)
  | uebernehmenBrechen (k : κ) (token : String)

def Punkt.kandidat {κ : Type} : Punkt κ → κ
  | .beginn k _ | .acquireUhr k | .acquireSql k _ _ | .renewSql k _ _ | .heldSql k _
  | .vermerkUhr k | .vermerkSetzen k _ | .uebernehmenLesen k | .uebernehmenFrist k _
  | .uebernehmenPruefen k _ | .uebernehmenBrechen k _ => k

def nachAcquire {κ : Type} (k : κ) : Zweck → Bool → Punkt κ ⊕ Bool
  | .sperre, b => .inr b
  | _, true => .inl (.vermerkUhr k)
  | .erwerben, false => .inl (.uebernehmenLesen k)
  | .nachBruch, false => .inr false

def nachRenew {κ : Type} (k : κ) (erneuern b : Bool) : Punkt κ ⊕ Bool :=
  if erneuern && b then .inl (.vermerkUhr k) else .inr b

/-- Where the take-over leads after a break. -/
def nachBrechen {κ : Type} (k : κ) (b : Bool) : Punkt κ ⊕ Bool :=
  if b then .inl (.acquireUhr k) else .inr false

section Maschine

variable {κ : Type} (K : κ → Kandidat) (konto : String) (v : Vermerkschrift)

/-- The take-over reads the note: on this machine, and not of this process. -/
def liesHalter (k : κ) (roh : String) : Option Halter :=
  if roh = "" then none
  else (v.loads roh).filter fun h =>
    h.host == (K k).prozess.host && !(h.pid == 0) && !(h.pid == (K k).prozess.pid)

/-- The take-over reads the row of the note, and finds it past its expiry or goes
on with what it says. -/
def nachFrist (k : κ) (z : Zeile) (jetzt : ℚ) : Punkt κ ⊕ Bool :=
  if z.Abgelaufen jetzt then .inr false
  else match liesHalter K v k z.value with
    | none => .inr false
    | some h => .inl (.uebernehmenPruefen k h)

/-- `_prozess_lebt` answers false only when no such process runs. -/
def Nachgewiesen (s : Ablage) (h : Halter) (lebt : Bool) : Prop :=
  lebt = false → ∀ P : Prozess, P.host = h.host → P.pid = h.pid → s.phase P ≠ .laeuft

/-- One step of an operation. -/
inductive Befehl : Ablage → Punkt κ → Ablage → Punkt κ ⊕ Bool → Prop where
  | acquire {s k} : Befehl s (.beginn k .acquire) s (.inl (.acquireSql k .sperre s.jetzt))
  | erwerben {s k} : Befehl s (.beginn k .erwerben) s (.inl (.acquireSql k .erwerben s.jetzt))
  | acquireUhr {s k} : Befehl s (.acquireUhr k) s (.inl (.acquireSql k .nachBruch s.jetzt))
  | acquireSql {s k zweck t} : Befehl s (.acquireSql k zweck t)
      { s with db := (s.db.acquire (sperreKey konto) (K k).token (K k).fristS t).1 }
      (nachAcquire k zweck (s.db.acquire (sperreKey konto) (K k).token (K k).fristS t).2)
  | renew {s k} : Befehl s (.beginn k .renew) s (.inl (.renewSql k false s.jetzt))
  | ohneFortschritt {s k} : Befehl s (.beginn k (.erneuern false)) s (.inr false)
  | erneuern {s k} : Befehl s (.beginn k (.erneuern true)) s (.inl (.renewSql k true s.jetzt))
  | renewSql {s k erneuern t} : Befehl s (.renewSql k erneuern t)
      { s with db := (s.db.renew (sperreKey konto) (K k).token (K k).fristS t).1 }
      (nachRenew k erneuern (s.db.renew (sperreKey konto) (K k).token (K k).fristS t).2)
  | release {s k} : Befehl s (.beginn k .release)
      { s with db := (s.db.release (sperreKey konto) (K k).token).1 }
      (.inr (s.db.release (sperreKey konto) (K k).token).2)
  | held {s k} : Befehl s (.beginn k .held) s (.inl (.heldSql k s.jetzt))
  | heldSql {s k t} : Befehl s (.heldSql k t) s
      (.inr (s.db.held (sperreKey konto) (K k).token t))
  | brechen {s k t} : Befehl s (.beginn k (.brechen t))
      { s with db := (s.db.brechen (sperreKey konto) (K k).token t).1 }
      (.inr (s.db.brechen (sperreKey konto) (K k).token t).2)
  | vermerkUhr {s k} : Befehl s (.vermerkUhr k) s (.inl (.vermerkSetzen k s.jetzt))
  | vermerkSetzen {s k t} : Befehl s (.vermerkSetzen k t)
      { s with db := s.db.set (halterKey konto) (v.dumps (K k).halter) (some (K k).fristS) t }
      (.inr true)
  /-- A note that cannot be written is left out. -/
  | vermerkFehlt {s k t} : Befehl s (.vermerkSetzen k t) s (.inr true)
  | ohneVermerk {s k} : s.db.engineState (halterKey konto) = none →
      Befehl s (.uebernehmenLesen k) s (.inr false)
  | uebernehmenLesen {s k z} : s.db.engineState (halterKey konto) = some z →
      Befehl s (.uebernehmenLesen k) s (.inl (.uebernehmenFrist k z))
  | uebernehmenFrist {s k z} : Befehl s (.uebernehmenFrist k z) s (nachFrist K v k z s.jetzt)
  | uebernehmenPruefen {s k h lebt} : Nachgewiesen s h lebt →
      Befehl s (.uebernehmenPruefen k h) s
        (if lebt then .inr false else .inl (.uebernehmenBrechen k h.token))
  | uebernehmenBrechen {s k t} : Befehl s (.uebernehmenBrechen k t)
      { s with db := (s.db.brechen (sperreKey konto) (K k).token t).1 }
      (nachBrechen k (s.db.brechen (sperreKey konto) (K k).token t).2)

/-- Time passes, and processes start and end. -/
structure Vergeht (s s' : Ablage) : Prop where
  db : s'.db = s.db
  jetzt : s.jetzt ≤ s'.jetzt
  phase : ∀ P, (s.phase P).Bis (s'.phase P)

/-- The operations of all contenders.  Each step needs the process to run. -/
def engineLease : Machine Ablage (Ruf κ) (Punkt κ) Bool where
  entry ruf := .beginn ruf.kandidat ruf.operation
  access s q s' r := s.phase (K q.kandidat).prozess = .laeuft ∧ Befehl K konto v s q s' r
  idle := Vergeht

/-- Nobody has the lock, and there is no note. -/
def Frei (s : Ablage) : Prop :=
  s.db.engineState (sperreKey konto) = none ∧ s.db.engineState (halterKey konto) = none

/-- All interleavings of the operations of all contenders. -/
def system : System (Pool Ablage (Ruf κ) (Punkt κ) Bool) (PoolAct (Ruf κ)) :=
  (engineLease K konto v).pool (Frei konto)

end Maschine

end Berechtigung
