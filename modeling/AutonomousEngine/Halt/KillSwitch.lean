import AutonomousEngine.Basis.Transition

/-!
# The kill switch and its durable flag

A halt has two places.  The process keeps a flag in memory, one for the system
and one for each user, and a store outside the process keeps the same flags for
the next process.  `trip` sets the flag in memory first and then writes to the
store, and each write may fail.  It does neither when `isHalted` says that the
halt already stands, and `isHalted` believes the memory before it asks the
store.

A call names its user by an optional text.  No text and the empty text both
mean the system (`benutzer`).

The store answers each single call with an `Ausgang`: it did what it was asked,
or the call raised, and then the write may still have landed.
-/

namespace Halt

open Basis

/-! ## Keys -/

/-- The user a call is for, none for the whole system. -/
def benutzer (userId : Option String) : Option String :=
  userId.filter (· ≠ "")

def haltSchluessel : Option String → String
  | none => "system_halted"
  | some u => "system_halted:" ++ u

/-- The key of the trip record beside it. -/
def tripSchluessel : Option String → String
  | none => "kill_switch_trip"
  | some u => "kill_switch_trip:" ++ u

theorem haltSchluessel_none : haltSchluessel none = "system_halted" := rfl

theorem haltSchluessel_some (u : String) : haltSchluessel (some u) = "system_halted:" ++ u := rfl

theorem tripSchluessel_none : tripSchluessel none = "kill_switch_trip" := rfl

theorem tripSchluessel_some (u : String) : tripSchluessel (some u) = "kill_switch_trip:" ++ u := rfl

theorem haltSchluessel_some_ne (u : String) : haltSchluessel (some u) ≠ haltSchluessel none := by
  intro h
  have hlaenge : "system_halted:".length + u.length = "system_halted".length := by
    rw [← String.length_append]
    exact congrArg String.length h
  exact absurd (Nat.le.intro hlaenge) (by decide)

theorem haltSchluessel_injective : Function.Injective haltSchluessel := by
  intro u v h
  cases u with
  | none =>
      cases v with
      | none => rfl
      | some v => exact absurd h.symm (haltSchluessel_some_ne v)
  | some u =>
      cases v with
      | none => exact absurd h (haltSchluessel_some_ne u)
      | some v => simpa [haltSchluessel_some] using h

@[simp] theorem haltSchluessel_inj {u v : Option String} :
    haltSchluessel u = haltSchluessel v ↔ u = v :=
  haltSchluessel_injective.eq_iff

theorem head_haltSchluessel_ne (u : Option String) :
    (haltSchluessel u).toList.head? ≠ some 'k' := by
  cases u with
  | none => simp [haltSchluessel_none]
  | some u => simp [haltSchluessel_some]

theorem head_tripSchluessel (u : Option String) : (tripSchluessel u).toList.head? = some 'k' := by
  cases u with
  | none => simp [tripSchluessel_none]
  | some u => simp [tripSchluessel_some]

@[simp] theorem haltSchluessel_ne_tripSchluessel (u v : Option String) :
    haltSchluessel u ≠ tripSchluessel v := by
  intro h
  exact head_haltSchluessel_ne u (h ▸ head_tripSchluessel v)

/-! ## The store -/

/-- The durable store, as far as its entries have not expired. -/
abbrev Ablage := String → Option String

/-- How one call of the store ends. -/
inductive Ausgang where
  | ok
  | fehler (gelandet : Bool)
deriving DecidableEq, Repr

/-- Whether the effect of a call is in the store. -/
def Ausgang.wirkt : Ausgang → Bool
  | .ok => true
  | .fehler gelandet => gelandet

/-- Writes a value, as far as the call has its effect. -/
def Ablage.set (s : Ablage) (key value : String) (a : Ausgang) : Ablage :=
  if a.wirkt then Function.update s key (some value) else s

/-- Removes a key, as far as the call has its effect. -/
def Ablage.delete (s : Ablage) (key : String) (a : Ausgang) : Ablage :=
  if a.wirkt then Function.update s key none else s

theorem Ablage.set_self {s : Ablage} {key value : String} {a : Ausgang} (h : a.wirkt = true) :
    s.set key value a key = some value := by
  simp [Ablage.set, h]

theorem Ablage.set_of_ne (s : Ablage) {key k : String} (value : String) (a : Ausgang)
    (h : k ≠ key) : s.set key value a k = s k := by
  unfold Ablage.set
  split
  next => exact Function.update_of_ne h _ _
  next => rfl

theorem Ablage.delete_of_ne (s : Ablage) {key k : String} (a : Ausgang) (h : k ≠ key) :
    s.delete key a k = s k := by
  unfold Ablage.delete
  split
  next => exact Function.update_of_ne h _ _
  next => rfl

/-! ## The process -/

/-- What a trip leaves for the operator. -/
structure TripSatz where
  reason : String
  scope : String
  zeit : String
  userId : Option String
deriving DecidableEq, Repr

/-- The text form of a trip record.  `loads` gives none for a text that is no
record. -/
structure TripJson where
  dumps : TripSatz → String
  loads : String → Option TripSatz

/-- A process and the store behind it. -/
structure KillSwitch where
  /-- Whether the process found a store when it started. -/
  redisClient : Bool
  localHalted : Bool
  userHalted : String → Bool
  lastTrip : Option TripSatz
  /-- Survives the process. -/
  ablage : Ablage

/-- Which of the two reads of `isHalted` are answered. -/
structure Lesung where
  system : Bool
  user : Bool
deriving DecidableEq, Repr

namespace KillSwitch

/-- Whether the halt flag of a scope is in the store. -/
def gespeichert (k : KillSwitch) (u : Option String) : Prop :=
  k.ablage (haltSchluessel u) = some "true"

instance (k : KillSwitch) (u : Option String) : Decidable (k.gespeichert u) :=
  inferInstanceAs (Decidable (_ = _))

/-- Whether a flag in memory halts a scope. -/
def imSpeicher (k : KillSwitch) (u : Option String) : Bool :=
  k.localHalted || match u with
    | none => false
    | some u => k.userHalted u

/-- The trip record of a scope, if it can be read and names a reason. -/
def gespeicherterTrip (json : TripJson) (k : KillSwitch) (u : Option String) (lesbar : Bool) :
    Option TripSatz :=
  if !k.redisClient || !lesbar then none
  else ((k.ablage (tripSchluessel u)).bind json.loads).filter (·.reason ≠ "")

/-- A process at its start.  `ping` is whether the store answered. -/
def neu (json : TripJson) (s : Ablage) (ping lesbar : Bool) : KillSwitch :=
  let k : KillSwitch :=
    { redisClient := ping, localHalted := false, userHalted := fun _ => false, lastTrip := none,
      ablage := s }
  if ping && lesbar && k.gespeichert none then
    { k with lastTrip := k.gespeicherterTrip json none lesbar }
  else k

/-- Whether a scope is halted.  A flag found in the store is kept in memory. -/
def isHalted (k : KillSwitch) (userId : Option String) (l : Lesung) : Bool × KillSwitch :=
  if k.imSpeicher (benutzer userId) then (true, k)
  else if !k.redisClient then (false, k)
  else if !l.system then (false, k)
  else if k.gespeichert none then (true, { k with localHalted := true })
  else
    match benutzer userId with
    | none => (false, k)
    | some u =>
        if l.user && k.gespeichert (some u) then
          (true, { k with userHalted := Function.update k.userHalted u true })
        else (false, k)

/-- What the store answers during one `trip`. -/
structure TripAntworten where
  lesung : Lesung
  satz : Ausgang
  halt : Ausgang
deriving DecidableEq, Repr

/-- Whether the store accepts the writes of a trip. -/
def TripAntworten.nimmtAn (a : TripAntworten) : Bool :=
  a.satz = .ok && a.halt = .ok

def tripSatz (reason zeit : String) (userId : Option String) : TripSatz where
  reason := reason
  scope := match benutzer userId with
    | none => "GLOBALLY"
    | some u => "for USER " ++ u
  zeit := zeit
  userId := userId

/-- The flags in memory once a trip has set its own. -/
def merke (k : KillSwitch) : Option String → KillSwitch
  | none => { k with localHalted := true }
  | some u => { k with userHalted := Function.update k.userHalted u true }

/-- Halts a scope: in memory, then the record and the flag in the store. -/
def trip (json : TripJson) (k : KillSwitch) (reason zeit : String) (userId : Option String)
    (a : TripAntworten) : KillSwitch :=
  let (halted, k) := k.isHalted userId a.lesung
  if halted then k
  else
    let u := benutzer userId
    let satz := tripSatz reason zeit userId
    let k := { k with lastTrip := some satz }.merke u
    if !k.redisClient then k
    else
      let mitSatz := k.ablage.set (tripSchluessel u) (json.dumps satz) a.satz
      { k with ablage := mitSatz.set (haltSchluessel u) "true" a.halt }

/-- What the store answers during one `reset`. -/
structure ResetAntworten where
  halt : Ausgang
  satz : Ausgang
deriving DecidableEq, Repr

/-- Lifts a halt.  The record stays when the removal of the flag raised. -/
def reset (k : KillSwitch) (userId : Option String) (a : ResetAntworten) : KillSwitch :=
  let u := benutzer userId
  let k : KillSwitch := match u with
    | none => { k with localHalted := false, userHalted := fun _ => false }
    | some u => { k with userHalted := Function.update k.userHalted u false }
  let s :=
    if !k.redisClient then k.ablage
    else
      let ohneHalt := k.ablage.delete (haltSchluessel u) a.halt
      if a.halt = .ok then ohneHalt.delete (tripSchluessel u) a.satz else ohneHalt
  { k with lastTrip := none, ablage := s }

/-- The last trip.  After a restart it is the one in the store. -/
def letzterTrip (json : TripJson) (k : KillSwitch) (l : Lesung) : Option TripSatz × KillSwitch :=
  if k.lastTrip.isNone && k.redisClient && l.system && k.gespeichert none then
    let satz := k.gespeicherterTrip json none l.user
    (satz, { k with lastTrip := satz })
  else (k.lastTrip, k)

/-- Whether the strategy may start.  A halt stays, with or without a readable
record. -/
def haltBeimStartRaeumen (k : KillSwitch) (l : Lesung) : Bool :=
  !(k.isHalted none l).1

end KillSwitch

end Halt
