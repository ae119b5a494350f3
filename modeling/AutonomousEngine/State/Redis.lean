import AutonomousEngine.State.Sqlite
import Mathlib.Data.Rat.Floor

/-!
# The Redis adapter of the state port

A key of Redis holds a text or a list, and a text may carry the moment it
expires at, in milliseconds of the clock of the server.  A text past its expiry
is not there any more for any command.  A command on a key of the other type is
an error, except for `SET` and `DEL`.

The adapter issues one command for most operations.  An increment with a time to
live is two, and so is an append with a bound.
-/

namespace State

/-- What a key holds. -/
inductive RedisWert where
  | text (value : String) (due : Option Int)
  | liste (entries : List String)
deriving DecidableEq, Repr

abbrev Redis : Type := String → Option RedisWert

/-- The clock of the server in milliseconds. -/
def millis (jetzt : ℚ) : Int := ⌊jetzt * 1000⌋

/-- `max(1, int(ttl_seconds * 1000))`. -/
def ttlMillis (ttlSeconds : ℚ) : Int := max 1 ⌊ttlSeconds * 1000⌋

def Verfallen (due : Option Int) (jetzt : ℚ) : Prop := ∃ d, due = some d ∧ d < millis jetzt

instance (due : Option Int) (jetzt : ℚ) : Decidable (Verfallen due jetzt) :=
  match due with
  | none => .isFalse fun ⟨_, hd, _⟩ => by simp at hd
  | some d => decidable_of_iff (d < millis jetzt) (by simp [Verfallen])

namespace Redis

variable (r : Redis) (key : String) (jetzt : ℚ)

def lies : Option RedisWert :=
  match r key with
  | none => none
  | some (.liste entries) => some (.liste entries)
  | some (.text value due) => if Verfallen due jetzt then none else some (.text value due)

def schreibe (w : RedisWert) : Redis := Function.update r key (some w)

def loesche : Redis := Function.update r key none

@[simp] theorem schreibe_self (w : RedisWert) : r.schreibe key w key = some w := by
  simp [schreibe]

@[simp] theorem schreibe_of_ne {k : String} (w : RedisWert) (h : k ≠ key) :
    r.schreibe key w k = r k := by
  simp [schreibe, h]

@[simp] theorem loesche_self : r.loesche key key = none := by
  simp [loesche]

@[simp] theorem loesche_of_ne {k : String} (h : k ≠ key) : r.loesche key k = r k := by
  simp [loesche, h]

/-! ## Keys and values -/

/-- `GET`.  The error is `none`. -/
def get : Option (Option String) :=
  match r.lies key jetzt with
  | none => some none
  | some (.text value _) => some (some value)
  | some (.liste _) => none

def faellig (ttlSeconds : Option ℚ) : Option Int :=
  ttlSeconds.map fun ttl => millis jetzt + ttlMillis ttl

/-- `SET`, with `PX` when there is a time to live. -/
def set (value : String) (ttlSeconds : Option ℚ) : Redis :=
  r.schreibe key (.text value (faellig jetzt ttlSeconds))

/-- `DEL`. -/
def delete : Redis × Bool := (r.loesche key, (r.lies key jetzt).isSome)

/-- The expiry after `INCRBYFLOAT` kept `due`, and after `PEXPIRE`. -/
def faelligNach (ttlSeconds : Option ℚ) (due : Option Int) : Option Int :=
  match ttlSeconds with
  | none => due
  | some ttl => some (millis jetzt + ttlMillis ttl)

/-- `INCRBYFLOAT`, and `PEXPIRE` when there is a time to live. -/
def increment (R : Rechnung) (amount : R.F) (ttlSeconds : Option ℚ) : Redis × Ergebnis R.F :=
  match r.lies key jetzt with
  | some (.liste _) => (r, .fehler)
  | none =>
      match R.incrbyfloat none (R.repr amount) with
      | none => (r, .fehler)
      | some neu =>
          (r.schreibe key (.text neu (faelligNach jetzt ttlSeconds none)),
            (R.float neu).elim .fehler .zahl)
  | some (.text value due) =>
      match R.incrbyfloat (some value) (R.repr amount) with
      | none => (r, .fehler)
      | some neu =>
          (r.schreibe key (.text neu (faelligNach jetzt ttlSeconds due)),
            (R.float neu).elim .fehler .zahl)

/-! ## Queues -/

/-- `LTRIM key start -1`. -/
def ltrim (entries : List String) (start : Int) : List String :=
  if start < 0 then entries.drop (entries.length - start.natAbs) else entries.drop start.toNat

/-- A list that became empty is no key any more. -/
def mitListe (entries : List String) : Redis :=
  if entries = [] then r.loesche key else r.schreibe key (.liste entries)

/-- `RPUSH`, and `LTRIM` beyond the bound. -/
def append {F : Type} (value : String) (maxLength : Option Int) : Redis × Ergebnis F :=
  match r.lies key jetzt with
  | some (.text _ _) => (r, .fehler)
  | o =>
      let entries := (match o with | some (.liste entries) => entries | _ => []) ++ [value]
      match maxLength with
      | some m =>
          if m < entries.length then (r.mitListe key (ltrim entries (-m)), .laenge m)
          else (r.schreibe key (.liste entries), .laenge entries.length)
      | none => (r.schreibe key (.liste entries), .laenge entries.length)

/-- `LRANGE key 0 -1`. -/
def read {F : Type} : Ergebnis F :=
  match r.lies key jetzt with
  | none => .liste []
  | some (.liste entries) => .liste entries
  | some (.text _ _) => .fehler

/-- `LPOP`. -/
def pop {F : Type} : Redis × Ergebnis F :=
  match r.lies key jetzt with
  | none => (r, .wert none)
  | some (.liste []) => (r, .wert none)
  | some (.liste (value :: entries)) => (r.mitListe key entries, .wert (some value))
  | some (.text _ _) => (r, .fehler)

/-! ## The lock -/

section Sperre

variable {F : Type} (token : String) (ttl : ℚ)

/-- `SET NX PX`. -/
def acquire : Redis × Bool :=
  match r.lies key jetzt with
  | none => (r.schreibe key (.text token (some (millis jetzt + ttlMillis ttl))), true)
  | some _ => (r, false)

/-- `_wenn_uns_gehoert`: under `WATCH`, act when the key holds the token. -/
def wennGehoert (handle : Redis) : Redis × Ergebnis F :=
  match r.get key jetzt with
  | none => (r, .fehler)
  | some value => if value = some token then (handle, .wahr true) else (r, .wahr false)

/-- `PEXPIRE` on the key of the token. -/
def renew : Redis × Ergebnis F :=
  r.wennGehoert key jetzt token
    (r.schreibe key (.text token (some (millis jetzt + ttlMillis ttl))))

/-- `DEL` on the key of the token. -/
def release : Redis × Ergebnis F := r.wennGehoert key jetzt token (r.loesche key)

def held : Ergebnis F :=
  match r.get key jetzt with
  | none => .fehler
  | some value => .wahr (decide (value = some token))

def brechen (fremdesToken : String) : Redis × Ergebnis F :=
  if fremdesToken = "" ∨ fremdesToken = token then (r, .wahr false)
  else r.release key jetzt fremdesToken

end Sperre

/-! ## The adapter -/

def fuehreAus (R : Rechnung) : Operation R.F → Redis × Ergebnis R.F
  | .get key => (r, (r.get key jetzt).elim .fehler .wert)
  | .set key value ttl => (r.set key jetzt value ttl, .nichts)
  | .delete key => ((r.delete key jetzt).1, .wahr (r.delete key jetzt).2)
  | .increment key amount ttl => r.increment key jetzt R amount ttl
  | .append key value maxLength => r.append key jetzt value maxLength
  | .read key => (r, r.read key jetzt)
  | .pop key => r.pop key jetzt
  | .acquire name token ttl =>
      ((r.acquire (lockKey name) jetzt token ttl).1,
        .wahr (r.acquire (lockKey name) jetzt token ttl).2)
  | .renew name token ttl => r.renew (lockKey name) jetzt token ttl
  | .release name token => r.release (lockKey name) jetzt token
  | .held name token => (r, r.held (lockKey name) jetzt token)
  | .brechen name token fremdes => r.brechen (lockKey name) jetzt token fremdes

end Redis

end State
