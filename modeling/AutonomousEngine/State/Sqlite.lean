import Mathlib.Algebra.Order.Ring.Rat

/-!
# The state port and its SQLite adapter

The port is what a caller may ask of a backend, and what it may be told.  Numbers are
those of Python.  Redis adds the text of an amount to the text of a counter in an
arithmetic of its own, so the port knows both (`Rechnung`).

The adapter keeps two tables.  `engine_state` has a row for each key, with a
value and the moment it expires at, and `engine_state_queue` has the entries of
the queues.  Each statement names one key, so the tables are functions of the
key here, and a queue is the list of its values by `seq`.

A row past its expiry stays in the table until something writes its key.  The
reads look at the expiry, and so do the statements of the lock that say so in
their `WHERE`; the others do not.

Every operation takes the time it read from the clock as an argument.  A lock is
a row whose value is the token of its holder.
-/

namespace State

/-- The numbers of Python, and the arithmetic of `INCRBYFLOAT` on texts. -/
structure Rechnung where
  F : Type
  null : F
  add : F → F → F
  float : String → Option F
  repr : F → String
  /-- The new text, from the stored one and the text of the amount. -/
  incrbyfloat : Option String → String → Option String
  float_repr : ∀ x, float (repr x) = some x
  float_incrbyfloat : ∀ alt amount neu, incrbyfloat alt amount = some neu → (float neu).isSome

/-- An operation of the port, or of a lock of the port with its token. -/
inductive Operation (F : Type) where
  | get (key : String)
  | set (key value : String) (ttlSeconds : Option ℚ)
  | delete (key : String)
  | increment (key : String) (amount : F) (ttlSeconds : Option ℚ)
  | append (key value : String) (maxLength : Option Int)
  | read (key : String)
  | pop (key : String)
  | acquire (name token : String) (ttlSeconds : ℚ)
  | renew (name token : String) (ttlSeconds : ℚ)
  | release (name token : String)
  | held (name token : String)
  | brechen (name token fremdesToken : String)

/-- A result of an operation. -/
inductive Ergebnis (F : Type) where
  | nichts
  | wert (value : Option String)
  | wahr (b : Bool)
  | zahl (x : F)
  | laenge (n : Int)
  | liste (values : List String)
  | fehler
deriving DecidableEq

def lockKey (name : String) : String := "__lock__:" ++ name

/-! ## The two tables -/

/-- A row of `engine_state`. -/
structure Zeile where
  value : String
  expiresAt : Option ℚ
deriving DecidableEq, Repr

/-- `expires_at IS NOT NULL AND expires_at <= jetzt`. -/
def Zeile.Abgelaufen (z : Zeile) (jetzt : ℚ) : Prop := ∃ d, z.expiresAt = some d ∧ d ≤ jetzt

/-- `expires_at IS NOT NULL AND expires_at > jetzt`. -/
def Zeile.Befristet (z : Zeile) (jetzt : ℚ) : Prop := ∃ d, z.expiresAt = some d ∧ jetzt < d

instance (z : Zeile) (jetzt : ℚ) : Decidable (z.Abgelaufen jetzt) :=
  match h : z.expiresAt with
  | none => .isFalse fun ⟨_, hd, _⟩ => by simp [h] at hd
  | some d => decidable_of_iff (d ≤ jetzt) (by simp [Zeile.Abgelaufen, h])

instance (z : Zeile) (jetzt : ℚ) : Decidable (z.Befristet jetzt) :=
  match h : z.expiresAt with
  | none => .isFalse fun ⟨_, hd, _⟩ => by simp [h] at hd
  | some d => decidable_of_iff (jetzt < d) (by simp [Zeile.Befristet, h])

theorem Zeile.Befristet.not_abgelaufen {z : Zeile} {jetzt t : ℚ} (h : z.Befristet jetzt)
    (ht : t ≤ jetzt) : ¬z.Abgelaufen t := by
  rintro ⟨d, hd, hle⟩
  obtain ⟨d', hd', hlt⟩ := h
  obtain rfl : d = d' := by simpa [hd] using hd'
  exact absurd (lt_of_lt_of_le hlt (le_trans hle ht)) (lt_irrefl jetzt)

/-- The two tables. -/
structure Sqlite where
  engineState : String → Option Zeile
  engineStateQueue : String → List String

namespace Sqlite

variable (s : Sqlite) (key : String)

/-- `INSERT ... ON CONFLICT(key) DO UPDATE`. -/
def schreibe (z : Zeile) : Sqlite :=
  { s with engineState := Function.update s.engineState key (some z) }

/-- `DELETE FROM engine_state`. -/
def loesche : Sqlite := { s with engineState := Function.update s.engineState key none }

@[simp] theorem schreibe_self (z : Zeile) : (s.schreibe key z).engineState key = some z := by
  simp [schreibe]

@[simp] theorem schreibe_of_ne {k : String} (z : Zeile) (h : k ≠ key) :
    (s.schreibe key z).engineState k = s.engineState k := by
  simp [schreibe, h]

@[simp] theorem loesche_self : (s.loesche key).engineState key = none := by
  simp [loesche]

@[simp] theorem loesche_of_ne {k : String} (h : k ≠ key) :
    (s.loesche key).engineState k = s.engineState k := by
  simp [loesche, h]

/-! ## Keys and values -/

/-- The value of a row that is not past its expiry. -/
def get (jetzt : ℚ) : Option String :=
  match s.engineState key with
  | none => none
  | some z => if z.Abgelaufen jetzt then none else some z.value

def frist (ttlSeconds : Option ℚ) (jetzt : ℚ) : Option ℚ := ttlSeconds.map (jetzt + ·)

def set (value : String) (ttlSeconds : Option ℚ) (jetzt : ℚ) : Sqlite :=
  s.schreibe key ⟨value, frist ttlSeconds jetzt⟩

def delete : Sqlite × Bool := (s.loesche key, (s.engineState key).isSome)

/-- What `increment` starts from: the counter of a row that is not past its
expiry.  A text that is no number is `none`. -/
def stand (R : Rechnung) (jetzt : ℚ) : Option R.F :=
  match s.get key jetzt with
  | none => some R.null
  | some value => R.float value

def increment (R : Rechnung) (amount : R.F) (ttlSeconds : Option ℚ) (jetzt : ℚ) :
    Sqlite × Ergebnis R.F :=
  match s.stand key R jetzt with
  | none => (s, .fehler)
  | some stand =>
      (s.schreibe key ⟨R.repr (R.add stand amount), frist ttlSeconds jetzt⟩,
        .zahl (R.add stand amount))

/-! ## Queues -/

def mitQueue (entries : List String) : Sqlite :=
  { s with engineStateQueue := Function.update s.engineStateQueue key entries }

/-- The entries that `ORDER BY seq DESC LIMIT maxLength` finds.  A negative limit
is none. -/
def juengste (entries : List String) (maxLength : Int) : List String :=
  if maxLength < 0 then entries else entries.drop (entries.length - maxLength.toNat)

def angehaengt (value : String) (maxLength : Option Int) : List String :=
  match maxLength with
  | none => s.engineStateQueue key ++ [value]
  | some m => juengste (s.engineStateQueue key ++ [value]) m

def append {F : Type} (value : String) (maxLength : Option Int) : Sqlite × Ergebnis F :=
  (s.mitQueue key (s.angehaengt key value maxLength),
    .laenge (s.angehaengt key value maxLength).length)

def read {F : Type} : Ergebnis F := .liste (s.engineStateQueue key)

def pop {F : Type} : Sqlite × Ergebnis F :=
  match s.engineStateQueue key with
  | [] => (s, .wert none)
  | value :: entries => (s.mitQueue key entries, .wert (some value))

/-! ## The lock -/

section Sperre

variable (token : String) (ttl jetzt : ℚ)

/-- `INSERT ... ON CONFLICT(key) DO UPDATE ... WHERE` the row is past its expiry. -/
def acquire : Sqlite × Bool :=
  match s.engineState key with
  | none => (s.schreibe key ⟨token, some (jetzt + ttl)⟩, true)
  | some z =>
      if z.Abgelaufen jetzt then (s.schreibe key ⟨token, some (jetzt + ttl)⟩, true)
      else (s, false)

/-- `UPDATE ... WHERE value = token` and the row has time left. -/
def renew : Sqlite × Bool :=
  match s.engineState key with
  | none => (s, false)
  | some z =>
      if z.value = token ∧ z.Befristet jetzt then
        (s.schreibe key { z with expiresAt := some (jetzt + ttl) }, true)
      else (s, false)

/-- `DELETE ... WHERE value = token`. -/
def release : Sqlite × Bool :=
  match s.engineState key with
  | none => (s, false)
  | some z => if z.value = token then (s.loesche key, true) else (s, false)

/-- `SELECT ... WHERE value = token` and the row has time left. -/
def held : Bool :=
  match s.engineState key with
  | none => false
  | some z => decide (z.value = token ∧ z.Befristet jetzt)

/-- `brechen`, by the holder of `token`. -/
def brechen (fremdesToken : String) : Sqlite × Bool :=
  if fremdesToken = "" ∨ fremdesToken = token then (s, false) else s.release key fremdesToken

end Sperre

/-! ## What the lock's statements write -/

section Wirkung

variable {s key} {token : String} {ttl jetzt : ℚ}

/-- The lock is held by a token: its row has time left. -/
theorem held_iff : s.held key token jetzt = true ↔
    ∃ z, s.engineState key = some z ∧ z.value = token ∧ z.Befristet jetzt := by
  cases hz : s.engineState key with
  | none => simp [held, hz]
  | some z => simp [held, hz]

/-- One row holds one token. -/
theorem held_unique {token' : String} {t : ℚ} (h : s.held key token jetzt = true)
    (h' : s.held key token' t = true) : token = token' := by
  obtain ⟨z, hz, hv, -⟩ := held_iff.mp h
  obtain ⟨z', hz', hv', -⟩ := held_iff.mp h'
  obtain rfl : z = z' := by simpa [hz] using hz'
  exact hv.symm.trans hv'

/-- No statement of the lock touches another row. -/
theorem acquire_of_ne {k : String} (h : k ≠ key) :
    (s.acquire key token ttl jetzt).1.engineState k = s.engineState k := by
  unfold acquire
  split
  next => exact schreibe_of_ne s key _ h
  next =>
    split
    next => exact schreibe_of_ne s key _ h
    next => rfl

theorem renew_of_ne {k : String} (h : k ≠ key) :
    (s.renew key token ttl jetzt).1.engineState k = s.engineState k := by
  unfold renew
  split
  next => rfl
  next =>
    split
    next => exact schreibe_of_ne s key _ h
    next => rfl

theorem release_of_ne {k : String} (h : k ≠ key) :
    (s.release key token).1.engineState k = s.engineState k := by
  unfold release
  split
  next => rfl
  next =>
    split
    next => exact loesche_of_ne s key h
    next => rfl

theorem brechen_of_ne {k fremdes : String} (h : k ≠ key) :
    (s.brechen key token fremdes).1.engineState k = s.engineState k := by
  unfold brechen
  split
  next => rfl
  next => exact release_of_ne h

/-- An acquisition that read the clock no later than now leaves a row with time
left alone. -/
theorem acquire_of_befristet {z : Zeile} {t : ℚ} (hz : s.engineState key = some z)
    (hb : z.Befristet jetzt) (ht : t ≤ jetzt) : (s.acquire key token ttl t).1 = s := by
  simp [acquire, hz, hb.not_abgelaufen ht]

/-- A renewal leaves the row of another token alone. -/
theorem renew_of_value_ne {z : Zeile} (hz : s.engineState key = some z) (hv : z.value ≠ token) :
    (s.renew key token ttl jetzt).1 = s := by
  simp [renew, hz, hv]

/-- A release leaves the row of another token alone. -/
theorem release_of_value_ne {z : Zeile} (hz : s.engineState key = some z) (hv : z.value ≠ token) :
    (s.release key token).1 = s := by
  simp [release, hz, hv]

/-- So does a break. -/
theorem brechen_of_value_ne {z : Zeile} {fremdes : String} (hz : s.engineState key = some z)
    (hv : z.value ≠ fremdes) : (s.brechen key token fremdes).1 = s := by
  unfold brechen
  split
  next => rfl
  next => exact release_of_value_ne hz hv

end Wirkung

/-! ## The adapter -/

def fuehreAus (R : Rechnung) (jetzt : ℚ) : Operation R.F → Sqlite × Ergebnis R.F
  | .get key => (s, .wert (s.get key jetzt))
  | .set key value ttl => (s.set key value ttl jetzt, .nichts)
  | .delete key => ((s.delete key).1, .wahr (s.delete key).2)
  | .increment key amount ttl => s.increment key R amount ttl jetzt
  | .append key value maxLength => s.append key value maxLength
  | .read key => (s, s.read key)
  | .pop key => s.pop key
  | .acquire name token ttl =>
      ((s.acquire (lockKey name) token ttl jetzt).1,
        .wahr (s.acquire (lockKey name) token ttl jetzt).2)
  | .renew name token ttl =>
      ((s.renew (lockKey name) token ttl jetzt).1,
        .wahr (s.renew (lockKey name) token ttl jetzt).2)
  | .release name token =>
      ((s.release (lockKey name) token).1, .wahr (s.release (lockKey name) token).2)
  | .held name token => (s, .wahr (s.held (lockKey name) token jetzt))
  | .brechen name token fremdes =>
      ((s.brechen (lockKey name) token fremdes).1,
        .wahr (s.brechen (lockKey name) token fremdes).2)

end Sqlite

end State
