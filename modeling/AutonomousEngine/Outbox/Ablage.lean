import Mathlib.Data.List.Nodup

/-!
# The outbox: entries, store and operations

The outbox records an order intent before the broker sees it, so that a restart
finds it again.  An entry is stored under its client order id, and the ids
stand in a directory, oldest first.  Two things are kept apart here.

`Roh` is a stored text as `json.loads` sees it: an object with some of the
fields of an entry, or no object at all.  A field that is present has the type
the entry declares.  `OutboxEintrag.alsJson` and `OutboxEintrag.ausJson` are
the two directions, and `ausJson_alsJson` is the round trip.

`Ablage` is the part of the state port the outbox uses: the texts by key and
the directory list, with the six port operations.  The prefix
`outbox:intent:` is left out of the keys, since every key has it.

The operations `festschreiben`, `schreibeFort` and `aufraeumen` are given here
as they run when nobody interferes.  Their first argument says whether the lock
around the section was obtained.
-/

namespace Outbox

/-! ## Entries -/

/-- The states of an intent.  A stored text may carry a word this version does
not know. -/
inductive Zustand where
  | offen
  | abgesendet
  | bestaetigt
  | verworfen
  | unbekannt (wort : String)
deriving DecidableEq, Repr

/-- The rank of a state.  Both final states have the same rank, and an unknown
word has rank 0. -/
def Zustand.rang : Zustand → Nat
  | .offen => 0
  | .abgesendet => 1
  | .bestaetigt => 2
  | .verworfen => 2
  | .unbekannt _ => 0

def Zustand.erledigt : Zustand → Bool
  | .bestaetigt | .verworfen => true
  | _ => false

/-- A recorded order intent. -/
structure OutboxEintrag where
  decisionId : String
  leg : String
  clientOrderId : String
  symbol : String
  side : String
  qty : Rat
  userId : String := ""
  zustand : Zustand := .offen
  brokerOrderId : String := ""
  grund : String := ""
deriving DecidableEq

/-- A buy intent under the key `k`. -/
def kaufIntent : OutboxEintrag :=
  { decisionId := "d", leg := "entry", clientOrderId := "k", symbol := "AAPL", side := "buy"
    qty := 3 }

/-- The fields a stored object has. -/
structure Felder where
  decisionId : Option String := none
  leg : Option String := none
  clientOrderId : Option String := none
  symbol : Option String := none
  side : Option String := none
  qty : Option Rat := none
  userId : Option String := none
  zustand : Option Zustand := none
  brokerOrderId : Option String := none
  grund : Option String := none
deriving DecidableEq

/-- A stored text as `json.loads` sees it. -/
inductive Roh where
  | objekt (f : Felder)
  | unlesbar (text : String)
deriving DecidableEq

/-- The stored text of an entry, with every field. -/
def OutboxEintrag.alsJson (e : OutboxEintrag) : Roh :=
  .objekt
    { decisionId := some e.decisionId
      leg := some e.leg
      clientOrderId := some e.clientOrderId
      symbol := some e.symbol
      side := some e.side
      qty := some e.qty
      userId := some e.userId
      zustand := some e.zustand
      brokerOrderId := some e.brokerOrderId
      grund := some e.grund }

/-- The entry of a stored text.  The six fields without a default must be
present. -/
def OutboxEintrag.ausJson : Roh → Option OutboxEintrag
  | .unlesbar _ => none
  | .objekt f => do
      let decisionId ← f.decisionId
      let leg ← f.leg
      let clientOrderId ← f.clientOrderId
      let symbol ← f.symbol
      let side ← f.side
      let qty ← f.qty
      return { decisionId, leg, clientOrderId, symbol, side, qty
               userId := f.userId.getD ""
               zustand := f.zustand.getD .offen
               brokerOrderId := f.brokerOrderId.getD ""
               grund := f.grund.getD "" }

@[simp] theorem ausJson_alsJson (e : OutboxEintrag) :
    OutboxEintrag.ausJson e.alsJson = some e := rfl

/-- The three reports that move an entry forward, with the field each sets. -/
inductive Meldung where
  | abgesendet
  | bestaetigt (brokerOrderId : String)
  | verworfen (grund : String)
deriving DecidableEq, Repr

def Meldung.ziel : Meldung → Zustand
  | .abgesendet => .abgesendet
  | .bestaetigt _ => .bestaetigt
  | .verworfen _ => .verworfen

/-- The entry with the state and the field of a report replaced. -/
def Meldung.auf (m : Meldung) (e : OutboxEintrag) : OutboxEintrag :=
  match m with
  | .abgesendet => { e with zustand := .abgesendet }
  | .bestaetigt b => { e with zustand := .bestaetigt, brokerOrderId := b }
  | .verworfen g => { e with zustand := .verworfen, grund := g }

@[simp] theorem Meldung.auf_zustand (m : Meldung) (e : OutboxEintrag) :
    (m.auf e).zustand = m.ziel := by
  cases m <;> rfl

@[simp] theorem Meldung.auf_clientOrderId (m : Meldung) (e : OutboxEintrag) :
    (m.auf e).clientOrderId = e.clientOrderId := by
  cases m <;> rfl

/-- Nothing ranks above a final state. -/
theorem Zustand.rang_le_of_erledigt {z : Zustand} (h : z.erledigt = true) (m : Meldung) :
    m.ziel.rang ≤ z.rang := by
  cases z <;> cases m <;> simp_all [Zustand.erledigt, Meldung.ziel, Zustand.rang]

/-! ## The store -/

/-- The texts by client order id and the directory. -/
structure Ablage where
  intents : String → Option Roh
  verzeichnis : List String

namespace Ablage

def leer : Ablage := ⟨fun _ => none, []⟩

def get (a : Ablage) (coid : String) : Option Roh := a.intents coid

def set (a : Ablage) (coid : String) (roh : Roh) : Ablage :=
  { a with intents := Function.update a.intents coid (some roh) }

def delete (a : Ablage) (coid : String) : Ablage :=
  { a with intents := Function.update a.intents coid none }

def read (a : Ablage) : List String := a.verzeichnis

def append (a : Ablage) (coid : String) : Ablage :=
  { a with verzeichnis := a.verzeichnis ++ [coid] }

def pop (a : Ablage) : Ablage := { a with verzeichnis := a.verzeichnis.tail }

/-- The entry of a key, if there is a readable one. -/
def lese (a : Ablage) (coid : String) : Option OutboxEintrag :=
  (a.get coid).bind OutboxEintrag.ausJson

/-- Every readable entry is stored under its own key. -/
def Schluesseltreu (a : Ablage) : Prop :=
  ∀ coid e, a.lese coid = some e → e.clientOrderId = coid

/-- The entries whose order is not confirmed yet, oldest first. -/
def unbestaetigte (a : Ablage) (symbol : Option String) : List OutboxEintrag :=
  a.read.filterMap fun coid =>
    match a.lese coid with
    | none => none
    | some e =>
        if e.zustand.erledigt then none
        else if symbol.any fun s => e.symbol != s then none
        else some e

section Lemmas

variable (a : Ablage) (coid : String) (roh : Roh)

@[simp] theorem get_set_self : (a.set coid roh).get coid = some roh := by
  simp [get, set]

theorem get_set_of_ne {c : String} (h : c ≠ coid) : (a.set coid roh).get c = a.get c := by
  simp [get, set, Function.update_of_ne h]

@[simp] theorem get_delete_self : (a.delete coid).get coid = none := by
  simp [get, delete]

theorem get_delete_of_ne {c : String} (h : c ≠ coid) : (a.delete coid).get c = a.get c := by
  simp [get, delete, Function.update_of_ne h]

@[simp] theorem get_append (c : String) : (a.append coid).get c = a.get c := rfl

@[simp] theorem read_set : (a.set coid roh).read = a.read := rfl

@[simp] theorem read_append : (a.append coid).read = a.read ++ [coid] := rfl

@[simp] theorem read_pop : a.pop.read = a.read.tail := rfl

@[simp] theorem lese_set_self (e : OutboxEintrag) :
    (a.set coid e.alsJson).lese coid = some e := by
  simp [lese]

theorem lese_set_of_ne {c : String} (h : c ≠ coid) : (a.set coid roh).lese c = a.lese c := by
  simp [lese, get_set_of_ne a coid roh h]

@[simp] theorem lese_delete_self : (a.delete coid).lese coid = none := by
  simp [lese]

theorem lese_delete_of_ne {c : String} (h : c ≠ coid) : (a.delete coid).lese c = a.lese c := by
  simp [lese, get_delete_of_ne a coid h]

@[simp] theorem lese_append (c : String) : (a.append coid).lese c = a.lese c := rfl

/-- An entry is unconfirmed exactly when the directory names it and it is not
final. -/
theorem mem_unbestaetigte {e : OutboxEintrag} :
    e ∈ a.unbestaetigte none ↔
      ∃ c ∈ a.read, a.lese c = some e ∧ e.zustand.erledigt = false := by
  simp only [unbestaetigte, List.mem_filterMap]
  constructor
  · rintro ⟨c, hc, h⟩
    split at h
    next => cases h
    next e' he' =>
      split at h
      next => cases h
      next hz => cases h; exact ⟨c, hc, he', by simpa using hz⟩
  · rintro ⟨c, hc, he, hz⟩
    exact ⟨c, hc, by simp [he, hz]⟩

end Lemmas

/-! ## The operations without interference -/

/-- Records an intent.  The result says whether it is in the store afterwards. -/
def festschreiben (gesperrt : Bool) (a : Ablage) (e : OutboxEintrag) : Bool × Ablage :=
  if !gesperrt then (false, a)
  else if (a.get e.clientOrderId).isSome then (true, a)
  else
    (true, (a.set e.clientOrderId { e with zustand := .offen : OutboxEintrag }.alsJson).append
      e.clientOrderId)

/-- Moves an entry forward.  The result says whether it now is in the state of
the report. -/
def schreibeFort (gesperrt : Bool) (a : Ablage) (coid : String) (m : Meldung) : Bool × Ablage :=
  if !gesperrt then (false, a)
  else
    match a.lese coid with
    | none => (false, a)
    | some e =>
        if m.ziel.rang ≤ e.zustand.rang then (decide (e.zustand = m.ziel), a)
        else (true, a.set coid (m.auf e).alsJson)

/-- A report changes nothing, or it is written over an entry of lower rank. -/
theorem schreibeFort_cases (gesperrt : Bool) (a : Ablage) (coid : String) (m : Meldung) :
    (schreibeFort gesperrt a coid m).2 = a ∨
      ∃ e, a.lese coid = some e ∧ e.zustand.rang < m.ziel.rang ∧
        (schreibeFort gesperrt a coid m).2 = a.set coid (m.auf e).alsJson := by
  cases gesperrt with
  | false => exact .inl rfl
  | true =>
      simp only [schreibeFort, Bool.not_true, Bool.false_eq_true, if_false]
      cases he : a.lese coid with
      | none => exact .inl rfl
      | some e =>
          by_cases hr : m.ziel.rang ≤ e.zustand.rang
          · exact .inl (by simp [hr])
          · exact .inr ⟨e, rfl, Nat.lt_of_not_le hr, by simp [hr]⟩

/-- A report touches its own key only. -/
theorem get_schreibeFort_of_ne {a : Ablage} {c coid : String} (h : c ≠ coid) (g : Bool)
    (m : Meldung) : (a.schreibeFort g coid m).2.get c = a.get c := by
  rcases schreibeFort_cases g a coid m with hs | ⟨e, _, _, hs⟩
  · rw [hs]
  · rw [hs, get_set_of_ne a coid _ h]

@[simp] theorem read_schreibeFort (a : Ablage) (coid : String) (g : Bool) (m : Meldung) :
    (a.schreibeFort g coid m).2.read = a.read := by
  rcases schreibeFort_cases g a coid m with hs | ⟨e, _, _, hs⟩
  · rw [hs]
  · rw [hs, read_set]

/-- A final report under its lock. -/
theorem schreibeFort_final {a : Ablage} {coid : String} {e : OutboxEintrag} {m : Meldung}
    (he : a.lese coid = some e) (hz : e.zustand.erledigt = false) (hm : m.ziel.erledigt = true) :
    (a.schreibeFort true coid m).2 = a.set coid (m.auf e).alsJson := by
  have hr : ¬ m.ziel.rang ≤ e.zustand.rang := by
    cases m <;> cases hs : e.zustand <;> simp_all [Zustand.erledigt, Zustand.rang, Meldung.ziel]
  simp [Ablage.schreibeFort, he, hr]

def alsAbgesendet (gesperrt : Bool) (a : Ablage) (coid : String) : Bool × Ablage :=
  schreibeFort gesperrt a coid .abgesendet

def alsBestaetigt (gesperrt : Bool) (a : Ablage) (coid brokerOrderId : String) : Bool × Ablage :=
  schreibeFort gesperrt a coid (.bestaetigt brokerOrderId)

def alsVerworfen (gesperrt : Bool) (a : Ablage) (coid grund : String) : Bool × Ablage :=
  schreibeFort gesperrt a coid (.verworfen grund)

/-- Whether a directory line may be cleaned up: its text is gone, or it is a
readable entry in a final state. -/
def raeumbar (a : Ablage) (coid : String) : Bool :=
  match a.get coid with
  | none => true
  | some roh =>
      match OutboxEintrag.ausJson roh with
      | none => false
      | some e => e.zustand.erledigt

/-- The loop of the clean-up over the lines read at its start. -/
def raeumeKopf : List String → Ablage → Nat → Nat × Ablage
  | [], a, n => (n, a)
  | coid :: rest, a, n =>
      if a.raeumbar coid then raeumeKopf rest (a.pop.delete coid) (n + 1) else (n, a)
termination_by structural lines => lines

/-- Removes finished entries from the head of the directory. -/
def aufraeumen (gesperrt : Bool) (a : Ablage) : Nat × Ablage :=
  if gesperrt then raeumeKopf a.read a 0 else (0, a)

end Ablage

end Outbox
