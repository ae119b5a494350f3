import AutonomousEngine.Basis.Transition
import AutonomousEngine.Ergebnisse.Tabellen

/-!
# The worker, the producers and a flush

The engine's threads put decisions and outcomes into two queues.  The worker
thread of `CloudLogger` empties both in every cycle
(`drain_decisions_and_outcomes`), the outcomes first.  `flush` empties them from
the thread that shuts the engine down, while the worker still runs.

A step is one operation on a queue, one transaction, one query, one write to the
fallback file or one access to the list of the deferred outcomes.  So the runs of
`protokoll` are the interleavings of the producers, the worker and a flush.  What
the database answers (`Ausgang`) and how much of a fallback write reaches the file
is open in every step, and decisions may be stored by somebody else.
-/

namespace Ergebnisse

open Basis

/-- How a transaction or a query ends. -/
inductive Ausgang where
  | ok
  /-- It fails. -/
  | fehler
  /-- It is committed, and the answer is lost. -/
  | unbestaetigt
deriving DecidableEq, Repr

/-- What became of the rows that were put into a queue. -/
structure Verbleib (ι : Type) where
  /-- All rows ever put. -/
  eingereiht : List ι
  /-- The rows of the batches that were sent. -/
  gesendet : List ι
  /-- The rows in the fallback files. -/
  ersatz : List ι
  /-- The rows of fallback writes that failed. -/
  verloren : List ι
deriving DecidableEq, Repr

namespace Verbleib

variable {ι : Type} (v : Verbleib ι)

def reihtEin (i : ι) : Verbleib ι := { v with eingereiht := v.eingereiht ++ [i] }

def sendet (items : List ι) : Verbleib ι := { v with gesendet := v.gesendet ++ items }

/-- `_write_fallback`, of which the first `k` rows reach the file. -/
def writeFallback (k : Nat) (items : List ι) : Verbleib ι :=
  { v with ersatz := v.ersatz ++ items.take k, verloren := v.verloren ++ items.drop k }

@[simp] theorem eingereiht_sendet (items : List ι) : (v.sendet items).eingereiht = v.eingereiht :=
  rfl

@[simp] theorem eingereiht_writeFallback (k : Nat) (items : List ι) :
    (v.writeFallback k items).eingereiht = v.eingereiht := rfl

end Verbleib

/-! ## The threads -/

/-- Where the worker is in `drain_decisions_and_outcomes`. -/
inductive Punkt where
  /-- The other queues and the sleep between two cycles. -/
  | pause
  | leereErgebnisse (items : List Outcome)
  | leereEntscheidungen (ergebnisse : List Outcome) (items : List Entscheidung)
  | sendeEntscheidungen (ergebnisse : List Outcome) (items : List Entscheidung)
  /-- `offen = zurueck + [[item, 0] for item in ergebnisse]`. -/
  | verbinde (ergebnisse : List Outcome)
  /-- `zurueck.clear()`. -/
  | raeume (zurueck : List Eintrag) (ergebnisse : List Outcome)
  /-- The `SELECT` of `teile_nach_eltern`. -/
  | pruefe (offen : List Eintrag)
  /-- The loop of `teile_nach_eltern`. -/
  | teile (da : List String) (offen : List Eintrag) (bereit verwaist : List Outcome)
  | ersetze (bereit verwaist : List Outcome)
  | sende (bereit : List Outcome)
deriving DecidableEq, Repr

/-- Where `flush` is. -/
inductive FlushPunkt where
  | leereEntscheidungen (items : List Entscheidung)
  | sendeEntscheidungen (items : List Entscheidung)
  /-- `items = [e[0] for e in _deferred_outcomes]`. -/
  | kopiere
  /-- `_deferred_outcomes.clear()`. -/
  | raeume (items : List Outcome)
  | leereErgebnisse (items : List Outcome)
  | sende (items : List Outcome)
deriving DecidableEq, Repr

/-- The logger and its database. -/
structure Stand where
  decisionQueue : List Entscheidung
  decisionOutcomeQueue : List Outcome
  deferredOutcomes : List Eintrag
  worker : Punkt
  flush : Option FlushPunkt
  db : Datenbank
  decisions : Verbleib Entscheidung
  outcomes : Verbleib Outcome
deriving DecidableEq, Repr

/-- The outcomes the worker has taken and not passed on. -/
@[simp] def Punkt.hand : Punkt → List Outcome
  | .pause => []
  | .leereErgebnisse items => items
  | .leereEntscheidungen ergebnisse _ => ergebnisse
  | .sendeEntscheidungen ergebnisse _ => ergebnisse
  | .verbinde ergebnisse => ergebnisse
  | .raeume _ ergebnisse => ergebnisse
  | .pruefe offen => offen.map Prod.fst
  | .teile _ offen bereit verwaist => offen.map Prod.fst ++ bereit ++ verwaist
  | .ersetze bereit verwaist => bereit ++ verwaist
  | .sende bereit => bereit

/-- The decisions the worker has taken and not passed on. -/
@[simp] def Punkt.handEntscheidungen : Punkt → List Entscheidung
  | .leereEntscheidungen _ items => items
  | .sendeEntscheidungen _ items => items
  | _ => []

@[simp] def FlushPunkt.hand : FlushPunkt → List Outcome
  | .leereErgebnisse items => items
  | .sende items => items
  | _ => []

@[simp] def FlushPunkt.handEntscheidungen : FlushPunkt → List Entscheidung
  | .leereEntscheidungen items => items
  | .sendeEntscheidungen items => items
  | _ => []

/-- The outcomes in the hands of a flush, if there is one. -/
@[simp] def flushHand : Option FlushPunkt → List Outcome
  | none => []
  | some p => p.hand

@[simp] def flushHandEntscheidungen : Option FlushPunkt → List Entscheidung
  | none => []
  | some p => p.handEntscheidungen

/-! ## Sending -/

section

variable {ι : Type}

/-- `_send_batch`: the database and the fate of the rows, when the transaction
would lead to `ziel`. -/
def sendBatch (ausgang : Ausgang) (k : Nat) (ziel : Option Datenbank) (db : Datenbank)
    (v : Verbleib ι) (items : List ι) : Datenbank × Verbleib ι :=
  match ausgang, ziel with
  | .ok, some db' => (db', v.sendet items)
  | .unbestaetigt, some db' => (db', v.writeFallback k items)
  | _, _ => (db, v.writeFallback k items)

/-- A batch is sent, or it goes to the fallback file. -/
theorem sendBatch_cases (ausgang : Ausgang) (k : Nat) (ziel : Option Datenbank) (db : Datenbank)
    (v : Verbleib ι) (items : List ι) :
    (∃ db', ziel = some db' ∧ sendBatch ausgang k ziel db v items = (db', v.sendet items)) ∨
      ((sendBatch ausgang k ziel db v items).1 = db ∨
        ziel = some (sendBatch ausgang k ziel db v items).1) ∧
      (sendBatch ausgang k ziel db v items).2 = v.writeFallback k items := by
  cases ausgang with
  | ok =>
      cases ziel with
      | none => exact .inr ⟨.inl rfl, rfl⟩
      | some db' => exact .inl ⟨db', rfl, rfl⟩
  | fehler => exact .inr ⟨.inl rfl, rfl⟩
  | unbestaetigt =>
      cases ziel with
      | none => exact .inr ⟨.inl rfl, rfl⟩
      | some db' => exact .inr ⟨.inr rfl, rfl⟩

/-- The database after a batch is the one before it or the one of the transaction. -/
theorem sendBatch_db (ausgang : Ausgang) (k : Nat) (ziel : Option Datenbank) (db : Datenbank)
    (v : Verbleib ι) (items : List ι) :
    (sendBatch ausgang k ziel db v items).1 = db ∨
      ziel = some (sendBatch ausgang k ziel db v items).1 := by
  rcases sendBatch_cases ausgang k ziel db v items with ⟨db', hziel, heq⟩ | ⟨h, -⟩
  · exact .inr (by rw [heq, hziel])
  · exact h

@[simp] theorem sendBatch_eingereiht (ausgang : Ausgang) (k : Nat) (ziel : Option Datenbank)
    (db : Datenbank) (v : Verbleib ι) (items : List ι) :
    (sendBatch ausgang k ziel db v items).2.eingereiht = v.eingereiht := by
  rcases sendBatch_cases ausgang k ziel db v items with ⟨db', -, heq⟩ | ⟨-, heq⟩
  · rw [heq, Verbleib.eingereiht_sendet]
  · rw [heq, Verbleib.eingereiht_writeFallback]

end

/-- `_send_batch("decisions", items)`. -/
def Stand.sendDecisions (dialekt : Dialekt) (ausgang : Ausgang) (k : Nat)
    (items : List Entscheidung) (s : Stand) : Stand :=
  let r := sendBatch ausgang k (sendeEntscheidungen dialekt s.db items) s.db s.decisions items
  { s with db := r.1, decisions := r.2 }

/-- `_send_batch("decision_outcomes", items)`. -/
def Stand.sendOutcomes (dialekt : Dialekt) (ausgang : Ausgang) (k : Nat) (items : List Outcome)
    (s : Stand) : Stand :=
  let r := sendBatch ausgang k (sendeErgebnisse dialekt s.db items) s.db s.outcomes items
  { s with db := r.1, outcomes := r.2 }

/-! ## The steps -/

/-- What follows on the entries that are open. -/
def nachRaeumen (offen : List Eintrag) : Punkt := if offen = [] then .pause else .pruefe offen

/-- What follows on the query: without an answer everything is sent. -/
def nachPruefen (ausgang : Ausgang) (db : Datenbank) (offen : List Eintrag) : Punkt :=
  match ausgang with
  | .ok => .teile (vorhanden db offen) offen [] []
  | _ => .ersetze (offen.map Prod.fst) []

theorem handEntscheidungen_nachRaeumen (offen : List Eintrag) :
    (nachRaeumen offen).handEntscheidungen = [] := by
  rw [nachRaeumen]
  split <;> rfl

theorem handEntscheidungen_nachPruefen (ausgang : Ausgang) (db : Datenbank)
    (offen : List Eintrag) : (nachPruefen ausgang db offen).handEntscheidungen = [] := by
  cases ausgang <;> rfl

/-- One entry of the loop of `teile_nach_eltern`. -/
def Stand.teileEinen (s : Stand) (da : List String) (e : Eintrag) (offen : List Eintrag)
    (bereit verwaist : List Outcome) : Stand :=
  match sortiere da e with
  | .bereit => { s with worker := .teile da offen (bereit ++ [e.1]) verwaist }
  | .verwaist => { s with worker := .teile da offen bereit (verwaist ++ [e.1]) }
  | .zurueck =>
      { s with
        deferredOutcomes := s.deferredOutcomes ++ [(e.1, e.2 + 1)]
        worker := .teile da offen bereit verwaist }

def arbeiterSchritt (dialekt : Dialekt) (ausgang : Ausgang) (k : Nat) (s : Stand) : Stand :=
  match s.worker with
  | .pause => { s with worker := .leereErgebnisse [] }
  | .leereErgebnisse items =>
      match s.decisionOutcomeQueue with
      | o :: rest =>
          { s with decisionOutcomeQueue := rest, worker := .leereErgebnisse (items ++ [o]) }
      | [] => { s with worker := .leereEntscheidungen items [] }
  | .leereEntscheidungen ergebnisse items =>
      match s.decisionQueue with
      | d :: rest =>
          { s with decisionQueue := rest, worker := .leereEntscheidungen ergebnisse (items ++ [d]) }
      | [] => { s with worker := .sendeEntscheidungen ergebnisse items }
  | .sendeEntscheidungen ergebnisse items =>
      { s.sendDecisions dialekt ausgang k items with worker := .verbinde ergebnisse }
  | .verbinde ergebnisse => { s with worker := .raeume s.deferredOutcomes ergebnisse }
  | .raeume zurueck ergebnisse =>
      { s with
        deferredOutcomes := []
        worker := nachRaeumen (zurueck ++ ergebnisse.map fun item => (item, 0)) }
  | .pruefe offen => { s with worker := nachPruefen ausgang s.db offen }
  | .teile da (e :: offen) bereit verwaist => s.teileEinen da e offen bereit verwaist
  | .teile _ [] bereit verwaist => { s with worker := .ersetze bereit verwaist }
  | .ersetze bereit verwaist =>
      { s with outcomes := s.outcomes.writeFallback k verwaist, worker := .sende bereit }
  | .sende bereit => { s.sendOutcomes dialekt ausgang k bereit with worker := .pause }

def flushSchritt (dialekt : Dialekt) (ausgang : Ausgang) (k : Nat) (s : Stand) (p : FlushPunkt) :
    Stand :=
  match p with
  | .leereEntscheidungen items =>
      match s.decisionQueue with
      | d :: rest =>
          { s with decisionQueue := rest, flush := some (.leereEntscheidungen (items ++ [d])) }
      | [] => { s with flush := some (.sendeEntscheidungen items) }
  | .sendeEntscheidungen items =>
      { s.sendDecisions dialekt ausgang k items with flush := some .kopiere }
  | .kopiere => { s with flush := some (.raeume (s.deferredOutcomes.map Prod.fst)) }
  | .raeume items => { s with deferredOutcomes := [], flush := some (.leereErgebnisse items) }
  | .leereErgebnisse items =>
      match s.decisionOutcomeQueue with
      | o :: rest =>
          { s with decisionOutcomeQueue := rest, flush := some (.leereErgebnisse (items ++ [o])) }
      | [] => { s with flush := some (.sende items) }
  | .sende items => { s.sendOutcomes dialekt ausgang k items with flush := none }

/-- Who does what. -/
inductive Akt where
  /-- `log_decision`. -/
  | logDecision (d : Entscheidung)
  /-- `log_decision_outcome`. -/
  | logDecisionOutcome (o : Outcome)
  /-- Somebody else stores a decision. -/
  | nachtrag (d : Entscheidung)
  | arbeiter (ausgang : Ausgang) (k : Nat)
  | flushBeginn
  | flush (ausgang : Ausgang) (k : Nat)
deriving DecidableEq, Repr

/-- One step of anybody. -/
inductive Schritt (dialekt : Dialekt) : Stand → Akt → Stand → Prop where
  | logDecision {s d} : Schritt dialekt s (.logDecision d)
      { s with decisionQueue := s.decisionQueue ++ [d], decisions := s.decisions.reihtEin d }
  | logDecisionOutcome {s o} : Schritt dialekt s (.logDecisionOutcome o)
      { s with
        decisionOutcomeQueue := s.decisionOutcomeQueue ++ [o]
        outcomes := s.outcomes.reihtEin o }
  | nachtrag {s d} : Schritt dialekt s (.nachtrag d)
      { s with db := { s.db with decisions := s.db.decisions ++ [d] } }
  | arbeiter {s ausgang k} : Schritt dialekt s (.arbeiter ausgang k)
      (arbeiterSchritt dialekt ausgang k s)
  | flushBeginn {s} : s.flush = none → Schritt dialekt s .flushBeginn
      { s with flush := some (.leereEntscheidungen []) }
  | flush {s p ausgang k} : s.flush = some p → Schritt dialekt s (.flush ausgang k)
      (flushSchritt dialekt ausgang k s p)

/-- The state behind an act, when it can be done. -/
def Stand.tue (dialekt : Dialekt) (s : Stand) : Akt → Option Stand
  | .logDecision d => some
      { s with decisionQueue := s.decisionQueue ++ [d], decisions := s.decisions.reihtEin d }
  | .logDecisionOutcome o => some
      { s with
        decisionOutcomeQueue := s.decisionOutcomeQueue ++ [o]
        outcomes := s.outcomes.reihtEin o }
  | .nachtrag d => some { s with db := { s.db with decisions := s.db.decisions ++ [d] } }
  | .arbeiter ausgang k => some (arbeiterSchritt dialekt ausgang k s)
  | .flushBeginn =>
      if s.flush = none then some { s with flush := some (.leereEntscheidungen []) } else none
  | .flush ausgang k => s.flush.map (flushSchritt dialekt ausgang k s)

theorem schritt_iff {dialekt : Dialekt} {s s' : Stand} {a : Akt} :
    Schritt dialekt s a s' ↔ s.tue dialekt a = some s' := by
  constructor
  · rintro (_ | _ | _ | _ | hf | hp)
    · rfl
    · rfl
    · rfl
    · rfl
    · rw [Stand.tue, if_pos hf]
    · rw [Stand.tue, hp, Option.map_some]
  · intro h
    cases a with
    | logDecision d =>
        obtain rfl := Option.some.inj h
        exact .logDecision
    | logDecisionOutcome o =>
        obtain rfl := Option.some.inj h
        exact .logDecisionOutcome
    | nachtrag d =>
        obtain rfl := Option.some.inj h
        exact .nachtrag
    | arbeiter ausgang k =>
        obtain rfl := Option.some.inj h
        exact .arbeiter
    | flushBeginn =>
        rw [Stand.tue] at h
        split at h
        next hf =>
          obtain rfl := Option.some.inj h
          exact .flushBeginn hf
        next => cases h
    | flush ausgang k =>
        obtain ⟨p, hp, rfl⟩ := Option.map_eq_some_iff.mp h
        exact .flush hp

/-- A logger that has just started, over the tables of earlier days. -/
structure Anfang (s : Stand) : Prop where
  decisionQueue : s.decisionQueue = []
  decisionOutcomeQueue : s.decisionOutcomeQueue = []
  deferredOutcomes : s.deferredOutcomes = []
  worker : s.worker = .pause
  flush : s.flush = none
  db : s.db.Stimmig
  decisions : s.decisions = ⟨[], [], [], []⟩
  outcomes : s.outcomes = ⟨[], [], [], []⟩

def leer : Stand :=
  ⟨[], [], [], .pause, none, ⟨[], []⟩, ⟨[], [], [], []⟩, ⟨[], [], [], []⟩⟩

theorem anfang_leer : Anfang leer := ⟨rfl, rfl, rfl, rfl, rfl, nofun, rfl, rfl⟩

/-- The interleavings of the producers, the worker and a flush. -/
def protokoll (dialekt : Dialekt) : System Stand Akt where
  start := Anfang
  step := Schritt dialekt

end Ergebnisse
