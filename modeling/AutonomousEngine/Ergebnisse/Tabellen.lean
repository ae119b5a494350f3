import Mathlib.Data.List.Basic

/-!
# Decisions, their outcomes and one batch of them

`CloudLogger` stores the rows of `decisions` and of `decision_outcomes`.  An
outcome has a foreign key to its decision.  `_send_batch` inserts a batch in one
transaction, with `INSERT .. ON CONFLICT DO NOTHING`: a row whose key is there
already is skipped, and a row that is refused fails the batch.  A row without a
value the table asks for is refused by PostgreSQL and skipped by SQLite
(`INSERT OR IGNORE`).

`teile_nach_eltern` looks up which decisions are there and sorts the outcomes
that are open into those that can be sent, those that wait and those that have
waited too long (`sortiere`).
-/

namespace Ergebnisse

/-- The database the rows go to. -/
inductive Dialekt where
  | sqlite
  | postgresql
deriving DecidableEq, Repr

/-- A row of `decisions`. -/
structure Entscheidung where
  decisionId : String
  /-- The other columns that are `nullable=False` have a value. -/
  vollstaendig : Bool
  inhalt : String
deriving DecidableEq, Repr

/-- A row of `decision_outcomes`. -/
structure Outcome where
  /-- `item.get("decision_id")`. -/
  decisionId : Option String
  /-- The other columns that are `nullable=False` have a value. -/
  vollstaendig : Bool
  inhalt : String
deriving DecidableEq, Repr

/-- `str(item.get("decision_id"))`. -/
def Outcome.kennung (o : Outcome) : String := o.decisionId.getD "None"

/-- The two tables. -/
structure Datenbank where
  decisions : List Entscheidung
  outcomes : List Outcome
deriving DecidableEq, Repr

def Datenbank.Kennt (db : Datenbank) (id : String) : Prop := ∃ d ∈ db.decisions, d.decisionId = id

instance (db : Datenbank) (id : String) : Decidable (db.Kennt id) :=
  inferInstanceAs (Decidable (∃ d ∈ db.decisions, d.decisionId = id))

def Datenbank.HatErgebnis (db : Datenbank) (id : String) : Prop :=
  ∃ o ∈ db.outcomes, o.decisionId = some id

instance (db : Datenbank) (id : String) : Decidable (db.HatErgebnis id) :=
  inferInstanceAs (Decidable (∃ o ∈ db.outcomes, o.decisionId = some id))

/-! ## One batch -/

/-- A row that lacks a value, by `_dialect_insert_ignore`. -/
def unvollstaendig (dialekt : Dialekt) (db : Datenbank) : Option Datenbank :=
  match dialekt with
  | .sqlite => some db
  | .postgresql => none

/-- One insert into `decisions`. -/
def fuegeEntscheidungEin (dialekt : Dialekt) (db : Datenbank) (d : Entscheidung) :
    Option Datenbank :=
  if d.vollstaendig = false then unvollstaendig dialekt db
  else if db.Kennt d.decisionId then some db
  else some { db with decisions := db.decisions ++ [d] }

/-- One insert into `decision_outcomes`. -/
def fuegeErgebnisEin (dialekt : Dialekt) (db : Datenbank) (o : Outcome) : Option Datenbank :=
  match o.decisionId with
  | none => unvollstaendig dialekt db
  | some id =>
      if o.vollstaendig = false then unvollstaendig dialekt db
      else if db.HatErgebnis id then some db
      else if db.Kennt id then some { db with outcomes := db.outcomes ++ [o] }
      else none

/-- `_send_batch` at a database that answers: all rows of the batch or none. -/
def sendeEntscheidungen (dialekt : Dialekt) (db : Datenbank) (items : List Entscheidung) :
    Option Datenbank :=
  items.foldlM (fuegeEntscheidungEin dialekt) db

/-- `_send_batch` of outcomes. -/
def sendeErgebnisse (dialekt : Dialekt) (db : Datenbank) (items : List Outcome) :
    Option Datenbank :=
  items.foldlM (fuegeErgebnisEin dialekt) db

/-! ## What a batch leaves -/

/-- Every stored outcome has its decision. -/
def Datenbank.Stimmig (db : Datenbank) : Prop :=
  ∀ o ∈ db.outcomes, ∃ id, o.decisionId = some id ∧ db.Kennt id

/-- Nothing that is stored goes away. -/
structure Datenbank.Waechst (db db' : Datenbank) : Prop where
  decisions : ∀ d ∈ db.decisions, d ∈ db'.decisions
  outcomes : ∀ o ∈ db.outcomes, o ∈ db'.outcomes

section

variable {dialekt : Dialekt} {db db' db'' : Datenbank} {d : Entscheidung} {o : Outcome}
  {id : String}

namespace Datenbank

@[refl] theorem Waechst.refl (db : Datenbank) : db.Waechst db := ⟨fun _ h => h, fun _ h => h⟩

theorem Waechst.trans (h : db.Waechst db') (h' : db'.Waechst db'') : db.Waechst db'' :=
  ⟨fun d hd => h'.decisions d (h.decisions d hd), fun o ho => h'.outcomes o (h.outcomes o ho)⟩

theorem Kennt.mono (hk : db.Kennt id) (h : db.Waechst db') : db'.Kennt id := by
  obtain ⟨d, hd, hid⟩ := hk
  exact ⟨d, h.decisions d hd, hid⟩

theorem HatErgebnis.mono (hk : db.HatErgebnis id) (h : db.Waechst db') : db'.HatErgebnis id := by
  obtain ⟨o, ho, hid⟩ := hk
  exact ⟨o, h.outcomes o ho, hid⟩

end Datenbank

theorem unvollstaendig_eq_some (h : unvollstaendig dialekt db = some db') : db' = db := by
  cases dialekt with
  | sqlite => exact (Option.some.inj h).symm
  | postgresql => cases h

/-- What one insert of a decision does. -/
theorem fuegeEntscheidungEin_cases (h : fuegeEntscheidungEin dialekt db d = some db') :
    (db' = db ∧ (d.vollstaendig = true → db.Kennt d.decisionId)) ∨
      db' = { db with decisions := db.decisions ++ [d] } := by
  rw [fuegeEntscheidungEin] at h
  split at h
  next hv => exact .inl ⟨unvollstaendig_eq_some h, by simp [hv]⟩
  next =>
    split at h
    next hk => exact .inl ⟨(Option.some.inj h).symm, fun _ => hk⟩
    next => exact .inr (Option.some.inj h).symm

/-- What one insert of an outcome does. -/
theorem fuegeErgebnisEin_cases (h : fuegeErgebnisEin dialekt db o = some db') :
    (db' = db ∧ ∀ id, o.decisionId = some id → o.vollstaendig = true → db.HatErgebnis id) ∨
      ∃ id, o.decisionId = some id ∧ db.Kennt id ∧
        db' = { db with outcomes := db.outcomes ++ [o] } := by
  rw [fuegeErgebnisEin] at h
  split at h
  next hid => exact .inl ⟨unvollstaendig_eq_some h, by simp [hid]⟩
  next id hid =>
    split at h
    next hv => exact .inl ⟨unvollstaendig_eq_some h, by simp [hv]⟩
    next =>
      split at h
      next hk =>
        refine .inl ⟨(Option.some.inj h).symm, fun id' hid' _ => ?_⟩
        obtain rfl : id = id' := Option.some.inj (hid.symm.trans hid')
        exact hk
      next =>
        split at h
        next hk => exact .inr ⟨id, hid, hk, (Option.some.inj h).symm⟩
        next => cases h

theorem fuegeEntscheidungEin_waechst (h : fuegeEntscheidungEin dialekt db d = some db') :
    db.Waechst db' ∧ db'.outcomes = db.outcomes := by
  rcases fuegeEntscheidungEin_cases h with ⟨rfl, -⟩ | rfl
  · exact ⟨.refl db', rfl⟩
  · exact ⟨⟨fun _ => List.mem_append_left _, fun _ h => h⟩, rfl⟩

theorem fuegeErgebnisEin_waechst (h : fuegeErgebnisEin dialekt db o = some db') :
    db.Waechst db' := by
  rcases fuegeErgebnisEin_cases h with ⟨rfl, -⟩ | ⟨id, -, -, rfl⟩
  · exact .refl db'
  · exact ⟨fun _ h => h, fun _ => List.mem_append_left _⟩

/-- An insert of an outcome keeps every stored outcome with its decision. -/
theorem fuegeErgebnisEin_stimmig (h : fuegeErgebnisEin dialekt db o = some db')
    (hs : db.Stimmig) : db'.Stimmig := by
  rcases fuegeErgebnisEin_cases h with ⟨rfl, -⟩ | ⟨id, hid, hk, rfl⟩
  · exact hs
  · intro o' ho'
    rcases List.mem_append.mp ho' with ho' | ho'
    · exact hs o' ho'
    · obtain rfl := List.mem_singleton.mp ho'
      exact ⟨id, hid, hk⟩

end

section

variable {dialekt : Dialekt} {db db' : Datenbank}

theorem sendeEntscheidungen_cons {d : Entscheidung} {items : List Entscheidung} :
    sendeEntscheidungen dialekt db (d :: items) =
      (fuegeEntscheidungEin dialekt db d).bind fun db' => sendeEntscheidungen dialekt db' items :=
  rfl

theorem sendeErgebnisse_cons {o : Outcome} {items : List Outcome} :
    sendeErgebnisse dialekt db (o :: items) =
      (fuegeErgebnisEin dialekt db o).bind fun db' => sendeErgebnisse dialekt db' items :=
  rfl

/-- A batch of decisions: nothing is lost, and every complete row of the batch has
its id stored. -/
theorem sendeEntscheidungen_spec {items : List Entscheidung}
    (h : sendeEntscheidungen dialekt db items = some db') :
    db.Waechst db' ∧ db'.outcomes = db.outcomes ∧
      ∀ d ∈ items, d.vollstaendig = true → db'.Kennt d.decisionId := by
  induction items generalizing db with
  | nil =>
      obtain rfl := Option.some.inj h
      exact ⟨.refl db, rfl, by simp⟩
  | cons d items ih =>
      rw [sendeEntscheidungen_cons] at h
      obtain ⟨db₁, h₁, h₂⟩ := Option.bind_eq_some_iff.mp h
      obtain ⟨hw, ho, hk⟩ := ih h₂
      obtain ⟨hw₁, ho₁⟩ := fuegeEntscheidungEin_waechst h₁
      refine ⟨hw₁.trans hw, ho.trans ho₁, fun d' hd' hv => ?_⟩
      rcases List.mem_cons.mp hd' with rfl | hd'
      · rcases fuegeEntscheidungEin_cases h₁ with ⟨rfl, hkennt⟩ | rfl
        · exact (hkennt hv).mono hw
        · exact Datenbank.Kennt.mono ⟨d', by simp, rfl⟩ hw
      · exact hk d' hd' hv

/-- A batch of outcomes: nothing is lost, every stored outcome has its decision,
and every complete row of the batch has an outcome of its id stored. -/
theorem sendeErgebnisse_spec {items : List Outcome}
    (h : sendeErgebnisse dialekt db items = some db') :
    db.Waechst db' ∧ db'.decisions = db.decisions ∧ (db.Stimmig → db'.Stimmig) ∧
      ∀ o ∈ items, ∀ id, o.decisionId = some id → o.vollstaendig = true → db'.HatErgebnis id := by
  induction items generalizing db with
  | nil =>
      obtain rfl := Option.some.inj h
      exact ⟨.refl db, rfl, fun h => h, by simp⟩
  | cons o items ih =>
      rw [sendeErgebnisse_cons] at h
      obtain ⟨db₁, h₁, h₂⟩ := Option.bind_eq_some_iff.mp h
      obtain ⟨hw, hd, hs, hk⟩ := ih h₂
      have hw₁ := fuegeErgebnisEin_waechst h₁
      have hd₁ : db₁.decisions = db.decisions := by
        rcases fuegeErgebnisEin_cases h₁ with ⟨rfl, -⟩ | ⟨id, -, -, rfl⟩ <;> rfl
      refine ⟨hw₁.trans hw, hd.trans hd₁, fun h0 => hs (fuegeErgebnisEin_stimmig h₁ h0), ?_⟩
      intro o' ho' id hid hv
      rcases List.mem_cons.mp ho' with rfl | ho'
      · rcases fuegeErgebnisEin_cases h₁ with ⟨rfl, hkennt⟩ | ⟨id', hid', -, rfl⟩
        · exact (hkennt id hid hv).mono hw
        · obtain rfl : id = id' := Option.some.inj (hid.symm.trans hid')
          exact Datenbank.HatErgebnis.mono ⟨o', by simp, hid⟩ hw
      · exact hk o' ho' id hid hv

/-- A batch of outcomes is stored when its rows are complete and their decisions
are stored. -/
theorem sendeErgebnisse_isSome {items : List Outcome}
    (h : ∀ o ∈ items, o.vollstaendig = true ∧ ∃ id, o.decisionId = some id ∧ db.Kennt id) :
    (sendeErgebnisse dialekt db items).isSome := by
  induction items generalizing db with
  | nil => rfl
  | cons o items ih =>
      obtain ⟨hv, id, hid, hk⟩ := h o List.mem_cons_self
      obtain ⟨db₁, h₁⟩ : ∃ db₁, fuegeErgebnisEin dialekt db o = some db₁ := by
        rw [fuegeErgebnisEin, hid]
        by_cases hh : db.HatErgebnis id
        · exact ⟨db, by simp [hv, hh]⟩
        · exact ⟨{ db with outcomes := db.outcomes ++ [o] }, by simp [hv, hh, hk]⟩
      rw [sendeErgebnisse_cons, h₁]
      refine ih fun o' ho' => ?_
      obtain ⟨hv', id', hid', hk'⟩ := h o' (List.mem_cons_of_mem o ho')
      exact ⟨hv', id', hid', hk'.mono (fuegeErgebnisEin_waechst h₁)⟩

end

/-! ## The parents -/

def outcomeDeferMaxCycles : Nat := 3

/-- An outcome and the cycles it has waited. -/
abbrev Eintrag := Outcome × Nat

/-- The ids `teile_nach_eltern` asks for. -/
def gefragt (offen : List Eintrag) : List String :=
  (offen.filterMap fun e => e.1.decisionId).filter fun id => id ≠ ""

/-- `vorhanden`: the ids asked for that are in `decisions`. -/
def vorhanden (db : Datenbank) (offen : List Eintrag) : List String :=
  (gefragt offen).filter fun id => db.Kennt id

/-- Where `teile_nach_eltern` puts an entry. -/
inductive Fach where
  | bereit
  | verwaist
  | zurueck
deriving DecidableEq, Repr

def sortiere (da : List String) (e : Eintrag) : Fach :=
  if e.1.kennung ∈ da then .bereit
  else if outcomeDeferMaxCycles ≤ e.2 then .verwaist
  else .zurueck

section

variable {db : Datenbank} {offen : List Eintrag} {da : List String} {e : Eintrag} {id : String}

theorem mem_vorhanden : id ∈ vorhanden db offen ↔
    id ≠ "" ∧ db.Kennt id ∧ ∃ e ∈ offen, e.1.decisionId = some id := by
  simp only [vorhanden, gefragt, List.mem_filter, List.mem_filterMap, decide_eq_true_eq]
  tauto

/-- An open outcome finds its decision exactly when the decision is stored. -/
theorem kennung_mem_vorhanden (he : e ∈ offen) (hid : e.1.decisionId = some id) (hne : id ≠ "") :
    e.1.kennung ∈ vorhanden db offen ↔ db.Kennt id := by
  have hkennung : e.1.kennung = id := by simp [Outcome.kennung, hid]
  rw [hkennung, mem_vorhanden]
  exact ⟨fun h => h.2.1, fun h => ⟨hne, h, e, he, hid⟩⟩

theorem sortiere_eq_bereit : sortiere da e = .bereit ↔ e.1.kennung ∈ da := by
  rw [sortiere]
  split <;> [skip; split] <;> simp_all

theorem sortiere_eq_verwaist :
    sortiere da e = .verwaist ↔ e.1.kennung ∉ da ∧ outcomeDeferMaxCycles ≤ e.2 := by
  rw [sortiere]
  split <;> [skip; split] <;> simp_all

theorem sortiere_eq_zurueck :
    sortiere da e = .zurueck ↔ e.1.kennung ∉ da ∧ e.2 < outcomeDeferMaxCycles := by
  rw [sortiere]
  split <;> [skip; split] <;> simp_all

end

end Ergebnisse
