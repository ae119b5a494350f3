import AutonomousEngine.Ergebnisse.Arbeiter

/-!
# How long an outcome waits for its decision

An outcome whose decision is not stored waits in the list of the deferred outcomes,
with the number of the queries that missed the decision.  After the fourth query
without it the outcome goes to the fallback file (`verwaist_erst_nach_vier`).  In no
interleaving does one wait longer, or go earlier, and no outcome is stored without
its decision.

The history of a run holds the tables as the queries of `teile_nach_eltern` found
them.
-/

namespace Ergebnisse

open Basis

/-- The tables an answered query of the worker reads. -/
def abfragen (s : Stand) : Akt → List Datenbank
  | .arbeiter .ok _ =>
      match s.worker with
      | .pruefe _ => [s.db]
      | _ => []
  | _ => []

/-- The last `n` queries did not find the decision of the outcome. -/
def Verpasst (fragen : List Datenbank) (n : Nat) (o : Outcome) : Prop :=
  ∃ alt neu, fragen = alt ++ neu ∧ neu.length = n ∧
    ∀ id, o.decisionId = some id → id ≠ "" → ∀ db ∈ neu, ¬db.Kennt id

/-- An entry counts the queries that missed its decision, and there were at most
`OUTCOME_DEFER_MAX_CYCLES`. -/
def Zaehlt (fragen : List Datenbank) (e : Eintrag) : Prop :=
  e.2 ≤ outcomeDeferMaxCycles ∧ Verpasst fragen e.2 e.1

def Punkt.Befristet (fragen : List Datenbank) (deferred : List Eintrag) : Punkt → Prop
  | .raeume zurueck _ => ∀ e ∈ zurueck, Zaehlt fragen e
  | .pruefe offen => deferred = [] ∧ ∀ e ∈ offen, Zaehlt fragen e
  | .teile da offen _ verwaist => (∀ o ∈ verwaist, Verpasst fragen (outcomeDeferMaxCycles + 1) o) ∧
      ∃ vor db, fragen = vor ++ [db] ∧ ∀ e ∈ offen, Zaehlt vor e ∧
        (e.1.kennung ∉ da → ∀ id, e.1.decisionId = some id → id ≠ "" → ¬db.Kennt id)
  | .ersetze _ verwaist => ∀ o ∈ verwaist, Verpasst fragen (outcomeDeferMaxCycles + 1) o
  | _ => True

/-- Nobody waits longer than he may, and every stored outcome has its decision. -/
structure Befristet (x : Stand × List Datenbank) : Prop where
  db : x.1.db.Stimmig
  deferred : ∀ e ∈ x.1.deferredOutcomes, Zaehlt x.2 e ∧ 1 ≤ e.2
  worker : x.1.worker.Befristet x.2 x.1.deferredOutcomes

section

variable {dialekt : Dialekt} {ausgang : Ausgang} {k n : Nat} {s s' : Stand} {a : Akt}
  {fragen : List Datenbank} {db : Datenbank} {o : Outcome} {e : Eintrag}

theorem verpasst_zero (fragen : List Datenbank) (o : Outcome) : Verpasst fragen 0 o :=
  ⟨fragen, [], by simp, rfl, by simp⟩

theorem Verpasst.append (h : Verpasst fragen n o)
    (hdb : ∀ id, o.decisionId = some id → id ≠ "" → ¬db.Kennt id) :
    Verpasst (fragen ++ [db]) (n + 1) o := by
  obtain ⟨alt, neu, rfl, rfl, hneu⟩ := h
  refine ⟨alt, neu ++ [db], by simp, by simp, fun id hid hne db' hdb' => ?_⟩
  rcases List.mem_append.mp hdb' with hdb' | hdb'
  · exact hneu id hid hne db' hdb'
  · obtain rfl := List.mem_singleton.mp hdb'
    exact hdb id hid hne

theorem Befristet.anfang (h : Anfang s) : Befristet (s, []) where
  db := h.db
  deferred := by simp [h.deferredOutcomes]
  worker := by
    show s.worker.Befristet [] s.deferredOutcomes
    rw [h.worker]
    trivial

/-- An answered query: what it does not find is not stored. -/
theorem befristet_nachPruefen {offen : List Eintrag} {deferred : List Eintrag}
    (h : ∀ e ∈ offen, Zaehlt fragen e) :
    (nachPruefen .ok db offen).Befristet (fragen ++ [db]) deferred := by
  refine ⟨nofun, fragen, db, rfl, fun e he => ⟨h e he, fun hda id hid hne hk => ?_⟩⟩
  exact hda ((kennung_mem_vorhanden he hid hne).mpr hk)

/-- One entry of the loop: it waits for one more cycle, or it has waited for all of
them. -/
theorem Befristet.teileEinen {da : List String} {offen : List Eintrag}
    {bereit verwaist : List Outcome} (h : Befristet (s, fragen))
    (hw : s.worker = .teile da (e :: offen) bereit verwaist) :
    Befristet (s.teileEinen da e offen bereit verwaist, fragen) := by
  obtain ⟨hdb, hdeferred, hworker⟩ := h
  simp only [hw] at hdb hdeferred hworker
  obtain ⟨hverwaist, vor, db, rfl, hoffen⟩ := hworker
  have hrest : ∀ e' ∈ offen, Zaehlt vor e' ∧
      (e'.1.kennung ∉ da → ∀ id, e'.1.decisionId = some id → id ≠ "" → ¬db.Kennt id) :=
    fun e' he' => hoffen e' (List.mem_cons_of_mem e he')
  obtain ⟨⟨hle, hverpasst⟩, hfehlt⟩ := hoffen e List.mem_cons_self
  rw [Stand.teileEinen]
  cases hs : sortiere da e with
  | bereit => exact ⟨hdb, hdeferred, hverwaist, vor, db, rfl, hrest⟩
  | verwaist =>
      obtain ⟨hda, hge⟩ := sortiere_eq_verwaist.mp hs
      refine ⟨hdb, hdeferred, ?_, vor, db, rfl, hrest⟩
      intro o ho
      rcases List.mem_append.mp ho with ho | ho
      · exact hverwaist o ho
      · obtain rfl := List.mem_singleton.mp ho
        obtain heq : e.2 = outcomeDeferMaxCycles := Nat.le_antisymm hle hge
        rw [heq] at hverpasst
        exact hverpasst.append (hfehlt hda)
  | zurueck =>
      obtain ⟨hda, hlt⟩ := sortiere_eq_zurueck.mp hs
      refine ⟨hdb, ?_, hverwaist, vor, db, rfl, hrest⟩
      intro e' he'
      rcases List.mem_append.mp he' with he' | he'
      · exact hdeferred e' he'
      · obtain rfl := List.mem_singleton.mp he'
        exact ⟨⟨hlt, hverpasst.append (hfehlt hda)⟩, Nat.le_add_left 1 e.2⟩

theorem stimmig_sendBatch {ι : Type} {ziel : Option Datenbank} {v : Verbleib ι} {items : List ι}
    (h : db.Stimmig) (hziel : ∀ db', ziel = some db' → db'.Stimmig) :
    (sendBatch ausgang k ziel db v items).1.Stimmig := by
  rcases sendBatch_db ausgang k ziel db v items with heq | heq
  · rw [heq]
    exact h
  · exact hziel _ heq

theorem stimmig_sendDecisions {items : List Entscheidung} (h : s.db.Stimmig) :
    (s.sendDecisions dialekt ausgang k items).db.Stimmig := by
  refine stimmig_sendBatch h fun db' hdb' => ?_
  obtain ⟨hw, ho, -⟩ := sendeEntscheidungen_spec hdb'
  intro o hmem
  rw [ho] at hmem
  obtain ⟨id, hid, hk⟩ := h o hmem
  exact ⟨id, hid, hk.mono hw⟩

theorem stimmig_sendOutcomes {items : List Outcome} (h : s.db.Stimmig) :
    (s.sendOutcomes dialekt ausgang k items).db.Stimmig :=
  stimmig_sendBatch h fun _ hdb' => (sendeErgebnisse_spec hdb').2.2.1 h

/-- Between two cycles and up to the copy there is nothing to say of the worker. -/
theorem Befristet.mitWorker (h : Befristet (s, fragen)) {p : Punkt}
    (hp : p.Befristet fragen s.deferredOutcomes) : Befristet ({ s with worker := p }, fragen) :=
  ⟨h.db, h.deferred, hp⟩

theorem abfragen_eq_nil (h : ∀ offen, s.worker ≠ .pruefe offen) :
    abfragen s (.arbeiter ausgang k) = [] := by
  cases ausgang with
  | ok =>
      cases hw : s.worker with
      | pruefe offen => exact absurd hw (h offen)
      | _ => simp [abfragen, hw]
  | _ => rfl

/-- A step of the worker that asks nothing. -/
theorem Befristet.arbeiter_ohne (h : Befristet (s, fragen))
    (hp : ∀ offen, s.worker ≠ .pruefe offen) :
    Befristet (arbeiterSchritt dialekt ausgang k s, fragen) := by
  obtain ⟨hdb, hdeferred, hworker⟩ := id h
  rw [arbeiterSchritt]
  split
  next => exact h.mitWorker trivial
  next items hw =>
    split
    next => exact ⟨hdb, hdeferred, trivial⟩
    next => exact h.mitWorker trivial
  next ergebnisse items hw =>
    split
    next => exact ⟨hdb, hdeferred, trivial⟩
    next => exact h.mitWorker trivial
  next ergebnisse items hw => exact ⟨stimmig_sendDecisions hdb, hdeferred, trivial⟩
  next ergebnisse hw => exact h.mitWorker fun e he => (hdeferred e he).1
  next zurueck ergebnisse hw =>
    simp only [hw] at hworker
    refine ⟨hdb, nofun, ?_⟩
    show (nachRaeumen _).Befristet fragen []
    rw [nachRaeumen]
    split
    next => trivial
    next =>
      refine ⟨rfl, fun e he => ?_⟩
      rcases List.mem_append.mp he with he | he
      · exact hworker e he
      · obtain ⟨o, -, rfl⟩ := List.mem_map.mp he
        exact ⟨Nat.zero_le _, verpasst_zero fragen o⟩
  next offen hw => exact absurd hw (hp offen)
  next da e offen bereit verwaist hw => exact h.teileEinen hw
  next da bereit verwaist hw =>
    simp only [hw] at hworker
    exact h.mitWorker hworker.1
  next bereit verwaist hw => exact ⟨hdb, hdeferred, trivial⟩
  next bereit hw => exact ⟨stimmig_sendOutcomes hdb, hdeferred, trivial⟩

theorem Befristet.arbeiter (h : Befristet (s, fragen)) :
    Befristet (arbeiterSchritt dialekt ausgang k s,
      fragen ++ abfragen s (.arbeiter ausgang k)) := by
  by_cases hp : ∃ offen, s.worker = .pruefe offen
  · obtain ⟨offen, hw⟩ := hp
    obtain ⟨hdb, hdeferred, hworker⟩ := h
    simp only [hw] at hdb hdeferred hworker
    obtain ⟨hleer, hoffen⟩ := hworker
    have hschritt : arbeiterSchritt dialekt ausgang k s =
        { s with worker := nachPruefen ausgang s.db offen } := by simp [arbeiterSchritt, hw]
    rw [hschritt]
    refine ⟨hdb, by simp [hleer], ?_⟩
    show (nachPruefen ausgang s.db offen).Befristet _ s.deferredOutcomes
    cases ausgang with
    | ok =>
        have habfrage : abfragen s (.arbeiter .ok k) = [s.db] := by simp [abfragen, hw]
        rw [habfrage]
        exact befristet_nachPruefen hoffen
    | fehler => exact nofun
    | unbestaetigt => exact nofun
  · push Not at hp
    rw [abfragen_eq_nil hp, List.append_nil]
    exact h.arbeiter_ohne hp

/-- A step of a flush: it takes entries away and adds none. -/
theorem Befristet.flush {p : FlushPunkt} (h : Befristet (s, fragen)) :
    Befristet (flushSchritt dialekt ausgang k s p, fragen) := by
  obtain ⟨hdb, hdeferred, hworker⟩ := h
  cases p with
  | leereEntscheidungen items =>
      rw [flushSchritt]
      split <;> exact ⟨hdb, hdeferred, hworker⟩
  | sendeEntscheidungen items => exact ⟨stimmig_sendDecisions hdb, hdeferred, hworker⟩
  | kopiere => exact ⟨hdb, hdeferred, hworker⟩
  | raeume items =>
      refine ⟨hdb, nofun, ?_⟩
      show s.worker.Befristet fragen []
      cases hw : s.worker with
      | pruefe offen =>
          simp only [hw] at hworker
          exact ⟨rfl, hworker.2⟩
      | _ =>
          simp only [hw] at hworker
          exact hworker
  | leereErgebnisse items =>
      rw [flushSchritt]
      split <;> exact ⟨hdb, hdeferred, hworker⟩
  | sende items => exact ⟨stimmig_sendOutcomes hdb, hdeferred, hworker⟩

theorem Schritt.befristet (h : Schritt dialekt s a s') (hs : Befristet (s, fragen)) :
    Befristet (s', fragen ++ abfragen s a) := by
  cases h with
  | arbeiter => exact hs.arbeiter
  | flush =>
      show Befristet (_, fragen ++ [])
      rw [List.append_nil]
      exact hs.flush
  | nachtrag =>
      show Befristet (_, fragen ++ [])
      rw [List.append_nil]
      refine ⟨fun o ho => ?_, hs.deferred, hs.worker⟩
      obtain ⟨id, hid, hk⟩ := hs.db o ho
      exact ⟨id, hid, hk.mono ⟨fun _ h => List.mem_append_left _ h, fun _ h => h⟩⟩
  | _ =>
      show Befristet (_, fragen ++ [])
      rw [List.append_nil]
      exact ⟨hs.db, hs.deferred, hs.worker⟩

/-- In every interleaving: every stored outcome has its decision, an entry that
waits has been missed by one to three queries, all the last ones, and the worker
gives up only what the last four queries missed. -/
theorem verwaist_erst_nach_vier {x : Stand × List Datenbank}
    (h : ((protokoll dialekt).observe abfragen).Reach x) :
    x.1.db.Stimmig ∧
      (∀ e ∈ x.1.deferredOutcomes,
        1 ≤ e.2 ∧ e.2 ≤ outcomeDeferMaxCycles ∧ Verpasst x.2 e.2 e.1) ∧
      ∀ bereit verwaist, x.1.worker = .ersetze bereit verwaist →
        ∀ o ∈ verwaist, Verpasst x.2 (outcomeDeferMaxCycles + 1) o := by
  have hx : Befristet x := by
    refine h.invariant (I := Befristet) ?_ ?_
    · rintro ⟨s, fragen⟩ ⟨h0, rfl⟩
      exact .anfang h0
    · rintro ⟨s, fragen⟩ a ⟨s', fragen'⟩ hI ⟨hs, rfl⟩
      exact hs.befristet hI
  refine ⟨hx.db, fun e he => ?_, fun bereit verwaist hw => ?_⟩
  · obtain ⟨⟨hle, hverpasst⟩, hpos⟩ := hx.deferred e he
    exact ⟨hpos, hle, hverpasst⟩
  · have hworker := hx.worker
    rw [hw] at hworker
    exact hworker

/-- A run goes on with a step, and the history with what it asks. -/
theorem beobachtet {x : Stand × List Datenbank}
    (h : ((protokoll dialekt).observe abfragen).Reach x) (hs : Schritt dialekt x.1 a s') :
    ((protokoll dialekt).observe abfragen).Reach (s', x.2 ++ abfragen x.1 a) :=
  h.step ⟨hs, rfl⟩

/-- The worker takes `n` steps, and the database answers in each of them. -/
def arbeitet (dialekt : Dialekt) : Nat → Stand × List Datenbank → Stand × List Datenbank
  | 0, x => x
  | n + 1, x =>
      arbeitet dialekt n
        (arbeiterSchritt dialekt .ok 0 x.1, x.2 ++ abfragen x.1 (.arbeiter .ok 0))

theorem reach_arbeitet {x : Stand × List Datenbank}
    (h : ((protokoll dialekt).observe abfragen).Reach x) (n : Nat) :
    ((protokoll dialekt).observe abfragen).Reach (arbeitet dialekt n x) := by
  induction n generalizing x with
  | zero => exact h
  | succ n ih => exact ih (beobachtet h .arbeiter)

/-- An outcome without a decision, after the worker's first cycle. -/
theorem verwaist_erst_nach_vier_eins : ∃ x : Stand × List Datenbank,
    x.1.deferredOutcomes = [(⟨some "d1", true, ""⟩, 1)] ∧
      Verpasst x.2 1 ⟨some "d1", true, ""⟩ := by
  have h0 : ((protokoll .sqlite).observe abfragen).Reach (leer, []) := .start ⟨anfang_leer, rfl⟩
  have h1 := reach_arbeitet (beobachtet h0 (@Schritt.logDecisionOutcome .sqlite leer
    ⟨some "d1", true, ""⟩)) 9
  have hdeferred := (verwaist_erst_nach_vier h1).2.1 (⟨some "d1", true, ""⟩, 1) (by decide)
  exact ⟨_, by decide, hdeferred.2.2⟩

end

end Ergebnisse
