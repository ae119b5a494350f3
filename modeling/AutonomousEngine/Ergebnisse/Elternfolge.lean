import AutonomousEngine.Ergebnisse.Arbeiter
import Mathlib.Logic.Function.Iterate

/-!
# Parents first

The worker empties the queue of the outcomes before the queue of the decisions.
A producer puts a decision into its queue before it puts the outcome.  So the
decision of every outcome that the worker has taken is stored, or it is in the
batch the worker sends next (`eltern_zuerst`): no outcome waits, none is given up,
and a batch of outcomes is not refused for a missing decision.

The runs are those of the producers and the worker (`InReihenfolge`): no flush
takes decisions away from the worker, and no batch of decisions fails.
-/

namespace Ergebnisse

open Basis

/-- A complete outcome of a decision that meets a condition. -/
def Outcome.Von (P : String → Prop) (o : Outcome) : Prop :=
  o.vollstaendig = true ∧ ∃ id, o.decisionId = some id ∧ id ≠ "" ∧ P id

/-- `log_decision` was called for the id. -/
def Stand.Angekuendigt (s : Stand) (id : String) : Prop :=
  ∃ d ∈ s.decisions.eingereiht, d.decisionId = id

/-- A producer calls `log_decision` before `log_decision_outcome`, the rows are
complete, and a batch of decisions is committed. -/
def InReihenfolge (s : Stand) (a : Akt) (_ : Stand) : Prop :=
  match a with
  | .logDecision d => d.vollstaendig = true
  | .logDecisionOutcome o => o.Von s.Angekuendigt
  | .nachtrag _ => True
  | .arbeiter ausgang _ => ∀ ergebnisse items,
      s.worker = .sendeEntscheidungen ergebnisse items → ausgang ≠ .fehler
  | .flushBeginn => False
  | .flush _ _ => False

/-- The outcomes the worker is about to give up. -/
def Punkt.verwaist : Punkt → List Outcome
  | .teile _ _ _ verwaist => verwaist
  | .ersetze _ verwaist => verwaist
  | _ => []

def Enthalten (ds : List Entscheidung) (id : String) : Prop := ∃ d ∈ ds, d.decisionId = id

def Punkt.Geordnet (db : Datenbank) (angekuendigt : String → Prop) : Punkt → Prop
  | .pause => True
  | .leereErgebnisse items => ∀ o ∈ items, o.Von angekuendigt
  | .leereEntscheidungen ergebnisse _ => ∀ o ∈ ergebnisse, o.Von angekuendigt
  | .sendeEntscheidungen ergebnisse items =>
      ∀ o ∈ ergebnisse, o.Von fun id => db.Kennt id ∨ Enthalten items id
  | .verbinde ergebnisse => ∀ o ∈ ergebnisse, o.Von db.Kennt
  | .raeume zurueck ergebnisse => zurueck = [] ∧ ∀ o ∈ ergebnisse, o.Von db.Kennt
  | .pruefe offen => ∀ e ∈ offen, e.1.Von db.Kennt
  | .teile da offen bereit verwaist => verwaist = [] ∧ (∀ o ∈ bereit, o.Von db.Kennt) ∧
      ∀ e ∈ offen, e.1.kennung ∈ da ∧ e.1.Von db.Kennt
  | .ersetze bereit verwaist => verwaist = [] ∧ ∀ o ∈ bereit, o.Von db.Kennt
  | .sende bereit => ∀ o ∈ bereit, o.Von db.Kennt

/-- No outcome waits, and every decision is stored or on its way. -/
structure Geordnet (s : Stand) : Prop where
  flush : s.flush = none
  deferredOutcomes : s.deferredOutcomes = []
  queue : ∀ d ∈ s.decisionQueue, d.vollstaendig = true
  hand : ∀ d ∈ s.worker.handEntscheidungen, d.vollstaendig = true
  unterwegs : ∀ id, s.Angekuendigt id →
    s.db.Kennt id ∨ Enthalten s.decisionQueue id ∨ Enthalten s.worker.handEntscheidungen id
  outcomes : ∀ o ∈ s.decisionOutcomeQueue, o.Von s.Angekuendigt
  worker : s.worker.Geordnet s.db s.Angekuendigt

section

variable {dialekt : Dialekt} {ausgang : Ausgang} {k : Nat} {s s' : Stand} {a : Akt}
  {db db' : Datenbank} {P Q : String → Prop} {o : Outcome}

theorem Outcome.Von.mono (h : o.Von P) (hPQ : ∀ id, P id → Q id) : o.Von Q := by
  obtain ⟨hv, id, hid, hne, hP⟩ := h
  exact ⟨hv, id, hid, hne, hPQ id hP⟩

/-- What holds at a point still holds when more is stored and announced. -/
theorem Punkt.Geordnet.mono {p : Punkt} (h : p.Geordnet db P) (hdb : db.Waechst db')
    (hPQ : ∀ id, P id → Q id) : p.Geordnet db' Q := by
  have hkennt : ∀ id, db.Kennt id → db'.Kennt id := fun id hk => hk.mono hdb
  cases p with
  | pause => trivial
  | leereErgebnisse items => exact fun o ho => (h o ho).mono hPQ
  | leereEntscheidungen ergebnisse items => exact fun o ho => (h o ho).mono hPQ
  | sendeEntscheidungen ergebnisse items =>
      exact fun o ho => (h o ho).mono fun id hid => hid.imp_left (hkennt id)
  | verbinde ergebnisse => exact fun o ho => (h o ho).mono hkennt
  | raeume zurueck ergebnisse => exact ⟨h.1, fun o ho => (h.2 o ho).mono hkennt⟩
  | pruefe offen => exact fun e he => (h e he).mono hkennt
  | teile da offen bereit verwaist =>
      refine ⟨h.1, fun o ho => (h.2.1 o ho).mono hkennt, fun e he => ?_⟩
      exact ⟨(h.2.2 e he).1, (h.2.2 e he).2.mono hkennt⟩
  | ersetze bereit verwaist => exact ⟨h.1, fun o ho => (h.2 o ho).mono hkennt⟩
  | sende bereit => exact fun o ho => (h o ho).mono hkennt

/-- A batch of complete decisions that is committed has all its ids stored. -/
theorem sendDecisions_kennt {items : List Entscheidung} (hv : ∀ d ∈ items, d.vollstaendig = true)
    (ha : ausgang ≠ .fehler) :
    s.db.Waechst (s.sendDecisions dialekt ausgang k items).db ∧
      ∀ id, Enthalten items id → (s.sendDecisions dialekt ausgang k items).db.Kennt id := by
  have hziel : ∃ db', sendeEntscheidungen dialekt s.db items = some db' := by
    generalize s.db = db
    induction items generalizing db with
    | nil => exact ⟨db, rfl⟩
    | cons d items ih =>
        obtain ⟨db₁, h₁⟩ : ∃ db₁, fuegeEntscheidungEin dialekt db d = some db₁ := by
          rw [fuegeEntscheidungEin, if_neg (by simp [hv d List.mem_cons_self])]
          split
          next => exact ⟨db, rfl⟩
          next => exact ⟨_, rfl⟩
        rw [sendeEntscheidungen_cons, h₁]
        exact ih (fun d' hd' => hv d' (List.mem_cons_of_mem d hd')) db₁
  obtain ⟨db', hdb'⟩ := hziel
  obtain ⟨hw, -, hk⟩ := sendeEntscheidungen_spec hdb'
  have heq : (s.sendDecisions dialekt ausgang k items).db = db' := by
    cases ausgang with
    | ok => simp [Stand.sendDecisions, sendBatch, hdb']
    | fehler => exact absurd rfl ha
    | unbestaetigt => simp [Stand.sendDecisions, sendBatch, hdb']
  rw [heq]
  refine ⟨hw, ?_⟩
  rintro id ⟨d, hd, rfl⟩
  exact hk d hd (hv d hd)

@[simp] theorem angekuendigt_sendDecisions (items : List Entscheidung) :
    (s.sendDecisions dialekt ausgang k items).Angekuendigt = s.Angekuendigt := by
  funext id
  simp [Stand.Angekuendigt, Stand.sendDecisions]

theorem sendOutcomes_waechst (items : List Outcome) :
    s.db.Waechst (s.sendOutcomes dialekt ausgang k items).db := by
  have hdb := sendBatch_db ausgang k (sendeErgebnisse dialekt s.db items) s.db s.outcomes items
  rcases hdb with heq | hziel
  · rw [Stand.sendOutcomes, heq]
  · exact (sendeErgebnisse_spec hziel).1

/-- The entries that are open find their decisions. -/
theorem geordnet_vorhanden {offen : List Eintrag} (h : ∀ e ∈ offen, e.1.Von db.Kennt) :
    ∀ e ∈ offen, e.1.kennung ∈ vorhanden db offen := by
  intro e he
  obtain ⟨-, id, hid, hne, hk⟩ := h e he
  exact (kennung_mem_vorhanden he hid hne).mpr hk

theorem geordnet_nachRaeumen {offen : List Eintrag} (h : ∀ e ∈ offen, e.1.Von db.Kennt) :
    (nachRaeumen offen).Geordnet db P := by
  rw [nachRaeumen]
  split
  next => trivial
  next => exact h

/-- Whether the query is answered or not, all entries are sent. -/
theorem geordnet_nachPruefen {offen : List Eintrag} (h : ∀ e ∈ offen, e.1.Von db.Kennt) :
    (nachPruefen ausgang db offen).Geordnet db P := by
  have hersetze : (Punkt.ersetze (offen.map Prod.fst) []).Geordnet db P := by
    refine ⟨rfl, fun o ho => ?_⟩
    obtain ⟨e, he, rfl⟩ := List.mem_map.mp ho
    exact h e he
  cases ausgang with
  | ok => exact ⟨rfl, nofun, fun e he => ⟨geordnet_vorhanden h e he, h e he⟩⟩
  | fehler => exact hersetze
  | unbestaetigt => exact hersetze

theorem Geordnet.anfang (h : Anfang s) : Geordnet s where
  flush := h.flush
  deferredOutcomes := h.deferredOutcomes
  queue := by simp [h.decisionQueue]
  hand := by simp [h.worker]
  unterwegs := by
    rintro id ⟨d, hd, -⟩
    simp [h.decisions] at hd
  outcomes := by simp [h.decisionOutcomeQueue]
  worker := by
    rw [h.worker]
    trivial

theorem Geordnet.arbeiter (h : Geordnet s)
    (ha : ∀ ergebnisse items, s.worker = .sendeEntscheidungen ergebnisse items →
      ausgang ≠ .fehler) :
    Geordnet (arbeiterSchritt dialekt ausgang k s) := by
  obtain ⟨hflush, hdeferred, hqueue, hhand, hunterwegs, houtcomes, hworker⟩ := h
  rw [arbeiterSchritt]
  split
  next hw =>
    rw [hw] at hhand hunterwegs
    exact ⟨hflush, hdeferred, hqueue, hhand, hunterwegs, houtcomes, nofun⟩
  next items hw =>
    rw [hw] at hhand hunterwegs hworker
    split
    next o rest hq =>
      rw [hq] at houtcomes
      refine ⟨hflush, hdeferred, hqueue, hhand, hunterwegs,
        fun o' ho' => houtcomes o' (List.mem_cons_of_mem o ho'), fun o' ho' => ?_⟩
      rcases List.mem_append.mp ho' with ho' | ho'
      · exact hworker o' ho'
      · obtain rfl := List.mem_singleton.mp ho'
        exact houtcomes o' List.mem_cons_self
    next hq => exact ⟨hflush, hdeferred, hqueue, hhand, hunterwegs, houtcomes, hworker⟩
  next ergebnisse items hw =>
    rw [hw] at hhand hunterwegs hworker
    split
    next d rest hq =>
      rw [hq] at hqueue hunterwegs
      refine ⟨hflush, hdeferred, fun d' hd' => hqueue d' (List.mem_cons_of_mem d hd'), ?_, ?_,
        houtcomes, hworker⟩
      · intro d' hd'
        rcases List.mem_append.mp hd' with hd' | hd'
        · exact hhand d' hd'
        · obtain rfl := List.mem_singleton.mp hd'
          exact hqueue d' List.mem_cons_self
      · -- The decision that was taken is in the hands of the worker now.
        intro id hid
        rcases hunterwegs id hid with hk | ⟨d', hd', hid'⟩ | ⟨d', hd', hid'⟩
        · exact .inl hk
        · rcases List.mem_cons.mp hd' with rfl | hd'
          · exact .inr (.inr ⟨d', by simp, hid'⟩)
          · exact .inr (.inl ⟨d', hd', hid'⟩)
        · exact .inr (.inr ⟨d', List.mem_append_left _ hd', hid'⟩)
    next hq =>
      -- The queue is empty: what was announced is stored or in the batch.
      refine ⟨hflush, hdeferred, hqueue, hhand, hunterwegs, houtcomes, fun o ho => ?_⟩
      refine (hworker o ho).mono fun id hid => ?_
      rcases hunterwegs id hid with hk | ⟨d', hd', -⟩ | hin
      · exact .inl hk
      · rw [hq] at hd'
        cases hd'
      · exact .inr hin
  next ergebnisse items hw =>
    have hok := ha ergebnisse items hw
    rw [hw] at hhand hunterwegs hworker
    obtain ⟨hwaechst, hkennt⟩ :=
      sendDecisions_kennt (s := s) (k := k) hhand hok
    have hangekuendigt := @angekuendigt_sendDecisions dialekt ausgang k s items
    refine ⟨hflush, hdeferred, hqueue, by simp, ?_, ?_, ?_⟩
    · intro id hid
      replace hid : s.Angekuendigt id := by rwa [← hangekuendigt]
      rcases hunterwegs id hid with hk | hin | hin
      · exact .inl (hk.mono hwaechst)
      · exact .inr (.inl hin)
      · exact .inl (hkennt id hin)
    · intro o ho
      exact (houtcomes o ho).mono fun id hid => by rwa [← hangekuendigt] at hid
    · intro o ho
      refine (hworker o ho).mono fun id hid => ?_
      rcases hid with hk | hin
      · exact hk.mono hwaechst
      · exact hkennt id hin
  next ergebnisse hw =>
    rw [hw] at hhand hunterwegs hworker
    exact ⟨hflush, hdeferred, hqueue, hhand, hunterwegs, houtcomes, hdeferred, hworker⟩
  next zurueck ergebnisse hw =>
    rw [hw] at hunterwegs hworker
    obtain ⟨rfl, hworker⟩ := hworker
    have hleer := handEntscheidungen_nachRaeumen ([] ++ ergebnisse.map fun item => (item, 0))
    refine ⟨hflush, rfl, hqueue, ?_, ?_, houtcomes, ?_⟩
    · show ∀ d ∈ (nachRaeumen _).handEntscheidungen, d.vollstaendig = true
      rw [hleer]
      exact nofun
    · show ∀ id, s.Angekuendigt id → s.db.Kennt id ∨ Enthalten s.decisionQueue id ∨
        Enthalten (nachRaeumen _).handEntscheidungen id
      rw [hleer]
      exact hunterwegs
    · refine geordnet_nachRaeumen fun e he => ?_
      obtain ⟨o, ho, rfl⟩ := List.mem_map.mp he
      exact hworker o ho
  next offen hw =>
    rw [hw] at hunterwegs hworker
    have hleer := handEntscheidungen_nachPruefen ausgang s.db offen
    refine ⟨hflush, hdeferred, hqueue, ?_, ?_, houtcomes, ?_⟩
    · show ∀ d ∈ (nachPruefen _ _ _).handEntscheidungen, d.vollstaendig = true
      rw [hleer]
      exact nofun
    · show ∀ id, s.Angekuendigt id → s.db.Kennt id ∨ Enthalten s.decisionQueue id ∨
        Enthalten (nachPruefen _ _ _).handEntscheidungen id
      rw [hleer]
      exact hunterwegs
    · exact geordnet_nachPruefen hworker
  next da e offen bereit verwaist hw =>
    rw [hw] at hunterwegs hworker
    obtain ⟨hverwaist, hbereit, hoffen⟩ := hworker
    have he := hoffen e List.mem_cons_self
    rw [Stand.teileEinen, sortiere_eq_bereit.mpr he.1]
    refine ⟨hflush, hdeferred, hqueue, by simp, hunterwegs, houtcomes, hverwaist, ?_,
      fun e' he' => hoffen e' (List.mem_cons_of_mem e he')⟩
    intro o ho
    rcases List.mem_append.mp ho with ho | ho
    · exact hbereit o ho
    · obtain rfl := List.mem_singleton.mp ho
      exact he.2
  next da bereit verwaist hw =>
    rw [hw] at hunterwegs hworker
    exact ⟨hflush, hdeferred, hqueue, by simp, hunterwegs, houtcomes, hworker.1, hworker.2.1⟩
  next bereit verwaist hw =>
    rw [hw] at hunterwegs hworker
    exact ⟨hflush, hdeferred, hqueue, by simp, hunterwegs, houtcomes, hworker.2⟩
  next bereit hw =>
    rw [hw] at hunterwegs
    refine ⟨hflush, hdeferred, hqueue, by simp, ?_, houtcomes, trivial⟩
    intro id hid
    exact (hunterwegs id hid).imp_left fun hk => hk.mono (sendOutcomes_waechst bereit)

theorem Schritt.geordnet (h : Schritt dialekt s a s') (hg : InReihenfolge s a s')
    (hs : Geordnet s) : Geordnet s' := by
  cases h with
  | @logDecision d =>
      have hmehr : ∀ id, s.Angekuendigt id → Stand.Angekuendigt
          { s with
            decisionQueue := s.decisionQueue ++ [d], decisions := s.decisions.reihtEin d } id := by
        rintro id ⟨d', hd', hid⟩
        exact ⟨d', List.mem_append_left _ hd', hid⟩
      refine ⟨hs.flush, hs.deferredOutcomes, ?_, hs.hand, ?_, ?_, ?_⟩
      · intro d' hd'
        rcases List.mem_append.mp hd' with hd' | hd'
        · exact hs.queue d' hd'
        · obtain rfl := List.mem_singleton.mp hd'
          exact hg
      · rintro id ⟨d', hd', rfl⟩
        rcases List.mem_append.mp hd' with hd' | hd'
        · rcases hs.unterwegs d'.decisionId ⟨d', hd', rfl⟩ with hk | ⟨d₁, hd₁, hid⟩ | hin
          · exact .inl hk
          · exact .inr (.inl ⟨d₁, List.mem_append_left _ hd₁, hid⟩)
          · exact .inr (.inr hin)
        · exact .inr (.inl ⟨d', List.mem_append_right _ hd', rfl⟩)
      · intro o ho
        exact (hs.outcomes o ho).mono hmehr
      · exact hs.worker.mono (.refl s.db) hmehr
  | @logDecisionOutcome o =>
      refine ⟨hs.flush, hs.deferredOutcomes, hs.queue, hs.hand, hs.unterwegs, ?_, hs.worker⟩
      intro o' ho'
      rcases List.mem_append.mp ho' with ho' | ho'
      · exact hs.outcomes o' ho'
      · obtain rfl := List.mem_singleton.mp ho'
        exact hg
  | @nachtrag d =>
      have hw : s.db.Waechst { s.db with decisions := s.db.decisions ++ [d] } :=
        ⟨fun _ h => List.mem_append_left _ h, fun _ h => h⟩
      refine ⟨hs.flush, hs.deferredOutcomes, hs.queue, hs.hand, ?_, hs.outcomes, ?_⟩
      · intro id hid
        exact (hs.unterwegs id hid).imp_left fun hk => hk.mono hw
      · exact hs.worker.mono hw fun _ h => h
  | arbeiter => exact hs.arbeiter hg
  | flushBeginn hf => exact absurd hg id
  | flush hp => exact absurd hg id

/-- In every interleaving of the producers and the worker, an outcome neither waits
nor is given up, and no batch of outcomes is refused: as long as every decision is
put before its outcome and every batch of decisions is committed. -/
theorem eltern_zuerst (h : ((protokoll dialekt).restrict InReihenfolge).Reach s) :
    s.deferredOutcomes = [] ∧ s.worker.verwaist = [] ∧
      ∀ bereit, s.worker = .sende bereit → (sendeErgebnisse dialekt s.db bereit).isSome := by
  have hs : Geordnet s := by
    refine h.invariant (I := Geordnet) ?_ ?_
    · intro s h0
      exact .anfang h0
    · rintro s a s' hI ⟨hs, hg⟩
      exact hs.geordnet hg hI
  refine ⟨hs.deferredOutcomes, ?_, fun bereit hw => ?_⟩
  · have hworker := hs.worker
    cases hw : s.worker with
    | teile da offen bereit verwaist =>
        rw [hw] at hworker
        exact hworker.1
    | ersetze bereit verwaist =>
        rw [hw] at hworker
        exact hworker.1
    | _ => rfl
  · have hworker := hs.worker
    rw [hw] at hworker
    refine sendeErgebnisse_isSome fun o ho => ?_
    obtain ⟨hv, id, hid, -, hk⟩ := hworker o ho
    exact ⟨hv, id, hid, hk⟩

/-- The worker takes steps, and the database answers in each of them. -/
theorem reach_arbeiter (h : ((protokoll dialekt).restrict InReihenfolge).Reach s) (n : ℕ) :
    ((protokoll dialekt).restrict InReihenfolge).Reach
      ((arbeiterSchritt dialekt .ok 0)^[n] s) := by
  induction n with
  | zero => exact h
  | succ n ih =>
      rw [Function.iterate_succ_apply']
      exact ih.step ⟨.arbeiter, fun _ _ _ => nofun⟩

/-- Two decisions and their outcomes, which the worker has sorted and sends next. -/
theorem eltern_zuerst_paare : ∃ s : Stand,
    s.worker = .sende [⟨some "d1", true, ""⟩, ⟨some "d2", true, ""⟩] ∧
      s.deferredOutcomes = [] ∧ s.worker.verwaist = [] ∧
      (sendeErgebnisse .sqlite s.db [⟨some "d1", true, ""⟩, ⟨some "d2", true, ""⟩]).isSome := by
  have h0 : ((protokoll .sqlite).restrict InReihenfolge).Reach leer := .start anfang_leer
  have h1 := h0.step ⟨Schritt.logDecision (d := ⟨"d1", true, ""⟩), rfl⟩
  have h2 := h1.step ⟨Schritt.logDecisionOutcome (o := ⟨some "d1", true, ""⟩),
    ⟨rfl, "d1", rfl, by decide, ⟨"d1", true, ""⟩, by decide, rfl⟩⟩
  have h3 := h2.step ⟨Schritt.logDecision (d := ⟨"d2", true, ""⟩), rfl⟩
  have h4 := h3.step ⟨Schritt.logDecisionOutcome (o := ⟨some "d2", true, ""⟩),
    ⟨rfl, "d2", rfl, by decide, ⟨"d2", true, ""⟩, by decide, rfl⟩⟩
  have h5 := reach_arbeiter h4 15
  obtain ⟨hdeferred, hverwaist, hsende⟩ := eltern_zuerst h5
  refine ⟨_, ?_, hdeferred, hverwaist, hsende _ ?_⟩
  · rfl
  · rfl

end

end Ergebnisse
