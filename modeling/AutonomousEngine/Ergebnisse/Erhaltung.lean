import AutonomousEngine.Ergebnisse.Arbeiter
import Mathlib.Data.List.Perm.Basic

/-!
# No row gets lost between the threads

Every decision and every outcome that was put into a queue is in one place: in
the queue, in the hands of the worker or of a flush, deferred, in a batch that was
sent, in a fallback file, or in a fallback write that failed (`nichts_verloren`).
It is there once, so nothing is sent twice either.

For the decisions this holds in every interleaving.  The list of the deferred
outcomes has no lock: the worker and a flush both copy it first and clear it
afterwards.  So for the outcomes the runs are those in which every clear finds the
list as its thread copied it (`Ungestoert`).
-/

namespace Ergebnisse

open Basis

def Stand.verbleibt (s : Stand) : List Outcome :=
  s.decisionOutcomeQueue ++ s.worker.hand ++ flushHand s.flush ++ s.deferredOutcomes.map Prod.fst ++
    s.outcomes.gesendet ++ s.outcomes.ersatz ++ s.outcomes.verloren

def Stand.verbleibtEntscheidung (s : Stand) : List Entscheidung :=
  s.decisionQueue ++ s.worker.handEntscheidungen ++ flushHandEntscheidungen s.flush ++
    s.decisions.gesendet ++ s.decisions.ersatz ++ s.decisions.verloren

/-- The list of the deferred outcomes is cleared with the rows that were copied. -/
def Ungestoert (s : Stand) (a : Akt) (_ : Stand) : Prop :=
  match a with
  | .arbeiter _ _ => ∀ zurueck ergebnisse, s.worker = .raeume zurueck ergebnisse →
      (s.deferredOutcomes.map Prod.fst).Perm (zurueck.map Prod.fst)
  | .flush _ _ => ∀ items, s.flush = some (.raeume items) →
      (s.deferredOutcomes.map Prod.fst).Perm items
  | _ => True

/-- What a thread has copied whose act clears the list. -/
def Stand.kopiert (s : Stand) : Akt → Option (List Outcome)
  | .arbeiter _ _ =>
      match s.worker with
      | .raeume zurueck _ => some (zurueck.map Prod.fst)
      | _ => none
  | .flush _ _ =>
      match s.flush with
      | some (.raeume items) => some items
      | _ => none
  | _ => none

theorem ungestoert_iff {s s' : Stand} {a : Akt} : Ungestoert s a s' ↔
    ∀ items ∈ s.kopiert a, (s.deferredOutcomes.map Prod.fst).Perm items := by
  cases a with
  | arbeiter ausgang k =>
      simp only [Ungestoert, Stand.kopiert]
      cases s.worker <;> simp
  | flush ausgang k =>
      simp only [Ungestoert, Stand.kopiert]
      rcases s.flush with _ | _ | _ <;> simp
  | _ => simp [Ungestoert, Stand.kopiert]

instance (s : Stand) (a : Akt) (s' : Stand) : Decidable (Ungestoert s a s') :=
  decidable_of_iff _ ungestoert_iff.symm

def Ausgeglichen (s : Stand) : Prop := s.outcomes.eingereiht.Perm s.verbleibt

def AusgeglichenEntscheidung (s : Stand) : Prop :=
  s.decisions.eingereiht.Perm s.verbleibtEntscheidung

section

variable {ι : Type} [DecidableEq ι] (v : Verbleib ι) (k : Nat) (items : List ι) (i : ι)

/-- The places of the rows that left the hands of the threads. -/
def Verbleib.fort (v : Verbleib ι) (i : ι) : Nat :=
  v.gesendet.count i + v.ersatz.count i + v.verloren.count i

@[simp] theorem Verbleib.fort_sendet : (v.sendet items).fort i = v.fort i + items.count i := by
  simp only [fort, sendet, List.count_append]
  omega

@[simp] theorem Verbleib.fort_writeFallback :
    (v.writeFallback k items).fort i = v.fort i + items.count i := by
  have hsplit : (items.take k).count i + (items.drop k).count i = items.count i := by
    rw [← List.count_append, List.take_append_drop]
  simp only [fort, writeFallback, List.count_append]
  omega

/-- Whatever the database answers, the rows of a batch leave the hands of the
thread. -/
@[simp] theorem sendBatch_fort (ausgang : Ausgang) (ziel : Option Datenbank) (db : Datenbank) :
    (sendBatch ausgang k ziel db v items).2.fort i = v.fort i + items.count i := by
  rcases sendBatch_cases ausgang k ziel db v items with ⟨db', -, heq⟩ | ⟨-, heq⟩
  · simp [heq]
  · simp [heq]

end

section

variable {dialekt : Dialekt} {ausgang : Ausgang} {k : Nat} {s s' : Stand} {a : Akt}

theorem ausgeglichen_iff : Ausgeglichen s ↔ ∀ o, s.outcomes.eingereiht.count o =
    s.decisionOutcomeQueue.count o + s.worker.hand.count o + (flushHand s.flush).count o +
      (s.deferredOutcomes.map Prod.fst).count o + s.outcomes.fort o := by
  rw [Ausgeglichen, List.perm_iff_count]
  refine forall_congr' fun o => ?_
  simp only [Stand.verbleibt, List.count_append, Verbleib.fort]
  omega

theorem ausgeglichenEntscheidung_iff : AusgeglichenEntscheidung s ↔ ∀ d,
    s.decisions.eingereiht.count d =
      s.decisionQueue.count d + s.worker.handEntscheidungen.count d +
        (flushHandEntscheidungen s.flush).count d + s.decisions.fort d := by
  rw [AusgeglichenEntscheidung, List.perm_iff_count]
  refine forall_congr' fun d => ?_
  simp only [Stand.verbleibtEntscheidung, List.count_append, Verbleib.fort]
  omega

/-! ## The outcomes -/

/-- Sorting one entry moves it, and nothing else. -/
theorem Ausgeglichen.teileEinen {da : List String} {e : Eintrag} {offen : List Eintrag}
    {bereit verwaist : List Outcome} (h : Ausgeglichen s)
    (hw : s.worker = .teile da (e :: offen) bereit verwaist) :
    Ausgeglichen (s.teileEinen da e offen bereit verwaist) := by
  rw [ausgeglichen_iff] at h ⊢
  intro o
  have ho := h o
  simp only [hw, Punkt.hand, List.map_cons, List.count_append, List.count_cons] at ho
  rw [Stand.teileEinen]
  cases sortiere da e with
  | bereit =>
      simp only [Punkt.hand, List.count_append, List.count_cons, List.count_nil]
        at ho ⊢
      omega
  | verwaist =>
      simp only [Punkt.hand, List.count_append, List.count_cons, List.count_nil]
        at ho ⊢
      omega
  | zurueck =>
      simp only [Punkt.hand, List.map_append, List.map_cons, List.map_nil, List.count_append,
        List.count_cons, List.count_nil] at ho ⊢
      omega

theorem hand_nachRaeumen (offen : List Eintrag) :
    (nachRaeumen offen).hand = offen.map Prod.fst := by
  rw [nachRaeumen]
  split
  next h => rw [h]; rfl
  next => rfl

theorem hand_nachPruefen (ausgang : Ausgang) (db : Datenbank) (offen : List Eintrag) :
    (nachPruefen ausgang db offen).hand = offen.map Prod.fst := by
  cases ausgang <;> simp [nachPruefen]

theorem map_fst_neu (ergebnisse : List Outcome) :
    (ergebnisse.map fun item => ((item, 0) : Eintrag)).map Prod.fst = ergebnisse := by
  rw [List.map_map]
  exact List.map_id ergebnisse

/-- A step of the worker. -/
theorem Ausgeglichen.arbeiter (h : Ausgeglichen s)
    (hg : ∀ zurueck ergebnisse, s.worker ≠ .raeume zurueck ergebnisse) :
    Ausgeglichen (arbeiterSchritt dialekt ausgang k s) := by
  rw [arbeiterSchritt]
  split
  next hw =>
    rw [ausgeglichen_iff] at h ⊢
    simpa [hw] using h
  next items hw =>
    rw [ausgeglichen_iff] at h ⊢
    cases hq : s.decisionOutcomeQueue with
    | nil => simpa [hq, hw] using h
    | cons o rest =>
        intro o'
        have ho := h o'
        simp only [hq, hw, List.count_cons] at ho
        simp only [Punkt.hand, List.count_append, List.count_cons, List.count_nil] at ho ⊢
        omega
  next ergebnisse items hw =>
    rw [ausgeglichen_iff] at h ⊢
    cases hq : s.decisionQueue with
    | nil => simpa [hw] using h
    | cons d rest => simpa [hw] using h
  next ergebnisse items hw =>
    rw [ausgeglichen_iff] at h ⊢
    simpa [Stand.sendDecisions, hw] using h
  next ergebnisse hw =>
    rw [ausgeglichen_iff] at h ⊢
    simpa [hw] using h
  next zurueck ergebnisse hw => exact absurd hw (hg zurueck ergebnisse)
  next offen hw =>
    rw [ausgeglichen_iff] at h ⊢
    intro o
    have ho := h o
    simp only [hw, Punkt.hand] at ho
    simp only [hand_nachPruefen]
    exact ho
  next da e offen bereit verwaist hw => exact h.teileEinen hw
  next da bereit verwaist hw =>
    rw [ausgeglichen_iff] at h ⊢
    simpa [hw] using h
  next bereit verwaist hw =>
    rw [ausgeglichen_iff] at h ⊢
    intro o
    have ho := h o
    simp only [hw, Punkt.hand, List.count_append] at ho
    simp only [Punkt.hand, Verbleib.fort_writeFallback, Verbleib.eingereiht_writeFallback] at ho ⊢
    omega
  next bereit hw =>
    rw [ausgeglichen_iff] at h ⊢
    intro o
    have ho := h o
    simp only [hw, Punkt.hand] at ho
    simp only [Stand.sendOutcomes, Punkt.hand, List.count_nil, sendBatch_eingereiht, sendBatch_fort]
      at ho ⊢
    omega

/-- The worker clears the list: its hands hold what it copied, so the balance is kept
exactly when that is what was in the list. -/
theorem Ausgeglichen.arbeiter_raeume {zurueck : List Eintrag} {ergebnisse : List Outcome}
    (h : Ausgeglichen s) (hw : s.worker = .raeume zurueck ergebnisse) :
    Ausgeglichen (arbeiterSchritt dialekt ausgang k s) ↔
      (s.deferredOutcomes.map Prod.fst).Perm (zurueck.map Prod.fst) := by
  rw [ausgeglichen_iff] at h
  rw [ausgeglichen_iff, List.perm_iff_count]
  refine forall_congr' fun o => ?_
  have ho := h o
  simp only [hw, Punkt.hand] at ho
  simp only [arbeiterSchritt, hw, hand_nachRaeumen, List.map_append, map_fst_neu,
    List.count_append, List.map_nil, List.count_nil]
  omega

/-- A flush clears the list. -/
theorem Ausgeglichen.flush_raeume {items : List Outcome} (h : Ausgeglichen s)
    (hp : s.flush = some (.raeume items)) :
    Ausgeglichen (flushSchritt dialekt ausgang k s (.raeume items)) ↔
      (s.deferredOutcomes.map Prod.fst).Perm items := by
  rw [ausgeglichen_iff] at h
  rw [ausgeglichen_iff, List.perm_iff_count]
  refine forall_congr' fun o => ?_
  have ho := h o
  simp only [hp, flushHand, FlushPunkt.hand, List.count_nil] at ho
  simp only [flushSchritt, flushHand, FlushPunkt.hand, List.map_nil, List.count_nil]
  omega

/-- A step of a flush. -/
theorem Ausgeglichen.flush {p : FlushPunkt} (h : Ausgeglichen s) (hp : s.flush = some p)
    (hg : ∀ items, p ≠ .raeume items) :
    Ausgeglichen (flushSchritt dialekt ausgang k s p) := by
  rw [ausgeglichen_iff] at h ⊢
  cases p with
  | leereEntscheidungen items =>
      rw [flushSchritt]
      cases s.decisionQueue with
      | nil => simpa [hp] using h
      | cons d rest => simpa [hp] using h
  | sendeEntscheidungen items =>
      simpa [flushSchritt, Stand.sendDecisions, hp] using h
  | kopiere => simpa [flushSchritt, hp] using h
  | raeume items => exact absurd rfl (hg items)
  | leereErgebnisse items =>
      rw [flushSchritt]
      cases hq : s.decisionOutcomeQueue with
      | nil => simpa [hp, hq] using h
      | cons o rest =>
          intro o'
          have ho := h o'
          simp only [hp, flushHand, FlushPunkt.hand, hq, List.count_cons] at ho
          simp only [flushHand, FlushPunkt.hand, List.count_append, List.count_cons,
            List.count_nil]
          omega
  | sende items =>
      intro o
      have ho := h o
      simp only [hp, flushHand, FlushPunkt.hand] at ho
      simp only [flushSchritt, Stand.sendOutcomes, flushHand, sendBatch_eingereiht, sendBatch_fort,
        List.count_nil]
      omega

/-- One step keeps the balance of the outcomes exactly when it does not clear a list
that has changed. -/
theorem Schritt.ausgeglichen_iff (h : Schritt dialekt s a s') (hs : Ausgeglichen s) :
    Ausgeglichen s' ↔ Ungestoert s a s' := by
  cases h with
  | logDecision => exact iff_of_true hs trivial
  | @logDecisionOutcome o =>
      refine iff_of_true ?_ trivial
      rw [Ergebnisse.ausgeglichen_iff] at hs ⊢
      intro o'
      have ho := hs o'
      simp only [Verbleib.reihtEin, List.count_append, List.count_cons, List.count_nil,
        Verbleib.fort] at ho ⊢
      omega
  | nachtrag => exact iff_of_true hs trivial
  | arbeiter =>
      by_cases hraeume : ∃ zurueck ergebnisse, s.worker = .raeume zurueck ergebnisse
      · obtain ⟨zurueck, ergebnisse, hw⟩ := hraeume
        rw [hs.arbeiter_raeume hw]
        constructor
        · intro hperm zurueck' ergebnisse' hw'
          obtain ⟨rfl, -⟩ := Punkt.raeume.inj (hw.symm.trans hw')
          exact hperm
        · intro hg
          exact hg zurueck ergebnisse hw
      · push Not at hraeume
        exact iff_of_true (hs.arbeiter hraeume) fun z e hw => absurd hw (hraeume z e)
  | flushBeginn hf =>
      refine iff_of_true ?_ trivial
      rw [Ergebnisse.ausgeglichen_iff] at hs ⊢
      simpa [hf] using hs
  | @flush p ausgang k hp =>
      by_cases hraeume : ∃ items, p = .raeume items
      · obtain ⟨items, rfl⟩ := hraeume
        rw [hs.flush_raeume hp]
        constructor
        · intro hperm items' hp'
          obtain rfl := FlushPunkt.raeume.inj (Option.some.inj (hp.symm.trans hp'))
          exact hperm
        · intro hg
          exact hg items hp
      · push Not at hraeume
        refine iff_of_true (hs.flush hp hraeume) fun items hp' => ?_
        exact absurd (Option.some.inj (hp.symm.trans hp')) (hraeume items)

/-! ## The decisions -/

theorem AusgeglichenEntscheidung.arbeiter (h : AusgeglichenEntscheidung s) :
    AusgeglichenEntscheidung (arbeiterSchritt dialekt ausgang k s) := by
  rw [ausgeglichenEntscheidung_iff] at h ⊢
  rw [arbeiterSchritt]
  split
  next hw => simpa [hw] using h
  next items hw =>
    cases s.decisionOutcomeQueue with
    | nil => simpa [hw] using h
    | cons o rest => simpa [hw] using h
  next ergebnisse items hw =>
    cases hq : s.decisionQueue with
    | nil => simpa [hq, hw] using h
    | cons d rest =>
        intro d'
        have hd := h d'
        simp only [hq, hw, Punkt.handEntscheidungen, List.count_cons] at hd
        simp only [Punkt.handEntscheidungen, List.count_append, List.count_cons, List.count_nil]
          at hd ⊢
        omega
  next ergebnisse items hw =>
    intro d
    have hd := h d
    simp only [hw, Punkt.handEntscheidungen] at hd
    simp only [Stand.sendDecisions, Punkt.handEntscheidungen, List.count_nil,
      sendBatch_eingereiht, sendBatch_fort] at hd ⊢
    omega
  next ergebnisse hw => simpa [hw] using h
  next zurueck ergebnisse hw =>
    intro d
    have hd := h d
    simp only [hw, Punkt.handEntscheidungen] at hd
    simp only [handEntscheidungen_nachRaeumen]
    exact hd
  next offen hw =>
    intro d
    have hd := h d
    simp only [hw, Punkt.handEntscheidungen] at hd
    simp only [handEntscheidungen_nachPruefen]
    exact hd
  next da e offen bereit verwaist hw =>
    rw [Stand.teileEinen]
    cases sortiere da e with
    | bereit => simpa [hw] using h
    | verwaist => simpa [hw] using h
    | zurueck => simpa [hw] using h
  next da bereit verwaist hw => simpa [hw] using h
  next bereit verwaist hw => simpa [hw] using h
  next bereit hw => simpa [hw, Stand.sendOutcomes] using h

theorem AusgeglichenEntscheidung.flush {p : FlushPunkt} (h : AusgeglichenEntscheidung s)
    (hp : s.flush = some p) : AusgeglichenEntscheidung (flushSchritt dialekt ausgang k s p) := by
  rw [ausgeglichenEntscheidung_iff] at h ⊢
  cases p with
  | leereEntscheidungen items =>
      rw [flushSchritt]
      cases hq : s.decisionQueue with
      | nil => simpa [hp, hq] using h
      | cons d rest =>
          intro d'
          have hd := h d'
          simp only [hp, hq, flushHandEntscheidungen, FlushPunkt.handEntscheidungen,
            List.count_cons] at hd
          simp only [flushHandEntscheidungen, FlushPunkt.handEntscheidungen, List.count_append,
            List.count_cons, List.count_nil]
          omega
  | sendeEntscheidungen items =>
      intro d
      have hd := h d
      simp only [hp, flushHandEntscheidungen, FlushPunkt.handEntscheidungen] at hd
      simp only [flushSchritt, Stand.sendDecisions, flushHandEntscheidungen,
        FlushPunkt.handEntscheidungen, sendBatch_eingereiht, sendBatch_fort, List.count_nil]
      omega
  | kopiere => simpa [flushSchritt, hp] using h
  | raeume items => simpa [flushSchritt, hp] using h
  | leereErgebnisse items =>
      rw [flushSchritt]
      cases s.decisionOutcomeQueue with
      | nil => simpa [hp] using h
      | cons o rest => simpa [hp] using h
  | sende items => simpa [flushSchritt, Stand.sendOutcomes, hp] using h

theorem Schritt.ausgeglichenEntscheidung (h : Schritt dialekt s a s')
    (hs : AusgeglichenEntscheidung s) : AusgeglichenEntscheidung s' := by
  cases h with
  | @logDecision d =>
      rw [ausgeglichenEntscheidung_iff] at hs ⊢
      intro d'
      have hd := hs d'
      simp only [Verbleib.reihtEin, List.count_append, List.count_cons, List.count_nil,
        Verbleib.fort] at hd ⊢
      omega
  | logDecisionOutcome => exact hs
  | nachtrag => exact hs
  | arbeiter => exact hs.arbeiter
  | flushBeginn hf =>
      rw [ausgeglichenEntscheidung_iff] at hs ⊢
      simpa [hf] using hs
  | flush hp => exact hs.flush hp

/-! ## Runs -/

theorem Anfang.ausgeglichen (h : Anfang s) : Ausgeglichen s ∧ AusgeglichenEntscheidung s := by
  constructor
  · simp [Ausgeglichen, Stand.verbleibt, h.outcomes, h.decisionOutcomeQueue,
      h.deferredOutcomes, h.worker, h.flush]
  · simp [AusgeglichenEntscheidung, Stand.verbleibtEntscheidung,
      h.decisions, h.decisionQueue, h.worker, h.flush]

/-- Every decision that was put into the queue is in one place. -/
theorem entscheidung_ausgeglichen (h : (protokoll dialekt).Reach s) :
    AusgeglichenEntscheidung s := by
  refine h.invariant (I := AusgeglichenEntscheidung) ?_ ?_
  · intro s h0
    exact h0.ausgeglichen.2
  · intro s a s' hI hs
    exact hs.ausgeglichenEntscheidung hI

/-- In every interleaving of the producers, the worker and a flush, every decision that was put
into the queue is in one place.  So is every outcome, as long as the list of the deferred outcomes
is only cleared with the rows that were copied, and the first clear of a list that has changed
breaks it. -/
theorem nichts_verloren :
    ((protokoll dialekt).Reach s → s.decisions.eingereiht.Perm s.verbleibtEntscheidung) ∧
      (((protokoll dialekt).restrict Ungestoert).Reach s →
        s.outcomes.eingereiht.Perm s.verbleibt ∧ ∀ a s', Schritt dialekt s a s' →
          (s'.outcomes.eingereiht.Perm s'.verbleibt ↔ Ungestoert s a s')) := by
  refine ⟨entscheidung_ausgeglichen, fun h => ?_⟩
  have houtcomes : Ausgeglichen s := by
    refine h.invariant (I := Ausgeglichen) ?_ ?_
    · intro s h0
      exact h0.ausgeglichen.1
    · rintro s a s' hI ⟨hs, hg⟩
      exact (hs.ausgeglichen_iff hI).mpr hg
  exact ⟨houtcomes, fun a s' hs => hs.ausgeglichen_iff houtcomes⟩

/-- The state behind acts, when no clear finds a list that has changed. -/
def Stand.tueUngestoert (s : Stand) (a : Akt) : Option Stand :=
  (s.tue .sqlite a).filter fun s' => Ungestoert s a s'

theorem reach_tueUngestoert {as : List Akt} (h : as.foldlM Stand.tueUngestoert leer = some s) :
    ((protokoll .sqlite).restrict Ungestoert).Reach s := by
  refine .foldlM (fun c a c' hnext => ?_) (.start anfang_leer) h
  obtain ⟨hstep, hguard⟩ := Option.filter_eq_some_iff.mp hnext
  exact ⟨schritt_iff.mpr hstep, of_decide_eq_true hguard⟩

end

/-- The worker defers the outcome of a decision that is logged behind its cycle, and a flush copies
it, while the worker has not sent the other outcome yet. -/
def zurueckgestellt : List Akt :=
  [.logDecision ⟨"d1", true, ""⟩, .logDecisionOutcome ⟨some "d1", true, ""⟩,
    .logDecisionOutcome ⟨some "d2", true, ""⟩] ++
  List.replicate 14 (.arbeiter .ok 0) ++ [.logDecision ⟨"d2", true, ""⟩, .flushBeginn] ++
  List.replicate 4 (.flush .ok 0)

/-- The flush clears the list and sends what it copied.  Where the worker copies the list before
it is cleared, the outcome is in two places, and the decisions are still in one. -/
theorem nichts_verloren_flush :
    (∃ s : Stand, s.decisions.gesendet = [⟨"d1", true, ""⟩, ⟨"d2", true, ""⟩] ∧
      s.outcomes.gesendet = [⟨some "d2", true, ""⟩, ⟨some "d1", true, ""⟩] ∧
      s.decisions.eingereiht.Perm s.verbleibtEntscheidung ∧
      s.outcomes.eingereiht.Perm s.verbleibt) ∧
    ∃ s : Stand, ¬s.outcomes.eingereiht.Perm s.verbleibt ∧
      s.decisions.eingereiht.Perm s.verbleibtEntscheidung := by
  constructor
  · have hrun : ((zurueckgestellt ++ List.replicate 3 (Akt.flush .ok 0) ++
        [Akt.arbeiter .ok 0]).foldlM Stand.tueUngestoert leer).map
          (fun s : Stand => (s.decisions.gesendet, s.outcomes.gesendet)) =
        some ([⟨"d1", true, ""⟩, ⟨"d2", true, ""⟩],
          [⟨some "d2", true, ""⟩, ⟨some "d1", true, ""⟩]) := by decide +kernel
    obtain ⟨s, hs, hsent⟩ := Option.map_eq_some_iff.mp hrun
    have hreach := reach_tueUngestoert hs
    exact ⟨s, congrArg Prod.fst hsent, congrArg Prod.snd hsent,
      nichts_verloren.1 hreach.of_restrict, (nichts_verloren.2 hreach).1⟩
  · have hrun : ((zurueckgestellt ++ List.replicate 6 (Akt.arbeiter .ok 0) ++
        [Akt.flush .ok 0, .arbeiter .ok 0]).foldlM (Stand.tue .sqlite) leer).map
          (fun s : Stand => decide (s.outcomes.eingereiht.Perm s.verbleibt)) = some false := by
      decide +kernel
    obtain ⟨s, hs, hperm⟩ := Option.map_eq_some_iff.mp hrun
    have hreach : (protokoll .sqlite).Reach s :=
      .foldlM (fun c a c' hnext => schritt_iff.mpr hnext) (.start anfang_leer) hs
    exact ⟨s, of_decide_eq_false hperm, nichts_verloren.1 hreach⟩

end Ergebnisse
