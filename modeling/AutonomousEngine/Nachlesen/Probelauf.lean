import AutonomousEngine.Nachlesen.Lauf

/-!
# The dry run

A dry run rolls every file back, so that it leaves the database and the directories as they were
(`unberuehrt`).  It counts what the real run does (`probelauf_berichtet`) as long as a batch
looks the same in both: a key is found in the one iff it is in the other, a decision is known to
the real run iff the dry run knows it or remembers it, and no batch raises in which one is only
remembered (`Gleich`).
-/

namespace Nachlesen

open Basis

namespace Umgebung

variable {U : Umgebung} {t : Tabelle} {ss : List U.Satz} {l lr ld : Stapellauf U}
  {probelauf : Bool} {groesse : ℕ} {heute : Date} {st sr sd : Stand U} {fs : List (Datei × Date)}

/-! ## What is left -/

variable (t groesse heute st) in
theorem dateiSchritt_probelauf (f : Datei × Date) :
    (U.dateiSchritt heute true groesse t st f).1.db = st.db ∧
      (U.dateiSchritt heute true groesse t st f).1.ablage = st.ablage ∧
      (U.dateiSchritt heute true groesse t st f).1.nachgelesen = st.nachgelesen := by
  obtain ⟨f, tag⟩ := f
  cases hok : (gelesen true groesse t st f).2 with
  | true =>
      rw [dateiSchritt_ok (Prod.ext rfl hok)]
      exact ⟨rfl, rfl, rfl⟩
  | false =>
      rw [dateiSchritt_wurf (Prod.ext rfl hok)]
      exact ⟨rfl, rfl, rfl⟩

variable (t groesse heute st fs) in
theorem lauf_probelauf :
    (feed (U.dateiSchritt heute true groesse t) st fs).1.db = st.db ∧
      (feed (U.dateiSchritt heute true groesse t) st fs).1.ablage = st.ablage ∧
      (feed (U.dateiSchritt heute true groesse t) st fs).1.nachgelesen = st.nachgelesen := by
  induction fs generalizing st with
  | nil => exact ⟨rfl, rfl, rfl⟩
  | cons f fs ih =>
      obtain ⟨hdb, hablage, hnachgelesen⟩ := dateiSchritt_probelauf t groesse heute st f
      rw [feed_cons, ← hdb, ← hablage, ← hnachgelesen]
      exact ih _

variable (t groesse heute st) in
theorem tabelleNach_probelauf :
    (U.tabelleNach heute true groesse t st).1.db = st.db ∧
      (U.tabelleNach heute true groesse t st).1.ablage = st.ablage ∧
      (U.tabelleNach heute true groesse t st).1.nachgelesen = st.nachgelesen := by
  rw [tabelleNach]
  split
  next => exact ⟨rfl, rfl, rfl⟩
  next =>
    cases dateien U t st.ablage with
    | none => exact ⟨rfl, rfl, rfl⟩
    | some fs => exact lauf_probelauf t groesse heute st fs

/-! ## A batch -/

/-- The records that are counted and not written. -/
def nurGezaehlt (t : Tabelle) (ss : List U.Satz) (l : Stapellauf U) : List U.Satz :=
  (ss.filter fun s => !U.vorhanden l.db t s.schluessel).filter fun s =>
    !U.bekannt l.db t s && l.vorgemerkt.contains s.schluessel.dict

def gezaehlt (t : Tabelle) (ss : List U.Satz) (l : Stapellauf U) : Stapellauf U :=
  { l with
    bericht := { l.bericht with
      schonVorhanden := l.bericht.schonVorhanden +
        (ss.length - (ss.filter fun s => !U.vorhanden l.db t s.schluessel).length)
      eingefuegt := l.bericht.eingefuegt + (nurGezaehlt t ss l).length }
    ohneGesamt := l.ohneGesamt + ((ss.filter fun s => !U.vorhanden l.db t s.schluessel).length -
      (ss.filter (U.offen l.db t)).length - (nurGezaehlt t ss l).length) }

def geschrieben (t : Tabelle) (probelauf : Bool) (ss : List U.Satz) (l : Stapellauf U)
    (db : U.Datenbank) : Stapellauf U :=
  { gezaehlt t ss l with
    db := db
    bericht := { (gezaehlt t ss l).bericht with
      eingefuegt := (gezaehlt t ss l).bericht.eingefuegt + (ss.filter (U.offen l.db t)).length }
    vorgemerkt :=
      if probelauf ∧ t = .decisions then
        l.vorgemerkt ++ (ss.filter (U.offen l.db t)).map fun s => s.schluessel.dict
      else l.vorgemerkt }

theorem stapel_eq (hbind : (ss.all fun s => U.bindbar s.schluessel) = true) :
    U.stapel t probelauf ss l = (U.einfuegenAlle t (ss.filter (U.offen l.db t)) l.db).elim
      (gezaehlt t ss l, false) fun db => (geschrieben t probelauf ss l db, true) := by
  rw [stapel, if_pos hbind]
  simp only [stapel_neu, ← List.contains_eq_mem]
  cases U.einfuegenAlle t (ss.filter (U.offen l.db t)) l.db with
  | none => rfl
  | some db => rfl

/-- A batch looks the same to both runs. -/
structure Gleich (t : Tabelle) (ss : List U.Satz) (lr ld : Stapellauf U) : Prop where
  vorhanden : ∀ s ∈ ss, U.vorhanden lr.db t s.schluessel = U.vorhanden ld.db t s.schluessel
  bekannt : ∀ s ∈ ss, U.vorhanden lr.db t s.schluessel = false → U.bekannt lr.db t s =
    (U.bekannt ld.db t s || ld.vorgemerkt.contains s.schluessel.dict)
  tragbar : ∀ s ∈ ss, U.offen lr.db t s = true → U.annehmen t s = .wurf → nurGezaehlt t ss ld = []

/-- Both runs have counted the same, and the real one remembers nothing. -/
structure Gleichauf (lr ld : Stapellauf U) : Prop where
  bericht : lr.bericht = ld.bericht
  ohneGesamt : lr.ohneGesamt = ld.ohneGesamt
  vorgemerkt : lr.vorgemerkt = []

theorem nurGezaehlt_of_nil (h : l.vorgemerkt = []) : nurGezaehlt t ss l = [] := by
  rw [nurGezaehlt, h]
  simp

theorem Gleich.neu (h : Gleich t ss lr ld) :
    (ss.filter fun s => !U.vorhanden lr.db t s.schluessel) =
      ss.filter fun s => !U.vorhanden ld.db t s.schluessel :=
  List.filter_congr fun s hs => by rw [h.vorhanden s hs]

/-- What the real run inserts is inserted or only counted by the dry run. -/
theorem Gleich.length (h : Gleich t ss lr ld) : (ss.filter (U.offen lr.db t)).length =
    (ss.filter (U.offen ld.db t)).length + (nurGezaehlt t ss ld).length := by
  rw [nurGezaehlt, ← h.neu, ← stapel_neu, ← stapel_neu, ← h.neu]
  have hall : ∀ s ∈ ss.filter fun s => !U.vorhanden lr.db t s.schluessel,
      U.bekannt lr.db t s =
        (U.bekannt ld.db t s || ld.vorgemerkt.contains s.schluessel.dict) := fun s hs =>
    h.bekannt s (List.mem_filter.mp hs).1 (by simpa using (List.mem_filter.mp hs).2)
  generalize (ss.filter fun s => !U.vorhanden lr.db t s.schluessel) = ns at hall
  induction ns with
  | nil => rfl
  | cons s ns ih =>
      obtain ⟨hs, hns⟩ := List.forall_mem_cons.mp hall
      have hrest := ih hns
      rw [List.filter_cons, List.filter_cons, List.filter_cons, hs]
      cases U.bekannt ld.db t s with
      | true =>
          simp only [Bool.true_or, if_true, List.length_cons, Bool.not_true, Bool.false_and,
            Bool.false_eq_true, if_false]
          omega
      | false =>
          cases ld.vorgemerkt.contains s.schluessel.dict with
          | true =>
              simp only [Bool.or_true, if_true, List.length_cons, Bool.not_false, Bool.and_self,
                Bool.false_eq_true, if_false]
              omega
          | false =>
              simp only [Bool.or_self, Bool.and_false, Bool.false_eq_true, if_false]
              exact hrest

theorem Gleich.ohneGesamt (h : Gleich t ss lr ld) (hl : Gleichauf lr ld) :
    (gezaehlt t ss lr).ohneGesamt = (gezaehlt t ss ld).ohneGesamt := by
  show lr.ohneGesamt + _ = ld.ohneGesamt + _
  rw [nurGezaehlt_of_nil hl.vorgemerkt, hl.ohneGesamt, h.neu, h.length, List.length_nil,
    Nat.sub_zero, Nat.sub_sub]

/-- A batch that goes through. -/
theorem Gleich.geschrieben (h : Gleich t ss lr ld) (hl : Gleichauf lr ld) (dbr dbd : U.Datenbank) :
    Gleichauf (Umgebung.geschrieben t false ss lr dbr) (Umgebung.geschrieben t true ss ld dbd) := by
  refine ⟨?_, h.ohneGesamt hl, hl.vorgemerkt⟩
  rw [Umgebung.geschrieben, Umgebung.geschrieben, gezaehlt, gezaehlt]
  dsimp only
  rw [nurGezaehlt_of_nil hl.vorgemerkt, hl.bericht, h.neu, h.length, List.length_nil,
    Nat.add_zero, Nat.add_right_comm, Nat.add_assoc]

/-- A batch that raises. -/
theorem Gleich.gezaehlt (h : Gleich t ss lr ld) (hl : Gleichauf lr ld)
    (hnil : nurGezaehlt t ss ld = []) :
    Gleichauf (Umgebung.gezaehlt t ss lr) (Umgebung.gezaehlt t ss ld) := by
  refine ⟨?_, h.ohneGesamt hl, hl.vorgemerkt⟩
  rw [Umgebung.gezaehlt, Umgebung.gezaehlt]
  dsimp only
  rw [nurGezaehlt_of_nil hl.vorgemerkt, hnil, hl.bericht, h.neu]

/-- A record that both runs insert. -/
theorem Gleich.offen (h : Gleich t ss lr ld) {s : U.Satz} (hs : s ∈ ss)
    (ho : U.offen ld.db t s = true) : U.offen lr.db t s = true := by
  rw [Umgebung.offen, Bool.and_eq_true, Bool.not_eq_true', ← h.vorhanden s hs] at ho
  rw [Umgebung.offen, h.bekannt s hs ho.2, ho.1, ho.2]
  rfl

theorem Gleich.offen_of_nil (h : Gleich t ss lr ld) (hnil : nurGezaehlt t ss ld = [])
    {s : U.Satz} (hs : s ∈ ss) (ho : U.offen lr.db t s = true) : U.offen ld.db t s = true := by
  rw [Umgebung.offen, Bool.and_eq_true, Bool.not_eq_true'] at ho
  have hneu := (h.vorhanden s hs).symm.trans ho.2
  have hknown := (h.bekannt s hs ho.2).symm.trans ho.1
  rw [Umgebung.offen, hneu]
  cases hd : U.bekannt ld.db t s with
  | true => rfl
  | false =>
      rw [hd, Bool.false_or] at hknown
      have hmem : s ∈ nurGezaehlt t ss ld := by
        rw [nurGezaehlt, List.mem_filter, List.mem_filter, hneu, hd, hknown]
        exact ⟨⟨hs, rfl⟩, rfl⟩
      rw [hnil] at hmem
      cases hmem

/-- A batch goes through in both runs or in none, and is counted alike. -/
theorem stapel_gleich
    (h : (ss.all fun s => U.bindbar s.schluessel) = true → Gleich t ss lr ld)
    (hl : Gleichauf lr ld) :
    (U.stapel t false ss lr).2 = (U.stapel t true ss ld).2 ∧
      Gleichauf (U.stapel t false ss lr).1 (U.stapel t true ss ld).1 := by
  cases hbind : ss.all fun s => U.bindbar s.schluessel with
  | false =>
      rw [stapel, stapel, if_neg (by simp [hbind]), if_neg (by simp [hbind])]
      exact ⟨rfl, hl⟩
  | true =>
      have hgleich := h hbind
      rw [stapel_eq hbind, stapel_eq hbind]
      by_cases hwurf : ∃ s ∈ ss, U.offen lr.db t s = true ∧ U.annehmen t s = .wurf
      · obtain ⟨s, hs, ho, hann⟩ := hwurf
        have hnil := hgleich.tragbar s hs ho hann
        have hod := hgleich.offen_of_nil hnil hs ho
        rw [einfuegenAlle_wurf (List.mem_filter.mpr ⟨hs, ho⟩) hann,
          einfuegenAlle_wurf (List.mem_filter.mpr ⟨hs, hod⟩) hann]
        exact ⟨rfl, hgleich.gezaehlt hl hnil⟩
      · have hr : ∀ s ∈ ss.filter (U.offen lr.db t), U.annehmen t s ≠ .wurf := fun s hs hann =>
          hwurf ⟨s, (List.mem_filter.mp hs).1, (List.mem_filter.mp hs).2, hann⟩
        have hd : ∀ s ∈ ss.filter (U.offen ld.db t), U.annehmen t s ≠ .wurf := fun s hs hann =>
          hwurf ⟨s, (List.mem_filter.mp hs).1,
            hgleich.offen (List.mem_filter.mp hs).1 (List.mem_filter.mp hs).2, hann⟩
        rw [einfuegenAlle_eq hr, einfuegenAlle_eq hd]
        exact ⟨rfl, hgleich.geschrieben hl _ _⟩

/-! ## A file -/

/-- The batches of a file look the same to both runs, as far as both go through. -/
def GleicheStapel (t : Tabelle) : List U.Ereignis → Stapellauf U → Stapellauf U → Prop
  | [], _, _ => True
  | .unlesbar :: es, lr, ld =>
      GleicheStapel t es (lr.zaehleUnlesbar U) (ld.zaehleUnlesbar U)
  | .wurf :: _, _, _ => True
  | .stapel ss :: es, lr, ld =>
      ((ss.all fun s => U.bindbar s.schluessel) = true → Gleich t ss lr ld) ∧
        ((U.stapel t false ss lr).2 = true →
          GleicheStapel t es (U.stapel t false ss lr).1 (U.stapel t true ss ld).1)

/-- A file goes through in both runs or in none, and is counted alike. -/
theorem verarbeite_gleich {es : List U.Ereignis} (h : GleicheStapel t es lr ld)
    (hl : Gleichauf lr ld) :
    (U.verarbeite t false es lr).2 = (U.verarbeite t true es ld).2 ∧
      Gleichauf (U.verarbeite t false es lr).1 (U.verarbeite t true es ld).1 := by
  induction es generalizing lr ld with
  | nil => exact ⟨rfl, hl⟩
  | cons e es ih =>
      cases e with
      | unlesbar =>
          refine ih h ⟨?_, hl.ohneGesamt, hl.vorgemerkt⟩
          rw [Stapellauf.zaehleUnlesbar, Stapellauf.zaehleUnlesbar, hl.bericht]
      | wurf => exact ⟨rfl, hl⟩
      | stapel ss =>
          obtain ⟨hss, hes⟩ := h
          obtain ⟨hok, hnext⟩ := stapel_gleich hss hl
          rw [verarbeite, verarbeite, ← hok]
          split
          next hgo => exact ih (hes hgo) hnext
          next => exact ⟨rfl, hnext⟩

/-- Both runs have the same reports, and the real one remembers nothing. -/
structure GleicherStand (sr sd : Stand U) : Prop where
  berichte : sr.berichte = sd.berichte
  vorgemerkt : sr.vorgemerkt = []

theorem GleicherStand.anfang (h : GleicherStand sr sd) (t : Tabelle) :
    Gleichauf (Umgebung.anfang t sr) (Umgebung.anfang t sd) := by
  refine ⟨?_, rfl, h.vorgemerkt⟩
  rw [Umgebung.anfang, Umgebung.anfang, h.berichte]

/-- The batches of a file look the same to both runs. -/
def GleicheDatei (groesse : ℕ) (t : Tabelle) (sr sd : Stand U) (f : Datei × Date) : Prop :=
  GleicheStapel t (U.ereignisse t groesse f.1.zeilen []) (anfang t sr) (anfang t sd)

variable (t groesse heute) in
theorem dateiSchritt_gleich (sr sd : Stand U) (f : Datei × Date) (hs : GleicherStand sr sd)
    (h : GleicheDatei groesse t sr sd f) :
    GleicherStand (U.dateiSchritt heute false groesse t sr f).1
      (U.dateiSchritt heute true groesse t sd f).1 := by
  obtain ⟨f, tag⟩ := f
  obtain ⟨hok, hl⟩ : (gelesen false groesse t sr f).2 = (gelesen true groesse t sd f).2 ∧
      Gleichauf (gelesen false groesse t sr f).1 (gelesen true groesse t sd f).1 :=
    verarbeite_gleich h (hs.anfang t)
  cases hr : (gelesen false groesse t sr f).2 with
  | true =>
      rw [dateiSchritt_ok (Prod.ext rfl hr), dateiSchritt_ok (Prod.ext rfl (hok.symm.trans hr))]
      refine ⟨?_, hl.vorgemerkt⟩
      dsimp only
      rw [hs.berichte, hl.bericht, hl.ohneGesamt]
  | false =>
      rw [dateiSchritt_wurf (Prod.ext rfl hr), dateiSchritt_wurf (Prod.ext rfl (hok.symm.trans hr))]
      refine ⟨?_, hl.vorgemerkt⟩
      dsimp only
      rw [hs.berichte, hl.bericht]

/-- The files of a table look the same to both runs. -/
def GleicheDateien (heute : Date) (groesse : ℕ) (t : Tabelle) (fs : List (Datei × Date))
    (sr sd : Stand U) : Prop :=
  Alongside (U.dateiSchritt heute false groesse t) (U.dateiSchritt heute true groesse t)
    (GleicheDatei groesse t) sr sd fs

theorem lauf_gleich (h : GleicheDateien heute groesse t fs sr sd) (hs : GleicherStand sr sd) :
    GleicherStand (feed (U.dateiSchritt heute false groesse t) sr fs).1
      (feed (U.dateiSchritt heute true groesse t) sd fs).1 :=
  feed_simulates (dateiSchritt_gleich t groesse heute) hs h

/-! ## Both tables -/

/-- The files of a table that is not skipped look the same to both runs. -/
def GleicheTabelle (heute : Date) (groesse : ℕ) (t : Tabelle) (sr sd : Stand U) : Prop :=
  ¬(t = .decisionOutcomes ∧ (sr.berichte .decisions).gescheitert ≠ 0) →
    ∀ fs ∈ dateien U t sr.ablage, GleicheDateien heute groesse t fs sr sd

theorem tabelleNach_gleich (h : GleicheTabelle heute groesse t sr sd) (hs : GleicherStand sr sd)
    (hablage : dateien U t sr.ablage = dateien U t sd.ablage) :
    (U.tabelleNach heute false groesse t sr).2.2 = (U.tabelleNach heute true groesse t sd).2.2 ∧
      GleicherStand (U.tabelleNach heute false groesse t sr).1
        (U.tabelleNach heute true groesse t sd).1 := by
  rw [GleicheTabelle] at h
  rw [tabelleNach, tabelleNach, ← hs.berichte, ← hablage]
  split
  next => exact ⟨rfl, hs⟩
  next hgo =>
    cases hfs : dateien U t sr.ablage with
    | none => exact ⟨rfl, hs⟩
    | some fs => exact ⟨rfl, lauf_gleich (h hgo fs hfs) hs⟩

/-- The outcomes are the same after the decisions. -/
theorem tabelleNach_ablage :
    dateien U .decisionOutcomes (U.tabelleNach heute probelauf groesse .decisions st).1.ablage =
      dateien U .decisionOutcomes st.ablage := by
  rw [tabelleNach, if_neg (by simp)]
  cases hfs : dateien U .decisions st.ablage with
  | none => rfl
  | some fs =>
      exact lauf_ablage_of_none fun f hf => muster_eq_none (muster_of_mem hfs hf).2 (by simp)

/-- Everything looks the same to both runs. -/
structure Gleichlauf (heute : Date) (groesse : ℕ) (st : Stand U) : Prop where
  decisions : GleicheTabelle heute groesse .decisions (frisch st) (frisch st)
  decisionOutcomes : (U.tabelleNach heute false groesse .decisions (frisch st)).2.2 = true →
    GleicheTabelle heute groesse .decisionOutcomes
      (U.tabelleNach heute false groesse .decisions (frisch st)).1
      (U.tabelleNach heute true groesse .decisions (frisch st)).1

/-- The dry run leaves everything as it was. -/
structure Unberuehrt (heute : Date) (groesse : ℕ) (st : Stand U) : Prop where
  db : (U.liesNach heute true groesse st).1.db = st.db
  ablage : (U.liesNach heute true groesse st).1.ablage = st.ablage
  nachgelesen : (U.liesNach heute true groesse st).1.nachgelesen = st.nachgelesen

/-- The dry run reports what the real run does: both return, with the same counts, or none does. -/
structure Vorhersage (heute : Date) (groesse : ℕ) (st : Stand U) : Prop
    extends Unberuehrt heute groesse st where
  kehrt : (U.liesNach heute true groesse st).2.2 = (U.liesNach heute false groesse st).2.2
  berichte : (U.liesNach heute true groesse st).1.berichte =
    (U.liesNach heute false groesse st).1.berichte

/-- The outcomes follow when the files of the decisions have days. -/
theorem liesNach_eq : U.liesNach heute probelauf groesse st =
    if (U.tabelleNach heute probelauf groesse .decisions (frisch st)).2.2 then
      ((U.tabelleNach heute probelauf groesse .decisionOutcomes
          (U.tabelleNach heute probelauf groesse .decisions (frisch st)).1).1,
        (U.tabelleNach heute probelauf groesse .decisions (frisch st)).2.1 ++
          (U.tabelleNach heute probelauf groesse .decisionOutcomes
            (U.tabelleNach heute probelauf groesse .decisions (frisch st)).1).2.1,
        (U.tabelleNach heute probelauf groesse .decisionOutcomes
          (U.tabelleNach heute probelauf groesse .decisions (frisch st)).1).2.2)
    else
      ((U.tabelleNach heute probelauf groesse .decisions (frisch st)).1,
        (U.tabelleNach heute probelauf groesse .decisions (frisch st)).2.1, false) := rfl

variable (heute groesse st) in
theorem unberuehrt : Unberuehrt heute groesse st := by
  obtain ⟨hdb, hablage, hnachgelesen⟩ := tabelleNach_probelauf .decisions groesse heute (frisch st)
  obtain ⟨hdb', hablage', hnachgelesen'⟩ := tabelleNach_probelauf .decisionOutcomes groesse heute
    (U.tabelleNach heute true groesse .decisions (frisch st)).1
  constructor
  case db =>
    rw [liesNach_eq]
    split
    next => exact hdb'.trans hdb
    next => exact hdb
  case ablage =>
    rw [liesNach_eq]
    split
    next => exact hablage'.trans hablage
    next => exact hablage
  case nachgelesen =>
    rw [liesNach_eq]
    split
    next => exact hnachgelesen'.trans hnachgelesen
    next => exact hnachgelesen

theorem liesNach_gleich (h : Gleichlauf heute groesse st) :
    (U.liesNach heute false groesse st).2.2 = (U.liesNach heute true groesse st).2.2 ∧
      GleicherStand (U.liesNach heute false groesse st).1 (U.liesNach heute true groesse st).1 := by
  obtain ⟨hok, hs⟩ := tabelleNach_gleich h.decisions ⟨rfl, rfl⟩ rfl
  rw [liesNach_eq, liesNach_eq, ← hok]
  split
  next hgo =>
    exact tabelleNach_gleich (h.decisionOutcomes hgo) hs
      (tabelleNach_ablage.trans tabelleNach_ablage.symm)
  next => exact ⟨rfl, hs⟩

variable (heute groesse st) in
/-- The dry run leaves everything as it was, and it reports what the real run does when everything
looks the same to both. -/
theorem probelauf_berichtet : Unberuehrt heute groesse st ∧
    (Gleichlauf heute groesse st → Vorhersage heute groesse st) := by
  refine ⟨unberuehrt groesse heute st, fun h => ?_⟩
  obtain ⟨hok, hs⟩ := liesNach_gleich h
  exact ⟨unberuehrt groesse heute st, hok.symm, hs.berichte.symm⟩

/-! ## Deciding it -/

theorem reihe_ne_wurf {Reihe : Type} (r : Reihe) : Annahme.reihe r ≠ .wurf := by simp

theorem ignoriert_ne_wurf {Reihe : Type} : (.ignoriert : Annahme Reihe) ≠ .wurf := by simp

instance {Reihe : Type} : (a : Annahme Reihe) → Decidable (a = .wurf)
  | .wurf => isTrue rfl
  | .reihe r => isFalse (reihe_ne_wurf r)
  | .ignoriert => isFalse ignoriert_ne_wurf

instance : Decidable (Gleich t ss lr ld) :=
  decidable_of_iff
    ((∀ s ∈ ss, U.vorhanden lr.db t s.schluessel = U.vorhanden ld.db t s.schluessel) ∧
      (∀ s ∈ ss, U.vorhanden lr.db t s.schluessel = false → U.bekannt lr.db t s =
        (U.bekannt ld.db t s || ld.vorgemerkt.contains s.schluessel.dict)) ∧
      ∀ s ∈ ss, U.offen lr.db t s = true → U.annehmen t s = .wurf → nurGezaehlt t ss ld = [])
    ⟨fun h => ⟨h.1, h.2.1, h.2.2⟩, fun h => ⟨h.vorhanden, h.bekannt, h.tragbar⟩⟩

instance decidableGleicheStapel : (es : List U.Ereignis) → (lr ld : Stapellauf U) →
    Decidable (GleicheStapel t es lr ld)
  | [], _, _ => isTrue trivial
  | .unlesbar :: es, lr, ld =>
      decidableGleicheStapel es (lr.zaehleUnlesbar U) (ld.zaehleUnlesbar U)
  | .wurf :: _, _, _ => isTrue trivial
  | .stapel ss :: es, lr, ld =>
      have := decidableGleicheStapel es (U.stapel t false ss lr).1 (U.stapel t true ss ld).1
      inferInstanceAs (Decidable (_ ∧ _))

instance (f : Datei × Date) : Decidable (GleicheDatei groesse t sr sd f) :=
  decidableGleicheStapel _ _ _

instance : Decidable (GleicheDateien heute groesse t fs sr sd) := decidableAlongside _ _ _ _ _ _

instance : Decidable (GleicheTabelle heute groesse t sr sd) :=
  inferInstanceAs (Decidable (_ → _))

instance : Decidable (Gleichlauf heute groesse st) :=
  decidable_of_iff (_ ∧ _) ⟨fun h => ⟨h.1, h.2⟩, fun h => ⟨h.decisions, h.decisionOutcomes⟩⟩

end Umgebung

/-! ## An example -/

/-- Two decisions, the outcomes of one of them and of another one: the dry run remembers. -/
theorem vorhersage_beideDateien : Umgebung.Vorhersage januar2 1000 beideDateien :=
  (Umgebung.probelauf_berichtet 1000 januar2 beideDateien).2 (by decide +kernel)

def doppelt : Stand sqlite :=
  stand [kaeufe "decisions_20260101.jsonl" ["d1"], kaeufe "decisions_20260102.jsonl" ["d1"]]
    (by decide)

/-- The dry run counts it twice. -/
theorem not_vorhersage_doppelt : ¬Umgebung.Vorhersage januar2 1000 doppelt := fun h =>
  absurd (congrFun h.berichte .decisions) (by decide +kernel)

end Nachlesen
