import AutonomousEngine.Basis.Absorb
import AutonomousEngine.Nachlesen.Ablage

/-!
# One file

The lines of a file fill a dictionary, and a full dictionary is a batch, in which the last record
of a key takes the place of the first.  What the batches are does not depend on the database
(`zeilenLauf_eq`).  They go into a table that keeps the first row of a key.

A file is clear (`Klar`) when what its records make does not depend on the batches: records of
one key make the same row.  Then it goes through and leaves the same table whatever the size of a
batch (`verarbeite_klar`).  It is stuck (`Fest`) when a line raises, or all records of a key that
is to be inserted.  Then it fails whatever the size (`verarbeite_fest`).
-/

namespace Nachlesen

open Basis

variable (U : Umgebung)

def Stapellauf.zaehleUnlesbar (l : Stapellauf U) : Stapellauf U :=
  { l with bericht := { l.bericht with unlesbar := l.bericht.unlesbar + 1 } }

namespace Umgebung

/-! ## Events -/

/-- What the lines of a file bring to the database. -/
inductive Ereignis where
  | unlesbar
  | wurf
  | stapel (ss : List U.Satz)

/-- The events of some lines behind a dictionary. -/
def ereignisse (t : Tabelle) (groesse : ℕ) :
    List (List Char) → List (DictSchluessel U.Zahl × U.Satz) → List U.Ereignis
  | [], D => if D = [] then [] else [.stapel (D.map Prod.snd)]
  | zeile :: zeilen, D =>
      match U.lesen t zeile with
      | .leer => ereignisse t groesse zeilen D
      | .unlesbar => .unlesbar :: ereignisse t groesse zeilen D
      | .wurf => [.wurf]
      | .satz s =>
          if groesse ≤ (dictSet s.schluessel.dict s D).length then
            .stapel ((dictSet s.schluessel.dict s D).map Prod.snd) ::
              ereignisse t groesse zeilen []
          else ereignisse t groesse zeilen (dictSet s.schluessel.dict s D)

/-- Events one after the other, up to one that raises. -/
def verarbeite (t : Tabelle) (probelauf : Bool) :
    List U.Ereignis → Stapellauf U → Stapellauf U × Bool
  | [], l => (l, true)
  | .unlesbar :: es, l => verarbeite t probelauf es (l.zaehleUnlesbar U)
  | .wurf :: _, l => (l, false)
  | .stapel ss :: es, l =>
      if (U.stapel t probelauf ss l).2 then verarbeite t probelauf es (U.stapel t probelauf ss l).1
      else ((U.stapel t probelauf ss l).1, false)

/-- The lines of a file are their events. -/
theorem zeilenLauf_eq (t : Tabelle) (probelauf : Bool) (groesse : ℕ) (zeilen : List (List Char))
    (D : List (DictSchluessel U.Zahl × U.Satz)) (l : Stapellauf U) :
    U.zeilenLauf t probelauf groesse zeilen D l =
      U.verarbeite t probelauf (U.ereignisse t groesse zeilen D) l := by
  induction zeilen generalizing D l with
  | nil =>
      rw [zeilenLauf, ereignisse]
      split
      next => rfl
      next =>
        rw [verarbeite]
        cases h : (U.stapel t probelauf (D.map Prod.snd) l).2 with
        | true => exact Prod.ext rfl h
        | false => exact Prod.ext rfl h
  | cons zeile zeilen ih =>
      rw [zeilenLauf, ereignisse]
      cases U.lesen t zeile with
      | leer => exact ih D l
      | unlesbar => exact ih D _
      | wurf => rfl
      | satz s =>
          dsimp only
          split
          next =>
            rw [verarbeite]
            cases h : (U.stapel t probelauf ((dictSet s.schluessel.dict s D).map Prod.snd) l).2 with
            | true => exact ih [] _
            | false => rfl
          next => exact ih _ l

/-! ## Records -/

def saetze (t : Tabelle) (zeilen : List (List Char)) : List U.Satz :=
  zeilen.filterMap fun zeile =>
    match U.lesen t zeile with
    | .satz s => some s
    | _ => none

/-- Whether a record is to be inserted: its key is not found, and its decision is known. -/
def offen (db : U.Datenbank) (t : Tabelle) (s : U.Satz) : Bool :=
  U.bekannt db t s && !U.vorhanden db t s.schluessel

/-- The row that SQLite makes of a record, under its key. -/
def zeileVon (t : Tabelle) (s : U.Satz) : Option (Text × U.Reihe) :=
  match U.annehmen t s with
  | .reihe r => some (s.schluessel.gespeichert, r)
  | _ => none

/-- The row of a record that is to be inserted. -/
def neueZeile (db : U.Datenbank) (t : Tabelle) (s : U.Satz) : Option (Text × U.Reihe) :=
  if U.offen db t s then U.zeileVon t s else none

/-- The database after the records of some lines, one by one. -/
def nachZeilen (db : U.Datenbank) (t : Tabelle) (zeilen : List (List Char)) : U.Datenbank :=
  Function.update db t (absorb (U.neueZeile db t) (U.saetze t zeilen) (db t))

/-- A file whose lines say the same in every batch.  The last but one condition is for a file
that is set aside. -/
structure Klar (db : U.Datenbank) (t : Tabelle) (beiseite : Bool) (zeilen : List (List Char)) :
    Prop where
  lesbar : ∀ zeile ∈ zeilen, U.lesen t zeile ≠ .wurf
  bindbar : ∀ s ∈ U.saetze t zeilen, U.bindbar s.schluessel = true
  tragbar : ∀ s ∈ U.saetze t zeilen, U.offen db t s = true → U.annehmen t s ≠ .wurf
  voll : beiseite = true → ∀ s ∈ U.saetze t zeilen, U.offen db t s = true →
    U.annehmen t s ≠ .ignoriert
  einig : ∀ s ∈ U.saetze t zeilen, ∀ s' ∈ U.saetze t zeilen,
    s.schluessel.dict = s'.schluessel.dict → U.offen db t s = true →
      U.zeileVon t s = U.zeileVon t s'

/-- A file that fails: by a line, or by a record that no other of its key stands in for. -/
inductive Fest (db : U.Datenbank) (t : Tabelle) (zeilen : List (List Char)) : Prop
  | zeile {zeile : List Char} (hzeile : zeile ∈ zeilen) (hwurf : U.lesen t zeile = .wurf)
  | unbindbar {s : U.Satz} (hs : s ∈ U.saetze t zeilen)
      (hall : ∀ s' ∈ U.saetze t zeilen, s'.schluessel.dict = s.schluessel.dict →
        U.bindbar s'.schluessel = false)
  | abgewiesen {s : U.Satz} (hs : s ∈ U.saetze t zeilen) (hoffen : U.offen db t s = true)
      (hall : ∀ s' ∈ U.saetze t zeilen, s'.schluessel.dict = s.schluessel.dict ∨
        s.schluessel = .text s'.schluessel.gespeichert → U.annehmen t s' = .wurf)

section

variable {U} {db : U.Datenbank} {t : Tabelle} {s s' : U.Satz} {m : Text → Option U.Reihe}

theorem zeileVon_eq_some {k : Text} {r : U.Reihe} : U.zeileVon t s = some (k, r) ↔
    U.annehmen t s = .reihe r ∧ s.schluessel.gespeichert = k := by
  rw [zeileVon]
  cases U.annehmen t s with
  | reihe r' => simp [and_comm]
  | ignoriert => simp
  | wurf => simp

theorem vorhanden_congr (h : s.schluessel.dict = s'.schluessel.dict) :
    U.vorhanden db t s.schluessel = U.vorhanden db t s'.schluessel := by
  cases hs : s.schluessel with
  | text us =>
      cases hs' : s'.schluessel with
      | text us' =>
          rw [hs, hs'] at h
          cases h
          rfl
      | zahl z als => rw [hs, hs'] at h; cases h
  | zahl z als =>
      cases hs' : s'.schluessel with
      | text us' => rw [hs, hs'] at h; cases h
      | zahl z' als' => rfl

theorem offen_congr (h : s.schluessel.dict = s'.schluessel.dict) :
    U.offen db t s = U.offen db t s' := by
  rw [offen, offen, bekannt, bekannt, vorhanden_congr h, vorhanden_congr h]

/-- Whether the decision of a record is known depends on the decisions. -/
theorem bekannt_congr {db' : U.Datenbank}
    (h : t ≠ .decisions → db' .decisions = db .decisions) :
    U.bekannt db' t s = U.bekannt db t s := by
  cases t with
  | decisions => rfl
  | decisionOutcomes =>
      rw [bekannt, bekannt]
      cases s.schluessel with
      | text us => rw [vorhanden, vorhanden, h (by simp)]
      | zahl z als => rfl

/-- Whether a record is to be inserted depends on its key and on the decisions. -/
theorem offen_eq_of {db' : U.Datenbank}
    (hkey : ∀ us, s.schluessel = .text us → db' t us = db t us)
    (hother : t ≠ .decisions → db' .decisions = db .decisions) :
    U.offen db' t s = U.offen db t s := by
  have hvor : U.vorhanden db' t s.schluessel = U.vorhanden db t s.schluessel := by
    cases hs : s.schluessel with
    | text us => exact congrArg Option.isSome (hkey us hs)
    | zahl z als => rfl
  rw [offen, offen, hvor, bekannt_congr hother]

theorem bekannt_update : U.bekannt (Function.update db t m) t s = U.bekannt db t s :=
  bekannt_congr fun ht => Function.update_of_ne (Ne.symm ht) m db

theorem vorhanden_of_le {db' : U.Datenbank} (h : ∀ k, (db t k).isSome → (db' t k).isSome)
    (hs : U.vorhanden db t s.schluessel = true) : U.vorhanden db' t s.schluessel = true := by
  cases hkey : s.schluessel with
  | text us =>
      rw [hkey] at hs
      exact h us hs
  | zahl z als => rw [hkey] at hs; cases hs

/-- The key of a record that is found is taken. -/
theorem isSome_of_vorhanden (h : U.vorhanden db t s.schluessel = true) :
    (db t s.schluessel.gespeichert).isSome := by
  cases hkey : s.schluessel with
  | text us =>
      rw [hkey] at h
      exact h
  | zahl z als => rw [hkey] at h; cases h

theorem offen_of_update (hm : ∀ k, (db t k).isSome → (m k).isSome)
    (h : U.offen (Function.update db t m) t s = true) : U.offen db t s = true := by
  rw [offen, bekannt_update, Bool.and_eq_true, Bool.not_eq_true'] at h
  rw [offen, h.1, Bool.true_and, Bool.not_eq_true']
  rw [← Bool.not_eq_true]
  intro hvor
  have hthere : U.vorhanden (Function.update db t m) t s.schluessel = true :=
    vorhanden_of_le (by rwa [Function.update_self]) hvor
  rw [h.2] at hthere
  cases hthere

/-! ## A batch -/

theorem einfuegenAlle_eq {ss : List U.Satz} (h : ∀ s ∈ ss, U.annehmen t s ≠ .wurf) :
    U.einfuegenAlle t ss db = some (Function.update db t (absorb (U.zeileVon t) ss (db t))) := by
  induction ss generalizing db with
  | nil => rw [einfuegenAlle, absorb_nil, Function.update_eq_self]
  | cons s ss ih =>
      have hstep : U.einfuegen t s db =
          some (Function.update db t (keep (U.zeileVon t s) (db t))) := by
        rw [einfuegen, zeileVon]
        cases hs : U.annehmen t s with
        | wurf => exact absurd hs (h s (.head _))
        | ignoriert => rw [keep_none, Function.update_eq_self]
        | reihe r =>
            dsimp only [keep]
            split
            next => rw [Function.update_eq_self]
            next => rfl
      rw [einfuegenAlle, hstep, Option.bind_some, ih fun s' hs' => h s' (.tail _ hs'),
        Function.update_self, Function.update_idem, absorb_cons]

theorem einfuegenAlle_wurf {ss : List U.Satz} (hs : s ∈ ss) (h : U.annehmen t s = .wurf) :
    U.einfuegenAlle t ss db = none := by
  induction ss generalizing db with
  | nil => cases hs
  | cons s' ss ih =>
      rw [einfuegenAlle]
      rcases List.mem_cons.mp hs with rfl | hs
      · rw [einfuegen, h, Option.bind_none]
      · cases U.einfuegen t s' db with
        | none => rfl
        | some db' => exact ih hs

variable {probelauf : Bool} {ss : List U.Satz} {l : Stapellauf U}

theorem stapel_neu : (ss.filter fun s => !U.vorhanden db t s.schluessel).filter
    (fun s => U.bekannt db t s) = ss.filter (U.offen db t) := List.filter_filter

variable (probelauf) in
/-- A batch goes through: every key is a parameter, and no record to insert raises. -/
theorem stapel_ok (hbind : ∀ s ∈ ss, U.bindbar s.schluessel = true)
    (h : ∀ s ∈ ss, U.offen l.db t s = true → U.annehmen t s ≠ .wurf) :
    (U.stapel t probelauf ss l).2 = true ∧ (U.stapel t probelauf ss l).1.db =
      Function.update l.db t (absorb (U.zeileVon t) (ss.filter (U.offen l.db t)) (l.db t)) := by
  have hall : ∀ s ∈ ss.filter (U.offen l.db t), U.annehmen t s ≠ .wurf := fun s hs =>
    h s (List.mem_filter.mp hs).1 (List.mem_filter.mp hs).2
  rw [stapel, if_pos (List.all_eq_true.mpr hbind)]
  simp only [stapel_neu, einfuegenAlle_eq hall, and_self]

theorem stapel_unbindbar (hs : s ∈ ss) (h : U.bindbar s.schluessel = false) :
    (U.stapel t probelauf ss l).2 = false := by
  rw [stapel, if_neg]
  intro hall
  rw [List.all_eq_true.mp hall s hs] at h
  cases h

theorem stapel_wurf (hs : s ∈ ss) (hoffen : U.offen l.db t s = true)
    (h : U.annehmen t s = .wurf) : (U.stapel t probelauf ss l).2 = false := by
  rw [stapel]
  split
  next =>
    have hnone : U.einfuegenAlle t (ss.filter (U.offen l.db t)) l.db = none :=
      einfuegenAlle_wurf (List.mem_filter.mpr ⟨hs, hoffen⟩) h
    simp only [stapel_neu, hnone]
  next => rfl

/-! ## A clear file -/

/-- Records that say the same in every order of theirs with one key, and raise nothing. -/
structure Vertraeglich (U : Umgebung) (db : U.Datenbank) (t : Tabelle) (R : List U.Satz) :
    Prop where
  bindbar : ∀ s ∈ R, U.bindbar s.schluessel = true
  tragbar : ∀ s ∈ R, U.offen db t s = true → U.annehmen t s ≠ .wurf
  einig : ∀ s ∈ R, ∀ s' ∈ R, s.schluessel.dict = s'.schluessel.dict → U.offen db t s = true →
    U.zeileVon t s = U.zeileVon t s'

theorem Vertraeglich.neueZeile_eq {R : List U.Satz} (h : Vertraeglich U db t R) (hs : s ∈ R)
    (hs' : s' ∈ R) (hdict : s.schluessel.dict = s'.schluessel.dict) :
    U.neueZeile db t s = U.neueZeile db t s' := by
  rw [neueZeile, neueZeile, ← offen_congr hdict]
  split
  next hoffen => exact h.einig s hs s' hs' hdict hoffen
  next => rfl

variable (probelauf) in
/-- A batch of such records puts their rows into a table that has grown. -/
theorem stapel_vertraeglich {R : List U.Satz} (h : Vertraeglich U db t R)
    (hl : l.db = Function.update db t m) (hm : ∀ k, (db t k).isSome → (m k).isSome)
    (hss : ∀ s ∈ ss, s ∈ R) :
    (U.stapel t probelauf ss l).2 = true ∧ (U.stapel t probelauf ss l).1.db =
      Function.update db t (absorb (U.neueZeile db t) ss m) := by
  have hoffen : ∀ s, U.offen l.db t s = true → U.offen db t s = true := fun s hs =>
    offen_of_update hm (hl ▸ hs)
  obtain ⟨hok, hdb⟩ := stapel_ok probelauf (l := l)
    (fun s hs => h.bindbar s (hss s hs)) fun s hs ho => h.tragbar s (hss s hs) (hoffen s ho)
  refine ⟨hok, ?_⟩
  have hrows : absorb (U.zeileVon t) (ss.filter (U.offen l.db t)) m =
      absorb (U.neueZeile db t) (ss.filter (U.offen l.db t)) m := by
    refine absorb_congr fun s hs => ?_
    rw [neueZeile, if_pos (hoffen s (List.mem_filter.mp hs).2)]
  have hfilter : absorb (U.neueZeile db t) (ss.filter (U.offen l.db t)) m =
      absorb (U.neueZeile db t) ss m := by
    refine absorb_filter fun s hs hfalse k r hrow => ?_
    rw [neueZeile] at hrow
    split at hrow
    next ho =>
      obtain ⟨-, hkey⟩ := zeileVon_eq_some.mp hrow
      rw [offen, Bool.and_eq_true] at ho
      rw [offen, hl, bekannt_update, ho.1, Bool.true_and, Bool.not_eq_false'] at hfalse
      have hthere := isSome_of_vorhanden hfalse
      rwa [Function.update_self, hkey] at hthere
    next => cases hrow
  rw [hdb, hl, Function.update_idem, Function.update_self, ← hfilter, ← hrows, hl]

theorem saetze_cons (zeile : List Char) (zeilen : List (List Char)) :
    U.saetze t (zeile :: zeilen) = U.saetze t [zeile] ++ U.saetze t zeilen := by
  rw [saetze, saetze, saetze, ← List.filterMap_append]
  rfl

theorem saetze_of_satz {zeile : List Char} (h : U.lesen t zeile = .satz s) :
    U.saetze t [zeile] = [s] := by
  simp [saetze, h]

theorem saetze_of_leer {zeile : List Char}
    (h : U.lesen t zeile = .leer ∨ U.lesen t zeile = .unlesbar) : U.saetze t [zeile] = [] := by
  rcases h with h | h <;> simp [saetze, h]

/-- The entries of a dictionary of records stand under the keys of the records. -/
def Verschluesselt (D : List (DictSchluessel U.Zahl × U.Satz)) : Prop :=
  ∀ e ∈ D, e.1 = e.2.schluessel.dict

theorem Verschluesselt.dictSet {D : List (DictSchluessel U.Zahl × U.Satz)}
    (h : Verschluesselt D) (s : U.Satz) :
    Verschluesselt (Basis.dictSet s.schluessel.dict s D) := by
  intro e he
  rcases of_mem_dictSet he with rfl | he
  · rfl
  · exact h e he

theorem forall_dictSet {R : List U.Satz} {D : List (DictSchluessel U.Zahl × U.Satz)}
    {k : DictSchluessel U.Zahl} (hs : s ∈ R) (hD : ∀ s' ∈ D.map Prod.snd, s' ∈ R) :
    ∀ s' ∈ (Basis.dictSet k s D).map Prod.snd, s' ∈ R := by
  intro s' hs'
  obtain ⟨e, he, rfl⟩ := List.mem_map.mp hs'
  rcases of_mem_dictSet he with rfl | he
  · exact hs
  · exact hD e.2 (List.mem_map_of_mem he)

/-- Lines go through whatever the size of a batch, behind records in a dictionary and a table
that has grown. -/
theorem verarbeite_vertraeglich {R : List U.Satz} (h : Vertraeglich U db t R) (groesse : ℕ)
    {zeilen : List (List Char)} (hlesbar : ∀ zeile ∈ zeilen, U.lesen t zeile ≠ .wurf)
    (hzeilen : ∀ s ∈ U.saetze t zeilen, s ∈ R) {D : List (DictSchluessel U.Zahl × U.Satz)}
    (hD : Verschluesselt D) (hDR : ∀ s ∈ D.map Prod.snd, s ∈ R)
    (hl : l.db = Function.update db t m) (hm : ∀ k, (db t k).isSome → (m k).isSome) :
    (U.verarbeite t probelauf (U.ereignisse t groesse zeilen D) l).2 = true ∧
      (U.verarbeite t probelauf (U.ereignisse t groesse zeilen D) l).1.db =
        Function.update db t
          (absorb (U.neueZeile db t) (D.map Prod.snd ++ U.saetze t zeilen) m) := by
  induction zeilen generalizing D l m with
  | nil =>
      have hsaetze : U.saetze t [] = [] := rfl
      rw [ereignisse, hsaetze, List.append_nil]
      split
      next hnil =>
        subst hnil
        exact ⟨rfl, hl⟩
      next =>
        obtain ⟨hok, hdb⟩ := stapel_vertraeglich probelauf h hl hm hDR
        rw [verarbeite, if_pos hok]
        exact ⟨rfl, hdb⟩
  | cons zeile zeilen ih =>
      obtain ⟨hzeile, hrest⟩ := List.forall_mem_cons.mp hlesbar
      rw [saetze_cons] at hzeilen ⊢
      have hzeilen' : ∀ s ∈ U.saetze t zeilen, s ∈ R := fun s hs =>
        hzeilen s (List.mem_append_right _ hs)
      rw [ereignisse]
      cases hlesen : U.lesen t zeile with
      | leer =>
          rw [saetze_of_leer (.inl hlesen), List.nil_append]
          exact ih hrest hzeilen' hD hDR hl hm
      | unlesbar =>
          rw [saetze_of_leer (.inr hlesen), List.nil_append]
          exact ih hrest hzeilen' hD hDR hl hm
      | wurf => exact absurd hlesen hzeile
      | satz s =>
          rw [saetze_of_satz hlesen] at hzeilen ⊢
          have hs : s ∈ R := hzeilen s (List.mem_append_left _ (List.mem_singleton_self s))
          have hDR' : ∀ s' ∈ (Basis.dictSet s.schluessel.dict s D).map Prod.snd, s' ∈ R :=
            forall_dictSet hs hDR
          have hset : ∀ m : Text → Option U.Reihe,
              absorb (U.neueZeile db t) ((Basis.dictSet s.schluessel.dict s D).map Prod.snd) m =
                absorb (U.neueZeile db t) (D.map Prod.snd ++ [s]) m := fun m =>
            absorb_dictSet fun e he hkey =>
              h.neueZeile_eq (hDR e.2 (List.mem_map_of_mem he)) hs ((hD e he).symm.trans hkey)
          rw [← List.append_assoc, absorb_append, ← hset]
          dsimp only
          split
          next =>
            obtain ⟨hok, hdb⟩ := stapel_vertraeglich probelauf h hl hm hDR'
            rw [verarbeite, if_pos hok]
            have hgrown := ih hrest hzeilen' (D := []) (fun e he => absurd he List.not_mem_nil)
              (fun s' hs' => absurd hs' List.not_mem_nil) hdb fun k hk =>
                isSome_absorb_of_isSome (hm k hk)
            exact hgrown
          next =>
            have hmore := ih hrest hzeilen' (hD.dictSet s) hDR' hl hm
            rwa [absorb_append] at hmore

/-- A clear file goes through and leaves the rows of its records, one by one. -/
theorem verarbeite_klar {beiseite : Bool} {zeilen : List (List Char)}
    (h : U.Klar db t beiseite zeilen) (groesse : ℕ) (hl : l.db = db) :
    (U.verarbeite t probelauf (U.ereignisse t groesse zeilen []) l).2 = true ∧
      (U.verarbeite t probelauf (U.ereignisse t groesse zeilen []) l).1.db =
        U.nachZeilen db t zeilen := by
  have hvertraeglich : Vertraeglich U db t (U.saetze t zeilen) :=
    ⟨h.bindbar, h.tragbar, h.einig⟩
  refine verarbeite_vertraeglich hvertraeglich groesse h.lesbar (fun s hs => hs)
    (fun e he => absurd he List.not_mem_nil) (fun s hs => absurd hs List.not_mem_nil) ?_
    fun k hk => hk
  rw [hl, Function.update_eq_self]

/-! ## A stuck file -/

theorem mem_keys_dictSet {D : List (DictSchluessel U.Zahl × U.Satz)}
    {k k' : DictSchluessel U.Zahl} (h : k ∈ D.map Prod.fst) :
    k ∈ (Basis.dictSet k' s D).map Prod.fst := by
  obtain ⟨e, he, rfl⟩ := List.mem_map.mp h
  by_cases hkey : e.1 = k'
  · rw [hkey]
    exact List.mem_map_of_mem (mem_dictSet k' s D)
  · exact List.mem_map_of_mem (mem_dictSet_of_ne s he hkey)

theorem Verschluesselt.exists_satz {D : List (DictSchluessel U.Zahl × U.Satz)}
    (h : Verschluesselt D) {k : DictSchluessel U.Zahl} (hk : k ∈ D.map Prod.fst) :
    ∃ s ∈ D.map Prod.snd, s.schluessel.dict = k := by
  obtain ⟨e, he, rfl⟩ := List.mem_map.mp hk
  exact ⟨e.2, List.mem_map_of_mem he, (h e he).symm⟩

/-- Lines fail when a batch with one of their keys does, and no batch without it helps. -/
theorem verarbeite_haengt {R : List U.Satz} {k : DictSchluessel U.Zahl} {I : U.Datenbank → Prop}
    (hfail : ∀ {l : Stapellauf U} {ss : List U.Satz}, I l.db → (∀ s ∈ ss, s ∈ R) →
      (∃ s ∈ ss, s.schluessel.dict = k) → (U.stapel t probelauf ss l).2 = false)
    (hkeep : ∀ {l : Stapellauf U} {ss : List U.Satz}, I l.db → (∀ s ∈ ss, s ∈ R) →
      (U.stapel t probelauf ss l).2 = true → I (U.stapel t probelauf ss l).1.db)
    (groesse : ℕ) {zeilen : List (List Char)} (hzeilen : ∀ s ∈ U.saetze t zeilen, s ∈ R)
    {D : List (DictSchluessel U.Zahl × U.Satz)} (hD : Verschluesselt D)
    (hDR : ∀ s ∈ D.map Prod.snd, s ∈ R) (hI : I l.db)
    (hk : k ∈ D.map Prod.fst ∨ ∃ s ∈ U.saetze t zeilen, s.schluessel.dict = k) :
    (U.verarbeite t probelauf (U.ereignisse t groesse zeilen D) l).2 = false := by
  induction zeilen generalizing D l with
  | nil =>
      have hkD : k ∈ D.map Prod.fst := hk.resolve_right fun hex => by
        obtain ⟨s, hs, -⟩ := hex
        cases hs
      rw [ereignisse, if_neg (fun hnil => by rw [hnil] at hkD; cases hkD), verarbeite, if_neg]
      rw [hfail hI hDR (hD.exists_satz hkD)]
      exact Bool.false_ne_true
  | cons zeile zeilen ih =>
      rw [saetze_cons] at hzeilen hk
      have hzeilen' : ∀ s ∈ U.saetze t zeilen, s ∈ R := fun s hs =>
        hzeilen s (List.mem_append_right _ hs)
      rw [ereignisse]
      cases hlesen : U.lesen t zeile with
      | leer =>
          rw [saetze_of_leer (.inl hlesen), List.nil_append] at hk
          exact ih hzeilen' hD hDR hI hk
      | unlesbar =>
          rw [saetze_of_leer (.inr hlesen), List.nil_append] at hk
          exact ih hzeilen' hD hDR hI hk
      | wurf => rfl
      | satz s =>
          rw [saetze_of_satz hlesen] at hzeilen hk
          have hs : s ∈ R := hzeilen s (List.mem_append_left _ (List.mem_singleton_self s))
          have hDR' : ∀ s' ∈ (Basis.dictSet s.schluessel.dict s D).map Prod.snd, s' ∈ R :=
            forall_dictSet hs hDR
          have hk' : k ∈ (Basis.dictSet s.schluessel.dict s D).map Prod.fst ∨
              ∃ s ∈ U.saetze t zeilen, s.schluessel.dict = k := by
            rcases hk with hkD | ⟨s', hs', rfl⟩
            · exact .inl (mem_keys_dictSet hkD)
            · rcases List.mem_append.mp hs' with hs' | hs'
              · rw [List.mem_singleton.mp hs']
                exact .inl (List.mem_map_of_mem (mem_dictSet _ s D))
              · exact .inr ⟨s', hs', rfl⟩
          dsimp only
          split
          next =>
            rw [verarbeite]
            split
            next hok =>
              have hlater := hk'.resolve_left fun hkD => by
                rw [hfail hI hDR' ((hD.dictSet s).exists_satz hkD)] at hok
                cases hok
              exact ih hzeilen' (D := []) (fun e he => absurd he List.not_mem_nil)
                (fun s' hs' => absurd hs' List.not_mem_nil) (hkeep hI hDR' hok) (.inr hlater)
            next => rfl
          next => exact ih hzeilen' (hD.dictSet s) hDR' hI hk'

theorem verarbeite_wurf {zeile : List Char} {zeilen : List (List Char)} (groesse : ℕ)
    {D : List (DictSchluessel U.Zahl × U.Satz)} (hzeile : zeile ∈ zeilen)
    (hwurf : U.lesen t zeile = .wurf) :
    (U.verarbeite t probelauf (U.ereignisse t groesse zeilen D) l).2 = false := by
  induction zeilen generalizing D l with
  | nil => cases hzeile
  | cons zeile' zeilen ih =>
      rw [ereignisse]
      rcases List.mem_cons.mp hzeile with rfl | hzeile
      · rw [hwurf]
        rfl
      · cases U.lesen t zeile' with
        | leer => exact ih hzeile
        | unlesbar => exact ih hzeile
        | wurf => rfl
        | satz s =>
            dsimp only
            split
            next =>
              rw [verarbeite]
              split
              next => exact ih hzeile
              next => rfl
            next => exact ih hzeile

/-- What a batch that goes through leaves. -/
theorem stapel_db (hok : (U.stapel t probelauf ss l).2 = true) :
    (U.stapel t probelauf ss l).1.db =
      Function.update l.db t (absorb (U.zeileVon t) (ss.filter (U.offen l.db t)) (l.db t)) := by
  have hbind : ∀ s ∈ ss, U.bindbar s.schluessel = true := by
    intro s hs
    cases hb : U.bindbar s.schluessel with
    | true => rfl
    | false =>
        rw [stapel_unbindbar hs hb] at hok
        cases hok
  have htragbar : ∀ s ∈ ss, U.offen l.db t s = true → U.annehmen t s ≠ .wurf := by
    intro s hs ho hwurf
    rw [stapel_wurf hs ho hwurf] at hok
    cases hok
  exact (stapel_ok probelauf hbind htragbar).2

/-- A key stays as it is when all records under it raise. -/
theorem stapel_frei {k : Text} (hok : (U.stapel t probelauf ss l).2 = true)
    (h : ∀ s ∈ ss, s.schluessel.gespeichert = k → U.annehmen t s = .wurf) :
    (U.stapel t probelauf ss l).1.db t k = l.db t k := by
  rw [stapel_db hok, Function.update_self]
  refine absorb_of_notMem fun s hs r hrow => ?_
  obtain ⟨hann, hkey⟩ := zeileVon_eq_some.mp hrow
  rw [h s (List.mem_filter.mp hs).1 hkey] at hann
  cases hann

/-- A stuck file fails whatever the size of a batch. -/
theorem verarbeite_fest {zeilen : List (List Char)} (h : U.Fest db t zeilen) (groesse : ℕ)
    (hl : l.db = db) :
    (U.verarbeite t probelauf (U.ereignisse t groesse zeilen []) l).2 = false := by
  cases h with
  | zeile hzeile hwurf => exact verarbeite_wurf groesse hzeile hwurf
  | @unbindbar s hs hall =>
      refine verarbeite_haengt (R := U.saetze t zeilen) (k := s.schluessel.dict)
        (I := fun _ => True) ?_ (fun _ _ _ => trivial) groesse (fun s hs => hs)
        (fun e he => absurd he List.not_mem_nil) (fun s hs => absurd hs List.not_mem_nil) trivial
        (.inr ⟨s, hs, rfl⟩)
      rintro l ss - hss ⟨s', hs', hkey⟩
      exact stapel_unbindbar hs' (hall s' (hss s' hs') hkey)
  | @abgewiesen s hs hoffen hall =>
      refine verarbeite_haengt (R := U.saetze t zeilen) (k := s.schluessel.dict)
        (I := fun db' => U.offen db' t s = true) ?_ ?_ groesse (fun s hs => hs)
        (fun e he => absurd he List.not_mem_nil) (fun s hs => absurd hs List.not_mem_nil)
        (hl ▸ hoffen) (.inr ⟨s, hs, rfl⟩)
      · rintro l ss ho hss ⟨s', hs', hkey⟩
        exact stapel_wurf hs' (offen_congr hkey ▸ ho) (hall s' (hss s' hs') (.inl hkey))
      · intro l ss ho hss hok
        have hfrei (us : Text) (hus : s.schluessel = .text us) :=
          stapel_frei (k := us) hok fun s' hs' hkey =>
            hall s' (hss s' hs') (.inr (hkey ▸ hus))
        rw [← ho]
        refine offen_eq_of hfrei fun ht => ?_
        rw [stapel_db hok, Function.update_of_ne (Ne.symm ht)]

/-! ## A file of the directory -/

@[simp] theorem stapel_gescheitert :
    (U.stapel t probelauf ss l).1.bericht.gescheitert = l.bericht.gescheitert := by
  rw [stapel]
  split
  next =>
    dsimp only
    split <;> rfl
  next => rfl

theorem verarbeite_gescheitert (es : List U.Ereignis) :
    (U.verarbeite t probelauf es l).1.bericht.gescheitert = l.bericht.gescheitert := by
  induction es generalizing l with
  | nil => rfl
  | cons e es ih =>
      cases e with
      | unlesbar => exact ih
      | wurf => rfl
      | stapel ss =>
          rw [verarbeite]
          split
          next => exact ih.trans stapel_gescheitert
          next => exact stapel_gescheitert

def anfang (t : Tabelle) (st : Stand U) : Stapellauf U :=
  ⟨st.db, { st.berichte t with dateien := (st.berichte t).dateien + 1 }, st.vorgemerkt, 0⟩

/-- What is read of a file, and whether it goes through. -/
def gelesen (probelauf : Bool) (groesse : ℕ) (t : Tabelle) (st : Stand U) (f : Datei) :
    Stapellauf U × Bool :=
  U.verarbeite t probelauf (U.ereignisse t groesse f.zeilen []) (anfang t st)

variable {groesse : ℕ} {st : Stand U} {f : Datei} {tag heute : Date}

theorem liesDateiNach_gelesen {l : Stapellauf U} {ok : Bool}
    (h : gelesen probelauf groesse t st f = (l, ok)) :
    U.liesDateiNach probelauf groesse t f
        { st with
          berichte := Function.update st.berichte t
            { st.berichte t with dateien := (st.berichte t).dateien + 1 } } =
      ({ st with
         db := if ok ∧ !probelauf then l.db else st.db
         berichte := Function.update st.berichte t
          (if ok then
            { l.bericht with ohneEntscheidung := l.bericht.ohneEntscheidung + l.ohneGesamt }
          else l.bericht)
         vorgemerkt := l.vorgemerkt }, ok) := by
  rw [gelesen, anfang] at h
  simp only [liesDateiNach, Function.update_self, zeilenLauf_eq, h, Function.update_idem]

/-- A file that goes through. -/
theorem dateiSchritt_ok {l : Stapellauf U}
    (h : gelesen probelauf groesse t st f = (l, true)) :
    U.dateiSchritt heute probelauf groesse t st (f, tag) =
      ({ db := if probelauf then st.db else l.db
         berichte := Function.update st.berichte t
          { l.bericht with ohneEntscheidung := l.bericht.ohneEntscheidung + l.ohneGesamt }
         vorgemerkt := l.vorgemerkt
         ablage := if !probelauf && decide (tag ≠ heute) then st.ablage.ohne f.name else st.ablage
         nachgelesen :=
          if !probelauf && decide (tag ≠ heute) then st.nachgelesen.mit f else st.nachgelesen },
        ⟨t, f, st.db, if probelauf then st.db else l.db,
          !probelauf && decide (tag ≠ heute)⟩) := by
  simp only [dateiSchritt, liesDateiNach_gelesen h]
  cases probelauf with
  | true => simp
  | false =>
      cases hheute : decide (tag ≠ heute) with
      | true => simp
      | false => simp

/-- A file that fails. -/
theorem dateiSchritt_wurf {l : Stapellauf U}
    (h : gelesen probelauf groesse t st f = (l, false)) :
    U.dateiSchritt heute probelauf groesse t st (f, tag) =
      ({ st with
         berichte := Function.update st.berichte t
          { l.bericht with gescheitert := l.bericht.gescheitert + 1 }
         vorgemerkt := l.vorgemerkt },
        ⟨t, f, st.db, st.db, false⟩) := by
  simp only [dateiSchritt, liesDateiNach_gelesen h, Bool.false_eq_true, if_false, false_and,
    Bool.false_and, Function.update_self, Function.update_idem]

end

end Umgebung

end Nachlesen
