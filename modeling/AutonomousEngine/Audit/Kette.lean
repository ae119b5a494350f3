import AutonomousEngine.Basis.Lines
import Mathlib.Data.List.Chain
import Mathlib.Data.String.Basic

/-!
# The audit chain on disk

Audit records are appended to one file a day.  Each record carries the hash of
the record before it, and the process keeps the hash of the last one in memory,
the *head* of the chain.  A new logger instance reads the head back from the end
of the newest file.

A line is modelled by what `json.loads` makes of it and by its length in bytes.
Nothing else of its text is ever used.  A directory is the list of its day files
in the order of their names, which is the order every reader goes through them.
Only the names `audit_log_<day>.jsonl` are in it, and the logger creates no
other.

What the writer takes from elsewhere is a `Kodierung`: the hash of an entry with
its predecessor's hash, the signature of a hash, and the length of a record's
line.  Nothing is assumed of them but that a hash has 64 characters.
-/

namespace Audit

open Basis (Sized size bytes afterByte)

/-! ## Records -/

/-- A SHA-256 hash in hexadecimal. -/
structure Hash where
  wert : String
  laenge : wert.length = 64
deriving DecidableEq

def nullHash : String := String.ofList (List.replicate 64 '0')

/-- An entry before it is chained: its type, its nonce when it has one, and its
other fields. -/
structure Eintrag where
  eventType : Option String
  nonce : Option String := none
  felder : List (String × String) := []
deriving DecidableEq, Repr

/-- A record as a reader sees it. -/
structure Satz extends Eintrag where
  prevHash : Option String
  hash : Option String
  sig : Option String := none
deriving DecidableEq, Repr

/-- A line of a day file.  `satz` is `none` when the text is blank or no JSON
object. -/
structure Zeile where
  satz : Option Satz
  laenge : Nat
deriving DecidableEq, Repr

instance : Sized Zeile where
  size z := z.laenge + 1
  size_pos _ := Nat.succ_pos _

/-- What the writer takes from the hash, signature and JSON modules. -/
structure Kodierung where
  /-- The hash of the entry with its `prev_hash`, keys sorted. -/
  sha256 : Eintrag → String → Hash
  /-- The signature of a hash, `none` without a key. -/
  signWormHash : String → Option String
  /-- The length of the line of a record, without its newline. -/
  laenge : Satz → Nat

/-! ## Day files -/

/-- A day file. -/
structure Datei where
  name : String
  zeilen : List Zeile
deriving DecidableEq, Repr

/-- The day files in the order of their names. -/
structure Verzeichnis where
  dateien : List Datei
  sortiert : dateien.Pairwise fun d d' => d.name < d'.name

/-- Appends a line to a file of a list, which is created in its place when it is
not there. -/
def haengeAnListe (f : String) (z : Zeile) : List Datei → List Datei
  | [] => [⟨f, [z]⟩]
  | d :: ds =>
      if f < d.name then ⟨f, [z]⟩ :: d :: ds
      else if f = d.name then { d with zeilen := d.zeilen ++ [z] } :: ds
      else d :: haengeAnListe f z ds
termination_by structural ds => ds

theorem name_haengeAnListe {f : String} {z : Zeile} {ds : List Datei} {d : Datei}
    (h : d ∈ haengeAnListe f z ds) : d.name = f ∨ ∃ d' ∈ ds, d'.name = d.name := by
  induction ds with
  | nil => exact .inl (by rw [List.mem_singleton.mp h])
  | cons e ds ih =>
      simp only [haengeAnListe] at h
      split at h
      next =>
        rcases List.mem_cons.mp h with rfl | h
        · exact .inl rfl
        · exact .inr ⟨d, h, rfl⟩
      next =>
        split at h
        next hf =>
          rcases List.mem_cons.mp h with rfl | h
          · exact .inl hf.symm
          · exact .inr ⟨d, List.mem_cons_of_mem e h, rfl⟩
        next =>
          rcases List.mem_cons.mp h with rfl | h
          · exact .inr ⟨d, List.mem_cons_self, rfl⟩
          · rcases ih h with hf | ⟨d', hd', hn⟩
            · exact .inl hf
            · exact .inr ⟨d', List.mem_cons_of_mem e hd', hn⟩

/-- An append keeps the order of the names. -/
theorem sortiert_haengeAnListe (f : String) (z : Zeile) {ds : List Datei}
    (h : ds.Pairwise fun d d' => d.name < d'.name) :
    (haengeAnListe f z ds).Pairwise fun d d' => d.name < d'.name := by
  induction ds with
  | nil => exact List.pairwise_singleton _ _
  | cons e ds ih =>
      obtain ⟨hhead, htail⟩ := List.pairwise_cons.mp h
      simp only [haengeAnListe]
      split
      next hf =>
        refine List.pairwise_cons.mpr ⟨fun d hd => ?_, h⟩
        rcases List.mem_cons.mp hd with rfl | hd
        · exact hf
        · exact lt_trans hf (hhead d hd)
      next hf =>
        split
        next => exact List.pairwise_cons.mpr ⟨hhead, htail⟩
        next hne =>
          refine List.pairwise_cons.mpr ⟨fun d hd => ?_, ih htail⟩
          rcases name_haengeAnListe hd with hn | ⟨d', hd', hn⟩
          · rw [hn]; exact lt_of_le_of_ne (not_lt.mp hf) fun h => hne h.symm
          · rw [← hn]; exact hhead d' hd'

/-- The lines of a day file, none when it is not there. -/
def zeilenVon (f : String) (ds : List Datei) : List Zeile :=
  ((ds.find? fun d => d.name = f).map (·.zeilen)).getD []

theorem zeilenVon_cons_self (e : Datei) (ds : List Datei) :
    zeilenVon e.name (e :: ds) = e.zeilen := by
  simp [zeilenVon]

theorem zeilenVon_cons_of_ne {f : String} {e : Datei} (h : e.name ≠ f) (ds : List Datei) :
    zeilenVon f (e :: ds) = zeilenVon f ds := by
  simp [zeilenVon, h]

theorem zeilenVon_of_forall_ne {f : String} {ds : List Datei} (h : ∀ d ∈ ds, d.name ≠ f) :
    zeilenVon f ds = [] := by
  induction ds with
  | nil => rfl
  | cons e ds ih =>
      rw [zeilenVon_cons_of_ne (h e List.mem_cons_self)]
      exact ih fun d hd => h d (List.mem_cons_of_mem e hd)

/-- An append leaves the other files as they are, and its own has one more line. -/
theorem mem_haengeAnListe {f : String} {z : Zeile} {ds : List Datei} {d : Datei}
    (h : ds.Pairwise fun d d' => d.name < d'.name) :
    d ∈ haengeAnListe f z ds ↔ d ∈ ds ∧ d.name ≠ f ∨ d = ⟨f, zeilenVon f ds ++ [z]⟩ := by
  induction ds with
  | nil => simp [haengeAnListe, zeilenVon]
  | cons e ds ih =>
      obtain ⟨hhead, htail⟩ := List.pairwise_cons.mp h
      rw [haengeAnListe]
      rcases lt_trichotomy f e.name with hlt | rfl | hgt
      · have hne : ∀ d ∈ e :: ds, d.name ≠ f := by
          intro d hd
          cases List.mem_cons.mp hd with
          | inl h => exact h ▸ hlt.ne'
          | inr h => exact (hlt.trans (hhead d h)).ne'
        rw [if_pos hlt, zeilenVon_of_forall_ne hne, List.mem_cons, or_comm]
        exact or_congr_left ⟨fun hd => ⟨hd, hne d hd⟩, fun hd => hd.1⟩
      · have hne : ∀ d ∈ ds, d.name ≠ e.name := fun d hd => (hhead d hd).ne'
        rw [if_neg (lt_irrefl _), if_pos rfl, zeilenVon_cons_self, List.mem_cons, or_comm]
        refine or_congr_left ⟨fun hd => ⟨List.mem_cons_of_mem e hd, hne d hd⟩, ?_⟩
        intro ⟨hd, hn⟩
        exact (List.mem_cons.mp hd).resolve_left fun h => hn (by rw [h])
      · rw [if_neg hgt.not_gt, if_neg hgt.ne', zeilenVon_cons_of_ne hgt.ne, List.mem_cons,
          ih htail, ← or_assoc, List.mem_cons]
        refine or_congr_left ?_
        constructor
        · rintro (rfl | ⟨hd, hn⟩)
          · exact ⟨.inl rfl, hgt.ne⟩
          · exact ⟨.inr hd, hn⟩
        · rintro ⟨rfl | hd, hn⟩
          · exact .inl rfl
          · exact .inr ⟨hd, hn⟩

namespace Verzeichnis

def leer : Verzeichnis := ⟨[], .nil⟩

/-- Opens a day file for appending and writes a line. -/
def haengeAn (v : Verzeichnis) (f : String) (z : Zeile) : Verzeichnis :=
  ⟨haengeAnListe f z v.dateien, sortiert_haengeAnListe f z v.sortiert⟩

/-- The lines of all day files in the order of the names. -/
def zeilen (v : Verzeichnis) : List Zeile := v.dateien.flatMap (·.zeilen)

/-- The records of all day files in the order of the names. -/
def saetze (v : Verzeichnis) : List Satz := v.zeilen.filterMap (·.satz)

theorem find_dateien {v : Verzeichnis} {d : Datei} (hd : d ∈ v.dateien) :
    (v.dateien.find? fun d' => d'.name = d.name) = some d := by
  obtain ⟨ds, hs⟩ := v
  simp only at hd ⊢
  induction ds with
  | nil => cases hd
  | cons e ds ih =>
      obtain ⟨hhead, htail⟩ := List.pairwise_cons.mp hs
      cases List.mem_cons.mp hd with
      | inl h => simp [h]
      | inr h =>
          have hne : e.name ≠ d.name := (hhead d h).ne
          rw [List.find?_cons_of_neg (by simpa using hne)]
          exact ih htail h

/-- Two day files of one name are the same file. -/
theorem datei_eq {v : Verzeichnis} {d d' : Datei} (hd : d ∈ v.dateien) (hd' : d' ∈ v.dateien)
    (h : d.name = d'.name) : d = d' := by
  have := find_dateien hd
  rw [h, find_dateien hd'] at this
  exact (Option.some.inj this).symm

/-- The lines of a day file are among the lines of all. -/
theorem mem_zeilen_of_zeilenVon {v : Verzeichnis} {f : String} {y : Zeile}
    (hy : y ∈ zeilenVon f v.dateien) : y ∈ v.zeilen := by
  unfold zeilenVon at hy
  cases hfind : v.dateien.find? fun d => d.name = f with
  | none => simp [hfind] at hy
  | some d =>
      exact List.mem_flatMap.mpr ⟨d, List.mem_of_find?_eq_some hfind, by simpa [hfind] using hy⟩

/-- The lines after an append. -/
theorem mem_zeilen_haengeAn {v : Verzeichnis} {f : String} {z y : Zeile} :
    y ∈ (v.haengeAn f z).zeilen ↔ y ∈ v.zeilen ∨ y = z := by
  constructor
  · intro h
    obtain ⟨d, hd, hy⟩ := List.mem_flatMap.mp h
    rcases (mem_haengeAnListe v.sortiert).mp hd with ⟨hd, -⟩ | rfl
    · exact .inl (List.mem_flatMap.mpr ⟨d, hd, hy⟩)
    · exact (List.mem_append.mp hy).imp mem_zeilen_of_zeilenVon List.mem_singleton.mp
  · intro h
    have hown : y ∈ zeilenVon f v.dateien ++ [z] → y ∈ (v.haengeAn f z).zeilen := fun hy =>
      List.mem_flatMap.mpr ⟨_, (mem_haengeAnListe v.sortiert).mpr (.inr rfl), hy⟩
    cases h with
    | inr h => exact hown (List.mem_append_right _ (List.mem_singleton.mpr h))
    | inl h =>
        obtain ⟨d, hd, hy⟩ := List.mem_flatMap.mp h
        by_cases hf : d.name = f
        · refine hown (List.mem_append_left _ ?_)
          rw [← hf, zeilenVon, find_dateien hd]
          exact hy
        · exact List.mem_flatMap.mpr ⟨d, (mem_haengeAnListe v.sortiert).mpr (.inl ⟨hd, hf⟩), hy⟩

end Verzeichnis

/-! ## Reading the head back -/

/-- The hash of a line, when it is a text of 64 characters. -/
def gueltigerHash (z : Zeile) : Option String :=
  (z.satz.bind (·.hash)).filter fun h => h.length == 64

def juengsterHash (zs : List Zeile) : Option String := zs.reverse.findSome? gueltigerHash

/-- The windows at the end of a file that are searched in turn. -/
def tailWindowsBytes : List Nat := [64 * 1024, 1024 * 1024, 16 * 1024 * 1024]

/-- The search through the windows.  A window that does not reach the start of
the file loses its first line. -/
def sucheInFenstern (zs : List Zeile) : List Nat → Option String
  | [] => none
  | w :: ws =>
      if bytes zs - w = 0 then juengsterHash zs
      else
        match juengsterHash (afterByte (bytes zs - w) zs) with
        | some h => some h
        | none => sucheInFenstern zs ws
termination_by structural ws => ws

/-- The youngest hash of a day file, read from its end. -/
def lastHashInTail (zs : List Zeile) : Option String :=
  if bytes zs = 0 then none else sucheInFenstern zs tailWindowsBytes

/-- The head of the chain on disk: the youngest hash of the newest readable file
that has one. -/
def recoverLastHash (lesbar : String → Bool) (v : Verzeichnis) : String :=
  (v.dateien.reverse.findSome? fun d =>
    if lesbar d.name then lastHashInTail d.zeilen else none).getD nullHash

/-! ## Writing -/

/-- The record of an entry behind a head. -/
def Kodierung.bilde (K : Kodierung) (e : Eintrag) (kopf : String) : Satz :=
  { e with
    prevHash := some kopf
    hash := some (K.sha256 e kopf).wert
    sig := if e.eventType = some "live_enablement" then K.signWormHash (K.sha256 e kopf).wert
      else none }

def Kodierung.zeile (K : Kodierung) (s : Satz) : Zeile := ⟨some s, K.laenge s⟩

/-- Chains an entry behind the head and writes it, with the new head. -/
def haengeAn (K : Kodierung) (v : Verzeichnis) (kopf : String) (e : Eintrag) (f : String) :
    Verzeichnis × String :=
  (v.haengeAn f (K.zeile (K.bilde e kopf)), (K.sha256 e kopf).wert)

end Audit
