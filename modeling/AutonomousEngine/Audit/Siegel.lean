import AutonomousEngine.Audit.Kette

/-!
# The seal of the nonce scan

A live enablement may be recorded once.  Before it is, its nonce is looked up
among all the nonces the chain already has.  Reading every day file each time is
slow, so a *seal* next to the chain keeps the nonces found so far, the place of
the last record read, its *anchor*, and a checksum over all of it.  The next
scan believes the seal when the checksum is right and the anchor is still at its
place, and continues behind the anchor.  Files older than the anchor's are
skipped.

A seal is *consistent* with a directory (`Stimmig`) when its anchor stands at
its offset, its nonces are in the directory, and every nonce of the directory is
among its own or behind the anchor.  A scan with a consistent seal finds exactly
the nonces of the directory (`mem_scan_of_stimmig`), a scan that rejects its
seal does too (`mem_scan_of_abgelehnt`), and the seal such a scan leaves is
consistent (`neuesSiegel_stimmig`).
-/

namespace Audit.Siegel

open Basis (size bytes lineAt)

/-! ## The seal -/

/-- The fields of a seal. -/
structure Daten where
  version : Nat
  lastFile : String
  lastLineCount : Nat
  anchorOffset : Nat
  lastHash : Option String
  nonces : List String
  contentHash : String
deriving DecidableEq, Repr

/-- The seal file as `json.load` sees it.  `unlesbar` stands for a text that is no
JSON object and for an object without some of the fields. -/
inductive SiegelDatei where
  | fehlt
  | unlesbar
  | daten (s : Daten)
deriving DecidableEq, Repr

/-- The version of the seals that are believed. -/
def siegelFassung : Nat := 2

def sortiert (ns : List String) : List String := ns.mergeSort fun a b => decide (a ≤ b)

@[simp] theorem mem_sortiert {n : String} {ns : List String} : n ∈ sortiert ns ↔ n ∈ ns :=
  List.mem_mergeSort

/-- A hash as Python's `str` shows it. -/
def strHash : Option String → String
  | none => "None"
  | some h => h

def rumpf (s : Daten) : String :=
  "|".intercalate ([toString s.version, s.lastFile, toString s.lastLineCount,
    toString s.anchorOffset, strHash s.lastHash] ++ sortiert s.nonces)

variable (sha256 : String → String) (bruchstueck : Zeile → Nat → Option Satz)

/-- The checksum over anchor and content. -/
def siegelPruefsumme (s : Daten) : String := sha256 (rumpf s)

/-- The seal has the right version and its checksum fits its content. -/
def geprueft (s : Daten) : Bool :=
  s.version == siegelFassung && s.contentHash == siegelPruefsumme sha256 s

/-- What `readline` and `json.loads` find at an offset of a day file, and the
lines behind it.  An offset inside a line shows the rest of that line. -/
def liesZeileAb (zs : List Zeile) (o : Nat) : Option Satz × List Zeile :=
  match lineAt o zs with
  | none => (none, [])
  | some (z, 0, rest) => (z.satz, rest)
  | some (z, k + 1, rest) => (bruchstueck z (k + 1), rest)

/-- Where a scan continues: the file, the lines behind the anchor, the offset
and the number of the first of them. -/
structure Fortsetzung where
  datei : String
  rest : List Zeile
  versatz : Nat
  zeilen : Nat

def pruefeAnker (v : Verzeichnis) (s : Daten) : Option Fortsetzung :=
  match v.dateien.find? fun d => d.name = s.lastFile with
  | none => none
  | some d =>
      match liesZeileAb bruchstueck d.zeilen s.anchorOffset with
      | (none, _) => none
      | (some t, rest) =>
          if t.hash = s.lastHash then
            some ⟨d.name, rest, bytes d.zeilen - bytes rest, s.lastLineCount⟩
          else none

/-! ## The scan -/

/-- The anchor a scan has found: file, line number, offset and hash. -/
structure Anker where
  datei : String
  zeile : Nat
  versatz : Nat
  hash : Option String
deriving DecidableEq, Repr

/-- The nonces and the anchor so far. -/
structure Lesestand where
  seen : List String
  anker : Option Anker
deriving DecidableEq, Repr

def liveNonce (z : Zeile) : Option String :=
  match z.satz with
  | none => none
  | some t => if t.eventType = some "live_enablement" then t.nonce else none

def liesZeile (datei : String) (nr anfang : Nat) (z : Zeile) (st : Lesestand) : Lesestand :=
  match z.satz with
  | none => st
  | some t =>
      { seen := match liveNonce z with
          | none => st.seen
          | some n => st.seen.insert n
        anker := if t.hash.isSome then some ⟨datei, nr + 1, anfang, t.hash⟩ else st.anker }

/-- The lines of a file from line `nr` at the offset `anfang` on. -/
def liesZeilen (datei : String) (nr anfang : Nat) (st : Lesestand) : List Zeile → Lesestand
  | [] => st
  | z :: zs =>
      liesZeilen datei (nr + 1) (anfang + size z) (liesZeile datei nr anfang z st) zs
termination_by structural zs => zs

/-- The day files in turn.  With a seal the older files are skipped and the
anchor's file is continued behind the anchor. -/
def liesDateien (ab : Option Fortsetzung) (st : Lesestand) : List Datei → Lesestand
  | [] => st
  | d :: ds =>
      match ab with
      | none => liesDateien ab (liesZeilen d.name 0 0 st d.zeilen) ds
      | some a =>
          if d.name < a.datei then liesDateien ab st ds
          else if d.name = a.datei then
            liesDateien ab (liesZeilen d.name a.zeilen a.versatz st a.rest) ds
          else liesDateien ab (liesZeilen d.name 0 0 st d.zeilen) ds
termination_by structural ds => ds

/-- The seal of a scan.  Without an anchor that has a hash there is none. -/
def neuesSiegel (st : Lesestand) : Option Daten :=
  match st.anker with
  | none => none
  | some k =>
      match k.hash with
      | none => none
      | some h =>
          if h = "" then none
          else
            let s : Daten :=
              { version := siegelFassung
                lastFile := k.datei
                lastLineCount := k.zeile
                anchorOffset := k.versatz
                lastHash := some h
                nonces := sortiert st.seen
                contentHash := "" }
            some { s with contentHash := siegelPruefsumme sha256 s }

/-- Where the scan starts: behind the anchor of a believed seal, or at the
beginning. -/
def anfang (v : Verzeichnis) : SiegelDatei → Option Fortsetzung × Lesestand
  | .fehlt | .unlesbar => (none, ⟨[], none⟩)
  | .daten s =>
      if geprueft sha256 s then
        match pruefeAnker bruchstueck v s with
        | none => (none, ⟨[], none⟩)
        | some a =>
            (some a, ⟨s.nonces.eraseDups, some ⟨s.lastFile, s.lastLineCount, s.anchorOffset,
              s.lastHash⟩⟩)
      else (none, ⟨[], none⟩)

def scan (v : Verzeichnis) (f : SiegelDatei) : Lesestand :=
  liesDateien (anfang sha256 bruchstueck v f).1 (anfang sha256 bruchstueck v f).2 v.dateien

/-- The nonces of all live enablements, and the seal file afterwards.  The flag
says whether the new seal could be written. -/
def collectLiveEnablementNonces (schreibbar : Bool) (v : Verzeichnis) (f : SiegelDatei) :
    List String × SiegelDatei :=
  let st := scan sha256 bruchstueck v f
  (st.seen,
    match neuesSiegel sha256 st with
    | none => f
    | some s => if schreibbar then .daten s else f)

/-! ## What a scan reads -/

/-- The nonces of the live enablements among some lines. -/
def nonces (zs : List Zeile) : List String := zs.filterMap liveNonce

@[simp] theorem nonces_nil : nonces [] = [] := rfl

theorem mem_nonces_cons {n : String} {z : Zeile} {zs : List Zeile} :
    n ∈ nonces (z :: zs) ↔ liveNonce z = some n ∨ n ∈ nonces zs := by
  simp [nonces]

theorem mem_nonces_append {n : String} {zs zs' : List Zeile} :
    n ∈ nonces (zs ++ zs') ↔ n ∈ nonces zs ∨ n ∈ nonces zs' := by
  simp [nonces]

theorem mem_nonces_zeilen {n : String} {v : Verzeichnis} :
    n ∈ nonces v.zeilen ↔ ∃ d ∈ v.dateien, n ∈ nonces d.zeilen := by
  constructor
  · intro h
    obtain ⟨z, hz, hn⟩ := List.mem_filterMap.mp h
    obtain ⟨d, hd, hzd⟩ := List.mem_flatMap.mp hz
    exact ⟨d, hd, List.mem_filterMap.mpr ⟨z, hzd, hn⟩⟩
  · intro ⟨d, hd, h⟩
    obtain ⟨z, hz, hn⟩ := List.mem_filterMap.mp h
    exact List.mem_filterMap.mpr ⟨z, List.mem_flatMap.mpr ⟨d, hd, hz⟩, hn⟩

theorem mem_liesZeile {n : String} {datei : String} {nr o : Nat} {z : Zeile} {st : Lesestand} :
    n ∈ (liesZeile datei nr o z st).seen ↔ n ∈ st.seen ∨ liveNonce z = some n := by
  unfold liesZeile
  cases hz : z.satz with
  | none => simp [liveNonce, hz]
  | some t =>
      cases hn : liveNonce z with
      | none => simp
      | some m =>
          simp only [List.mem_insert_iff, Option.some.injEq]
          rw [or_comm, eq_comm]

theorem mem_liesZeilen {n : String} {datei : String} {nr o : Nat} {zs : List Zeile}
    {st : Lesestand} :
    n ∈ (liesZeilen datei nr o st zs).seen ↔ n ∈ st.seen ∨ n ∈ nonces zs := by
  induction zs generalizing nr o st with
  | nil => simp [liesZeilen]
  | cons z zs ih => rw [liesZeilen, ih, mem_liesZeile, mem_nonces_cons, or_assoc]

/-- The lines of a day file that a scan reads. -/
def zuLesen : Option Fortsetzung → Datei → List Zeile
  | none, d => d.zeilen
  | some a, d =>
      if d.name < a.datei then [] else if d.name = a.datei then a.rest else d.zeilen

/-- A scan adds the nonces of the lines it reads. -/
theorem mem_liesDateien {n : String} {ab : Option Fortsetzung} {ds : List Datei}
    {st : Lesestand} :
    n ∈ (liesDateien ab st ds).seen ↔ n ∈ st.seen ∨ ∃ d ∈ ds, n ∈ nonces (zuLesen ab d) := by
  induction ds generalizing st with
  | nil => simp [liesDateien]
  | cons d ds ih =>
      have hrest : ∀ P : Prop, ((P ∨ n ∈ nonces (zuLesen ab d)) ∨
          ∃ d' ∈ ds, n ∈ nonces (zuLesen ab d')) ↔
          (P ∨ ∃ d' ∈ d :: ds, n ∈ nonces (zuLesen ab d')) := by
        intro P
        rw [List.exists_mem_cons_iff, or_assoc]
      cases ab with
      | none =>
          rw [liesDateien, ih, mem_liesZeilen]
          exact hrest _
      | some a =>
          rw [← hrest, liesDateien]
          by_cases hlt : d.name < a.datei
          · simp [hlt, ih, zuLesen]
          · by_cases heq : d.name = a.datei
            · simp only [heq, ih, mem_liesZeilen, zuLesen, lt_irrefl, if_true, if_false]
            · simp only [hlt, heq, ih, mem_liesZeilen, zuLesen, if_false]

/-! ## The anchor -/

/-- A record with the hash `h` starts at the byte `o` of a file, and `rest` is
behind it. -/
def Ankerplatz (zs : List Zeile) (o : Nat) (h : Option String) (rest : List Zeile) : Prop :=
  ∃ vor z t, zs = vor ++ z :: rest ∧ bytes vor = o ∧ z.satz = some t ∧ t.hash = h

/-- The anchor of a scan, when it has one, is in the directory. -/
def AmPlatz (v : Verzeichnis) (st : Lesestand) : Prop :=
  ∀ k, st.anker = some k →
    ∃ d ∈ v.dateien, d.name = k.datei ∧ ∃ rest, Ankerplatz d.zeilen k.versatz k.hash rest

theorem AmPlatz.liesZeilen {v : Verzeichnis} {d : Datei} (hd : d ∈ v.dateien)
    {davor zs : List Zeile} (hz : d.zeilen = davor ++ zs) {nr : Nat} {st : Lesestand}
    (hst : AmPlatz v st) : AmPlatz v (liesZeilen d.name nr (bytes davor) st zs) := by
  induction zs generalizing davor nr st with
  | nil => exact hst
  | cons z zs ih =>
      have hnext : bytes davor + size z = bytes (davor ++ [z]) := by
        rw [Basis.bytes_append, Basis.bytes_cons, Basis.bytes_nil, Nat.add_zero]
      rw [Siegel.liesZeilen, hnext]
      refine ih (by rw [hz, List.append_assoc]; rfl) ?_
      intro k hk
      unfold liesZeile at hk
      cases hs : z.satz with
      | none =>
          rw [hs] at hk
          exact hst k hk
      | some t =>
          simp only [hs] at hk
          split at hk
          next =>
            cases hk
            exact ⟨d, hd, rfl, zs, davor, z, t, hz, rfl, hs, rfl⟩
          next => exact hst k hk

/-- Where a scan continues is a place in the directory. -/
def Anschluss (v : Verzeichnis) : Option Fortsetzung → Prop
  | none => True
  | some a => ∃ d ∈ v.dateien, d.name = a.datei ∧
      ∃ davor, d.zeilen = davor ++ a.rest ∧ bytes davor = a.versatz

theorem AmPlatz.liesDateien {v : Verzeichnis} {ab : Option Fortsetzung} (hab : Anschluss v ab)
    {ds : List Datei} (hds : ∀ d ∈ ds, d ∈ v.dateien) {st : Lesestand} (hst : AmPlatz v st) :
    AmPlatz v (liesDateien ab st ds) := by
  induction ds generalizing st with
  | nil => exact hst
  | cons d ds ih =>
      have hd : d ∈ v.dateien := hds d List.mem_cons_self
      have hrest : ∀ d' ∈ ds, d' ∈ v.dateien := fun d' h => hds d' (List.mem_cons_of_mem d h)
      have hganz : AmPlatz v (Siegel.liesZeilen d.name 0 0 st d.zeilen) :=
        hst.liesZeilen hd (List.nil_append d.zeilen).symm
      rw [Siegel.liesDateien.eq_def]
      cases ab with
      | none => exact ih hrest hganz
      | some a =>
          simp only
          split
          next => exact ih hrest hst
          next =>
            split
            next heq =>
              obtain ⟨d', hd', hn, davor, hz, hb⟩ := hab
              obtain rfl : d = d' := Verzeichnis.datei_eq hd hd' (heq.trans hn.symm)
              rw [← hb]
              exact ih hrest (hst.liesZeilen hd hz)
            next => exact ih hrest hganz

/-! ## Consistent seals -/

/-- The anchor is at its place, the nonces of the seal are in the directory, and
those of the directory are in the seal or behind the anchor. -/
structure Stimmig (v : Verzeichnis) (s : Daten) : Prop where
  anker : ∃ d ∈ v.dateien, d.name = s.lastFile ∧
    ∃ rest, Ankerplatz d.zeilen s.anchorOffset s.lastHash rest ∧
      ∀ n ∈ nonces v.zeilen, n ∈ s.nonces ∨ n ∈ nonces rest ∨
        ∃ d' ∈ v.dateien, s.lastFile < d'.name ∧ n ∈ nonces d'.zeilen
  nonces : ∀ n ∈ s.nonces, n ∈ nonces v.zeilen

/-- The anchor lies in a day file, and another record is at its place. -/
def Abgewiesen (v : Verzeichnis) (s : Daten) : Prop :=
  ∃ d ∈ v.dateien, d.name = s.lastFile ∧ s.anchorOffset < bytes d.zeilen ∧
    ∀ t, (liesZeileAb bruchstueck d.zeilen s.anchorOffset).1 = some t → t.hash ≠ s.lastHash

/-- The scan continues behind an anchor that is at its place. -/
theorem pruefeAnker_of_ankerplatz {v : Verzeichnis} {s : Daten} {d : Datei}
    (hd : d ∈ v.dateien) (hn : d.name = s.lastFile) {rest : List Zeile}
    (h : Ankerplatz d.zeilen s.anchorOffset s.lastHash rest) :
    pruefeAnker bruchstueck v s =
      some ⟨d.name, rest, bytes d.zeilen - bytes rest, s.lastLineCount⟩ := by
  obtain ⟨vor, z, t, hz, hb, hs, hh⟩ := h
  have hline : liesZeileAb bruchstueck d.zeilen s.anchorOffset = (some t, rest) := by
    rw [liesZeileAb, ← hb, hz, Basis.lineAt_bytes, ← hs]
  rw [pruefeAnker, ← hn, Verzeichnis.find_dateien hd]
  simp only [hline, hh, if_true]

/-- A seal whose anchor is another record is not believed. -/
theorem pruefeAnker_of_abgewiesen {v : Verzeichnis} {s : Daten} (h : Abgewiesen bruchstueck v s) :
    pruefeAnker bruchstueck v s = none := by
  obtain ⟨d, hd, hn, -, hh⟩ := h
  rw [pruefeAnker, ← hn, Verzeichnis.find_dateien hd]
  simp only
  split
  next => rfl
  next t rest hline => rw [if_neg (hh t (by rw [hline]))]

/-- The seal on disk is believed by a scan. -/
def geglaubt (v : Verzeichnis) (s : Daten) : Bool :=
  geprueft sha256 s && (pruefeAnker bruchstueck v s).isSome

/-- Whether the scan starts at the beginning. -/
def abgelehnt (v : Verzeichnis) : SiegelDatei → Bool
  | .fehlt | .unlesbar => true
  | .daten s => !geglaubt sha256 bruchstueck v s

theorem anfang_of_abgelehnt {v : Verzeichnis} {f : SiegelDatei}
    (h : abgelehnt sha256 bruchstueck v f = true) :
    anfang sha256 bruchstueck v f = (none, ⟨[], none⟩) := by
  cases f with
  | fehlt => rfl
  | unlesbar => rfl
  | daten s =>
      simp only [abgelehnt, geglaubt, Bool.not_eq_true', Bool.and_eq_false_iff] at h
      rw [anfang]
      cases h with
      | inl h => rw [h]; rfl
      | inr h =>
          rw [Option.isSome_eq_false_iff, Option.isNone_iff_eq_none] at h
          rw [h]
          exact ite_self _

/-- A scan from the beginning finds the nonces of the directory. -/
theorem mem_scan_of_abgelehnt {v : Verzeichnis} {f : SiegelDatei}
    (h : abgelehnt sha256 bruchstueck v f = true) {n : String} :
    n ∈ (scan sha256 bruchstueck v f).seen ↔ n ∈ nonces v.zeilen := by
  rw [scan, anfang_of_abgelehnt sha256 bruchstueck h, mem_liesDateien, mem_nonces_zeilen]
  simp [zuLesen]

/-- What a scan with a believed seal finds, when the anchor is at its place. -/
theorem mem_scan_of_ankerplatz {v : Verzeichnis} {s : Daten} (hg : geprueft sha256 s = true)
    {d : Datei} (hd : d ∈ v.dateien) (hn : d.name = s.lastFile) {rest : List Zeile}
    (h : Ankerplatz d.zeilen s.anchorOffset s.lastHash rest) {n : String} :
    n ∈ (scan sha256 bruchstueck v (.daten s)).seen ↔ n ∈ s.nonces ∨ n ∈ nonces rest ∨
      ∃ d' ∈ v.dateien, s.lastFile < d'.name ∧ n ∈ nonces d'.zeilen := by
  rw [scan, anfang, if_pos hg, pruefeAnker_of_ankerplatz bruchstueck hd hn h, mem_liesDateien]
  simp only [List.mem_eraseDups, zuLesen, hn]
  refine or_congr_right ⟨?_, ?_⟩
  · intro ⟨d', hd', h'⟩
    rcases lt_trichotomy d'.name s.lastFile with hlt | heq | hgt
    · simp [hlt] at h'
    · exact .inl (by simpa [heq] using h')
    · exact .inr ⟨d', hd', hgt, by simpa [hgt.not_gt, hgt.ne'] using h'⟩
  · intro h'
    cases h' with
    | inl h' => exact ⟨d, hd, by simpa [hn] using h'⟩
    | inr h' =>
        obtain ⟨d', hd', hgt, h'⟩ := h'
        exact ⟨d', hd', by simpa [hgt.not_gt, hgt.ne'] using h'⟩

/-- A scan with a consistent seal finds the nonces of the directory. -/
theorem mem_scan_of_stimmig {v : Verzeichnis} {s : Daten} (hg : geprueft sha256 s = true)
    (h : Stimmig v s) {n : String} :
    n ∈ (scan sha256 bruchstueck v (.daten s)).seen ↔ n ∈ nonces v.zeilen := by
  obtain ⟨⟨d, hd, hn, rest, hplatz, halle⟩, hsub⟩ := h
  rw [mem_scan_of_ankerplatz sha256 bruchstueck hg hd hn hplatz]
  refine ⟨?_, halle n⟩
  intro h
  rcases h with h | h | ⟨d', hd', -, h⟩
  · exact hsub n h
  · obtain ⟨vor, z, t, hz, -⟩ := hplatz
    refine mem_nonces_zeilen.mpr ⟨d, hd, ?_⟩
    rw [hz, mem_nonces_append, mem_nonces_cons]
    exact .inr (.inr h)
  · exact mem_nonces_zeilen.mpr ⟨d', hd', h⟩

/-- The anchor a scan ends with is in the directory. -/
theorem amPlatz_scan {v : Verzeichnis} {f : SiegelDatei}
    (h : abgelehnt sha256 bruchstueck v f = true ∨
      ∃ s, f = .daten s ∧ geprueft sha256 s = true ∧ Stimmig v s) :
    AmPlatz v (scan sha256 bruchstueck v f) := by
  rcases h with h | ⟨s, rfl, hg, h⟩
  · rw [scan, anfang_of_abgelehnt sha256 bruchstueck h]
    have hanschluss : Anschluss v none := trivial
    exact AmPlatz.liesDateien hanschluss (fun _ h => h) fun k hk => nomatch hk
  · obtain ⟨⟨d, hd, hn, rest, hplatz, -⟩, -⟩ := h
    rw [scan, anfang, if_pos hg, pruefeAnker_of_ankerplatz bruchstueck hd hn hplatz]
    refine AmPlatz.liesDateien ?_ (fun _ h => h) ?_
    · obtain ⟨vor, z, t, hz, -⟩ := hplatz
      refine ⟨d, hd, rfl, vor ++ [z], by rw [hz, List.append_assoc]; rfl, ?_⟩
      simp only [hz, Basis.bytes_append, Basis.bytes_cons, Basis.bytes_nil]
      omega
    · intro k hk
      cases hk
      exact ⟨d, hd, hn, rest, hplatz⟩

/-- The seal a scan leaves passes the check. -/
theorem geprueft_neuesSiegel {st : Lesestand} {s : Daten} (h : neuesSiegel sha256 st = some s) :
    geprueft sha256 s = true := by
  unfold neuesSiegel at h
  split at h
  next => cases h
  next k hk =>
    split at h
    next => cases h
    next hash hh =>
      split at h
      next => cases h
      next =>
        cases h
        simp [geprueft, siegelPruefsumme, rumpf]

/-- The seal of a scan that has found all nonces is consistent. -/
theorem neuesSiegel_stimmig {v : Verzeichnis} {st : Lesestand}
    (hseen : ∀ n, n ∈ st.seen ↔ n ∈ nonces v.zeilen) (hst : AmPlatz v st) {s : Daten}
    (h : neuesSiegel sha256 st = some s) : Stimmig v s := by
  unfold neuesSiegel at h
  split at h
  next => cases h
  next k hk =>
    split at h
    next => cases h
    next hash hh =>
      split at h
      next => cases h
      next =>
        cases h
        obtain ⟨d, hd, hn, rest, hplatz⟩ := hst k hk
        rw [hh] at hplatz
        refine ⟨⟨d, hd, hn, rest, hplatz, fun n h => .inl ?_⟩, fun n h => ?_⟩
        · exact mem_sortiert.mpr ((hseen n).mpr h)
        · exact (hseen n).mp (mem_sortiert.mp h)

end Audit.Siegel
