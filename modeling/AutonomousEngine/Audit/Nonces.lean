import AutonomousEngine.Basis.Transition
import AutonomousEngine.Audit.Siegel

/-!
# The nonce scan along a history

Records are appended to day files, nonces are collected, and the seal file is
lost, cut or replaced, in any order.  The scan with the seal should always find
what a scan without it finds.

Appending behind the anchor keeps a seal consistent.  Appending to a file that a
believed seal skips does not, unless the line brings no new nonce.  That is the
condition `SiegelTreu`.  Its other half is about the seal file.  Whatever is put
in its place either fails the checksum, or it is a consistent seal, or its anchor
lies inside a day file and is another record.

`nonces_vollstaendig` is the result for the runs that meet the condition, and
`nonce_uebersehen` the run over midnight that does not.
-/

namespace Audit.Siegel

open Basis (System bytes lineAt)

/-! ## Histories -/

/-- An append, a scan whose seal can or cannot be written, or a change of the
seal file by someone else. -/
inductive Aktion where
  | haengeAn (datei : String) (z : Zeile)
  | sammle (schreibbar : Bool)
  | beschaedige (inhalt : SiegelDatei)
deriving DecidableEq, Repr

/-- The day files and the seal file. -/
structure Stand where
  verzeichnis : Verzeichnis
  siegel : SiegelDatei

variable (sha256 : String → String) (bruchstueck : Zeile → Nat → Option Satz)

def schritt (x : Stand) : Aktion → Stand
  | .haengeAn f z => { x with verzeichnis := x.verzeichnis.haengeAn f z }
  | .sammle schreibbar =>
      { x with siegel :=
          (collectLiveEnablementNonces sha256 bruchstueck schreibbar x.verzeichnis x.siegel).2 }
  | .beschaedige inhalt => { x with siegel := inhalt }

/-- All histories on a directory without a seal. -/
def sammeln : System Stand Aktion where
  start x := x.siegel = .fehlt
  step x a x' := schritt sha256 bruchstueck x a = x'

/-- A call finds the nonces of the directory, as a call without the seal does. -/
def Durchsichtig (x : Stand) : Prop :=
  ∀ schreibbar n,
    let gefunden := (collectLiveEnablementNonces sha256 bruchstueck schreibbar x.verzeichnis
      x.siegel).1
    (n ∈ gefunden ↔ n ∈ nonces x.verzeichnis.zeilen) ∧
      (n ∈ gefunden ↔ n ∈ (collectLiveEnablementNonces sha256 bruchstueck schreibbar
        x.verzeichnis .fehlt).1)

/-- A believed seal skips no file with a new nonce, and no seal is put in place
that could wrongly be believed. -/
def SiegelTreu (x : Stand) : Aktion → Prop
  | .haengeAn f z =>
      ∀ s, x.siegel = .daten s → geglaubt sha256 bruchstueck x.verzeichnis s = true →
        f < s.lastFile → ∀ n, liveNonce z = some n → n ∈ nonces x.verzeichnis.zeilen
  | .sammle _ => True
  | .beschaedige inhalt =>
      ∀ s, inhalt = .daten s → geprueft sha256 s = true →
        Stimmig x.verzeichnis s ∨ Abgewiesen bruchstueck x.verzeichnis s

/-- The histories whose steps all meet the condition. -/
abbrev treu : System Stand Aktion :=
  (sammeln sha256 bruchstueck).restrict fun x a _ => SiegelTreu sha256 bruchstueck x a

theorem sammeln_weiter {x : Stand} (h : (sammeln sha256 bruchstueck).Reach x) (a : Aktion) :
    (sammeln sha256 bruchstueck).Reach (schritt sha256 bruchstueck x a) :=
  .step h rfl

theorem treu_weiter {x : Stand} (h : (treu sha256 bruchstueck).Reach x) {a : Aktion}
    (ha : SiegelTreu sha256 bruchstueck x a) :
    (treu sha256 bruchstueck).Reach (schritt sha256 bruchstueck x a) :=
  .step h ⟨rfl, ha⟩

/-! ## Appending -/

/-- A file that has a day keeps its lines and gets the new one when it is its
own. -/
theorem datei_haengeAn {v : Verzeichnis} {d : Datei} (hd : d ∈ v.dateien) (f : String)
    (z : Zeile) : ∃ neu, ⟨d.name, d.zeilen ++ neu⟩ ∈ (v.haengeAn f z).dateien ∧
      (d.name = f → neu = [z]) ∧ (d.name ≠ f → neu = []) := by
  by_cases hf : d.name = f
  · refine ⟨[z], (mem_haengeAnListe v.sortiert).mpr (.inr ?_), fun _ => rfl, fun h => (h hf).elim⟩
    rw [← hf, zeilenVon, Verzeichnis.find_dateien hd]
    rfl
  · refine ⟨[], (mem_haengeAnListe v.sortiert).mpr (.inl ⟨?_, hf⟩), fun h => (hf h).elim,
      fun _ => rfl⟩
    rw [List.append_nil]
    exact hd

theorem mem_nonces_haengeAn {v : Verzeichnis} {f : String} {z : Zeile} {n : String} :
    n ∈ nonces (v.haengeAn f z).zeilen ↔ n ∈ nonces v.zeilen ∨ liveNonce z = some n := by
  simp only [nonces, List.mem_filterMap, Verzeichnis.mem_zeilen_haengeAn]
  constructor
  · rintro ⟨y, hy | rfl, hn⟩
    · exact .inl ⟨y, hy, hn⟩
    · exact .inr hn
  · rintro (⟨y, hy, hn⟩ | hn)
    · exact ⟨y, .inl hy, hn⟩
    · exact ⟨z, .inr rfl, hn⟩

/-- A consistent seal stays consistent when the new line has no new nonce or is
not in a file the seal skips. -/
theorem Stimmig.haengeAn {v : Verzeichnis} {s : Daten} (h : Stimmig v s) {f : String} {z : Zeile}
    (hz : f < s.lastFile → ∀ n, liveNonce z = some n → n ∈ Siegel.nonces v.zeilen) :
    Stimmig (v.haengeAn f z) s := by
  obtain ⟨⟨d, hd, hn, rest, ⟨vor, y, t, hy, hb, hs, hh⟩, halle⟩, hsub⟩ := h
  obtain ⟨neu, hd', hneu, -⟩ := datei_haengeAn hd f z
  refine ⟨⟨_, hd', hn, rest ++ neu, ⟨vor, y, t, ?_, hb, hs, hh⟩, ?_⟩, ?_⟩
  · rw [hy, List.append_assoc, List.cons_append]
  · intro n hmem
    have halt : n ∈ Siegel.nonces v.zeilen → n ∈ s.nonces ∨ n ∈ Siegel.nonces (rest ++ neu) ∨
        ∃ d' ∈ (v.haengeAn f z).dateien, s.lastFile < d'.name ∧ n ∈ Siegel.nonces d'.zeilen := by
      intro hmem
      rcases halle n hmem with h | h | ⟨e, he, hlt, h⟩
      · exact .inl h
      · exact .inr (.inl (mem_nonces_append.mpr (.inl h)))
      · obtain ⟨neu', he', -⟩ := datei_haengeAn he f z
        exact .inr (.inr ⟨_, he', hlt, mem_nonces_append.mpr (.inl h)⟩)
    rcases mem_nonces_haengeAn.mp hmem with hmem | hmem
    · exact halt hmem
    · -- the new line is skipped, behind the anchor, or in a later file
      rcases lt_trichotomy f s.lastFile with hlt | heq | hgt
      · exact halt (hz hlt n hmem)
      · right; left
        rw [hneu (hn.trans heq.symm)]
        exact mem_nonces_append.mpr (.inr (mem_nonces_cons.mpr (.inl hmem)))
      · right; right
        refine ⟨_, (mem_haengeAnListe v.sortiert).mpr (.inr rfl), hgt, ?_⟩
        exact mem_nonces_append.mpr (.inr (mem_nonces_cons.mpr (.inl hmem)))
  · intro n h
    exact mem_nonces_haengeAn.mpr (.inl (hsub n h))

theorem Abgewiesen.haengeAn {v : Verzeichnis} {s : Daten} (h : Abgewiesen bruchstueck v s)
    (f : String) (z : Zeile) : Abgewiesen bruchstueck (v.haengeAn f z) s := by
  obtain ⟨d, hd, hn, hlt, hh⟩ := h
  obtain ⟨neu, hd', -⟩ := datei_haengeAn hd f z
  refine ⟨_, hd', hn, ?_, ?_⟩
  · rw [Basis.bytes_append]
    omega
  · have hline : (liesZeileAb bruchstueck (d.zeilen ++ neu) s.anchorOffset).1 =
        (liesZeileAb bruchstueck d.zeilen s.anchorOffset).1 := by
      cases hl : lineAt s.anchorOffset d.zeilen with
      | none =>
          have := Basis.lineAt_eq_none.mp hl
          omega
      | some p =>
          obtain ⟨y, k, rest⟩ := p
          rw [liesZeileAb, liesZeileAb, Basis.lineAt_append hl, hl]
          cases k <;> rfl
    rw [hline]
    exact hh

theorem not_mem_scan_haengeAn {v : Verzeichnis} {s : Daten} (hg : geprueft sha256 s = true)
    (h : Stimmig v s) {f : String} {z : Zeile} (hlt : f < s.lastFile) {n : String}
    (hneu : n ∉ nonces v.zeilen) :
    n ∉ (scan sha256 bruchstueck (v.haengeAn f z) (.daten s)).seen := by
  obtain ⟨⟨d, hd, hn, rest, hplatz, -⟩, hsub⟩ := h
  have hbleibt : ∀ e ∈ (v.haengeAn f z).dateien, f < e.name → e ∈ v.dateien := by
    intro e he hfe
    rcases (mem_haengeAnListe v.sortiert).mp he with ⟨he, -⟩ | rfl
    · exact he
    · exact absurd hfe (lt_irrefl _)
  have hd' : d ∈ (v.haengeAn f z).dateien :=
    (mem_haengeAnListe v.sortiert).mpr (.inl ⟨hd, hn ▸ hlt.ne'⟩)
  rw [mem_scan_of_ankerplatz sha256 bruchstueck hg hd' hn hplatz]
  rintro (h | h | ⟨e, he, hle, h⟩)
  · exact hneu (hsub n h)
  · obtain ⟨vor, y, t, hy, -⟩ := hplatz
    refine hneu (mem_nonces_zeilen.mpr ⟨d, hd, ?_⟩)
    rw [hy, mem_nonces_append, mem_nonces_cons]
    exact .inr (.inr h)
  · exact hneu (mem_nonces_zeilen.mpr ⟨e, hbleibt e he (hlt.trans hle), h⟩)

/-! ## Along a run -/

/-- A seal on disk that passes the checksum is consistent or stays rejected. -/
def Sicher (x : Stand) : Prop :=
  ∀ s, x.siegel = .daten s → geprueft sha256 s = true →
    Stimmig x.verzeichnis s ∨ Abgewiesen bruchstueck x.verzeichnis s

theorem Sicher.cases {x : Stand} (h : Sicher sha256 bruchstueck x) :
    abgelehnt sha256 bruchstueck x.verzeichnis x.siegel = true ∨
      ∃ s, x.siegel = .daten s ∧ geprueft sha256 s = true ∧ Stimmig x.verzeichnis s := by
  cases hsiegel : x.siegel with
  | fehlt => exact .inl rfl
  | unlesbar => exact .inl rfl
  | daten s =>
      cases hg : geprueft sha256 s with
      | false => left; simp [abgelehnt, geglaubt, hg]
      | true =>
          cases h s hsiegel hg with
          | inl h => exact .inr ⟨s, rfl, hg, h⟩
          | inr h =>
              left
              simp [abgelehnt, geglaubt, pruefeAnker_of_abgewiesen bruchstueck h]

/-- With a safe seal the scan finds the nonces of the directory. -/
theorem Sicher.mem_scan {x : Stand} (h : Sicher sha256 bruchstueck x) {n : String} :
    n ∈ (scan sha256 bruchstueck x.verzeichnis x.siegel).seen ↔
      n ∈ nonces x.verzeichnis.zeilen := by
  rcases h.cases with h | ⟨s, hs, hg, h⟩
  · exact mem_scan_of_abgelehnt sha256 bruchstueck h
  · rw [hs]
    exact mem_scan_of_stimmig sha256 bruchstueck hg h

theorem Sicher.durchsichtig {x : Stand} (h : Sicher sha256 bruchstueck x) :
    Durchsichtig sha256 bruchstueck x := by
  intro schreibbar n
  have hohne : n ∈ (scan sha256 bruchstueck x.verzeichnis .fehlt).seen ↔
      n ∈ nonces x.verzeichnis.zeilen := mem_scan_of_abgelehnt sha256 bruchstueck rfl
  exact ⟨h.mem_scan, h.mem_scan.trans hohne.symm⟩

/-- A step that meets the condition keeps the seal safe. -/
theorem Sicher.schritt {x : Stand} (h : Sicher sha256 bruchstueck x) {a : Aktion}
    (ha : SiegelTreu sha256 bruchstueck x a) :
    Sicher sha256 bruchstueck (schritt sha256 bruchstueck x a) := by
  intro s hs hg
  cases a with
  | beschaedige inhalt => exact ha s hs hg
  | haengeAn f z =>
      cases h s hs hg with
      | inr h => exact .inr (h.haengeAn bruchstueck f z)
      | inl h =>
          refine .inl (h.haengeAn fun hlt => ha s hs ?_ hlt)
          obtain ⟨⟨d, hd, hn, rest, hplatz, -⟩, -⟩ := h
          simp [geglaubt, hg, pruefeAnker_of_ankerplatz bruchstueck hd hn hplatz]
  | sammle schreibbar =>
      simp only [Siegel.schritt, collectLiveEnablementNonces] at hs
      cases hneu : neuesSiegel sha256 (scan sha256 bruchstueck x.verzeichnis x.siegel) with
      | none =>
          rw [hneu] at hs
          exact h s hs hg
      | some s' =>
          simp only [hneu] at hs
          split at hs
          next =>
            cases hs
            exact .inl (neuesSiegel_stimmig sha256 (fun n => h.mem_scan)
              (amPlatz_scan sha256 bruchstueck h.cases) hneu)
          next => exact h s hs hg

theorem sicher_of_reach {x : Stand} (hx : (treu sha256 bruchstueck).Reach x) :
    Sicher sha256 bruchstueck x := by
  refine hx.invariant ?_ ?_
  · intro x hstart s hs
    rw [hstart] at hs
    cases hs
  · rintro x a _ h ⟨rfl, ha⟩
    exact h.schritt sha256 bruchstueck ha

/-- In every run whose steps all meet the condition each call finds the nonces of
all live enablements in the day files, as a scan without the seal does.  From
there an append keeps it so exactly when it meets the condition. -/
theorem nonces_vollstaendig {x : Stand} (hx : (treu sha256 bruchstueck).Reach x) :
    Durchsichtig sha256 bruchstueck x ∧
      ∀ f z, Durchsichtig sha256 bruchstueck (schritt sha256 bruchstueck x (.haengeAn f z)) ↔
        SiegelTreu sha256 bruchstueck x (.haengeAn f z) := by
  have hsicher := sicher_of_reach sha256 bruchstueck hx
  refine ⟨hsicher.durchsichtig, fun f z => ⟨?_, fun ha => (hsicher.schritt _ _ ha).durchsichtig⟩⟩
  intro hdurch s hs hg hlt n hn
  obtain ⟨hpruef, hanker⟩ := (Bool.and_eq_true _ _).mp hg
  have hstimmig : Stimmig x.verzeichnis s := by
    refine (hsicher s hs hpruef).resolve_right fun h => ?_
    rw [pruefeAnker_of_abgewiesen bruchstueck h] at hanker
    cases hanker
  by_contra hneu
  have hmem : n ∈ (scan sha256 bruchstueck (x.verzeichnis.haengeAn f z) x.siegel).seen :=
    (hdurch true n).1.mpr (mem_nonces_haengeAn.mpr (.inr hn))
  rw [hs] at hmem
  exact not_mem_scan_haengeAn sha256 bruchstueck hpruef hstimmig hlt hneu hmem

/-! ## Midnight -/

def freigabeZeile (n : String) : Zeile :=
  ⟨some { eventType := some "live_enablement", nonce := some n, prevHash := some nullHash,
          hash := some "a" }, 200⟩

def leer : Stand := ⟨.leer, .fehlt⟩

/-- A record, a scan, and a second record in the file of the first. -/
theorem nonces_vollstaendig_zweiFreigaben :
    ∃ x : Stand, x.verzeichnis.dateien =
        [⟨"audit_log_2026-01-02.jsonl", [freigabeZeile "n", freigabeZeile "m"]⟩] ∧
      Durchsichtig id (fun _ _ => none) x := by
  let ohne : Zeile → Nat → Option Satz := fun _ _ => none
  have h₀ : (treu id ohne).Reach leer := .start rfl
  have h₁ := treu_weiter id ohne h₀
    (a := .haengeAn "audit_log_2026-01-02.jsonl" (freigabeZeile "n"))
    (by intro s hs; cases hs)
  have h₂ := treu_weiter id ohne h₁ (a := .sammle true) trivial
  have h₃ := treu_weiter id ohne h₂
    (a := .haengeAn "audit_log_2026-01-02.jsonl" (freigabeZeile "m"))
    (by
      intro s hs _ hlt
      cases hs
      exact absurd hlt (by decide))
  exact ⟨_, rfl, (nonces_vollstaendig id ohne h₃).1⟩

/-- The first record of a day is sealed, then a record lands in the file of the
day before: its nonce is not found. -/
theorem nonce_uebersehen :
    ¬ ∀ (sha256 : String → String) (bruchstueck : Zeile → Nat → Option Satz) (x : Stand),
      (sammeln sha256 bruchstueck).Reach x → Durchsichtig sha256 bruchstueck x := by
  intro hall
  let ohne : Zeile → Nat → Option Satz := fun _ _ => none
  let x₁ := schritt id ohne leer (.haengeAn "audit_log_2026-01-02.jsonl" (freigabeZeile "n"))
  let x₂ := schritt id ohne x₁ (.sammle true)
  have h₀ : (sammeln id ohne).Reach leer := .start (show leer.siegel = .fehlt from rfl)
  have h₁ : (sammeln id ohne).Reach x₁ := sammeln_weiter id ohne h₀ _
  have h₂ : (sammeln id ohne).Reach x₂ := sammeln_weiter id ohne h₁ _
  have h₃ := sammeln_weiter id ohne h₂
    (.haengeAn "audit_log_2026-01-01.jsonl" (freigabeZeile "m"))
  obtain ⟨s, hs, hlast, hneu⟩ : ∃ s : Daten, x₂.siegel = .daten s ∧
      s.lastFile = "audit_log_2026-01-02.jsonl" ∧
      neuesSiegel id (scan id ohne x₁.verzeichnis .fehlt) = some s := ⟨_, rfl, rfl, rfl⟩
  have hstimmig : Stimmig x₂.verzeichnis s :=
    neuesSiegel_stimmig id (fun n => mem_scan_of_abgelehnt id ohne rfl)
      (amPlatz_scan id ohne (.inl rfl)) hneu
  have hmem : "m" ∈ (scan id ohne (x₂.verzeichnis.haengeAn "audit_log_2026-01-01.jsonl"
      (freigabeZeile "m")) x₂.siegel).seen :=
    (hall id ohne _ h₃ true "m").1.mpr (mem_nonces_haengeAn.mpr (.inr rfl))
  rw [hs] at hmem
  refine not_mem_scan_haengeAn id ohne (geprueft_neuesSiegel id hneu) hstimmig ?_ ?_ hmem
  · rw [hlast]
    decide
  · decide

end Audit.Siegel
