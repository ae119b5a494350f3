import AutonomousEngine.Nachlesen.Verzeichnis

/-!
# Whole runs

What `lies_nach` promises of a directory is in `Verlaesslich`.  It keeps this promise when the
files of each table are clear or stuck, one after the other, and those that are stuck still are
at the end (`verlaesslich`).  Then a second run finds the clear files inserted (`Ruht`) and the
others as stuck as before, whatever the size of a batch.
-/

namespace Nachlesen

open Basis

namespace Umgebung

variable (U : Umgebung)

/-- Rows that are there stay, and so do the decisions when another table is filled. -/
structure Gewachsen (t : Tabelle) (db db' : U.Datenbank) : Prop where
  reihen : ∀ t' k r, db t' k = some r → db' t' k = some r
  sonst : t ≠ .decisions → db' .decisions = db .decisions

/-- A file that goes through and changes nothing. -/
structure Ruht (db : U.Datenbank) (t : Tabelle) (zeilen : List (List Char)) : Prop where
  klar : U.Klar db t false zeilen
  bleibt : U.nachZeilen db t zeilen = db

/-- Files up to a database, clear or stuck, and how many of them are stuck.  Those with a day of
`beiseite` are set aside. -/
inductive Verlauf (t : Tabelle) (beiseite : Date → Bool) (ende : U.Datenbank) :
    List (Datei × Date) → U.Datenbank → ℕ → Prop
  | nil : Verlauf t beiseite ende [] ende 0
  | klar {f : Datei} {tag : Date} {fs : List (Datei × Date)} {db : U.Datenbank} {n : ℕ}
      (hklar : U.Klar db t (beiseite tag) f.zeilen)
      (hrest : Verlauf t beiseite ende fs (U.nachZeilen db t f.zeilen) n) :
      Verlauf t beiseite ende ((f, tag) :: fs) db n
  | fest {f : Datei} {tag : Date} {fs : List (Datei × Date)} {db : U.Datenbank} {n : ℕ}
      (hfest : U.Fest db t f.zeilen) (hende : U.Fest ende t f.zeilen)
      (hrest : Verlauf t beiseite ende fs db n) :
      Verlauf t beiseite ende ((f, tag) :: fs) db (n + 1)

variable {U} {t : Tabelle} {db db' db'' ende : U.Datenbank} {zeilen : List (List Char)}
  {beiseite : Date → Bool} {fs : List (Datei × Date)} {n : ℕ}

namespace Gewachsen

theorem refl (t : Tabelle) (db : U.Datenbank) : Gewachsen U t db db :=
  ⟨fun _ _ _ h => h, fun _ => rfl⟩

theorem trans (h : Gewachsen U t db db') (h' : Gewachsen U t db' db'') : Gewachsen U t db db'' :=
  ⟨fun t' k r hr => h'.reihen t' k r (h.reihen t' k r hr),
    fun ht => (h'.sonst ht).trans (h.sonst ht)⟩

theorem isSome (h : Gewachsen U t db db') {t' : Tabelle} {k : Text} (hk : (db t' k).isSome) :
    (db' t' k).isSome := by
  obtain ⟨r, hr⟩ := Option.isSome_iff_exists.mp hk
  exact Option.isSome_iff_exists.mpr ⟨r, h.reihen t' k r hr⟩

theorem nachZeilen (t : Tabelle) (db : U.Datenbank) (zeilen : List (List Char)) :
    Gewachsen U t db (U.nachZeilen db t zeilen) := by
  constructor
  · intro t' k r hr
    rw [Umgebung.nachZeilen]
    by_cases ht : t' = t
    · subst ht
      rw [Function.update_self]
      exact absorb_of_some hr
    · rwa [Function.update_of_ne ht]
  · exact fun ht => Function.update_of_ne (Ne.symm ht) _ _

/-- What is to be inserted later was to be inserted before. -/
theorem offen (h : Gewachsen U t db db') {s : U.Satz} (hs : U.offen db' t s = true) :
    U.offen db t s = true := by
  rw [Umgebung.offen, Bool.and_eq_true, Bool.not_eq_true'] at hs ⊢
  constructor
  · exact bekannt_congr (s := s) h.sonst ▸ hs.1
  · rw [← Bool.not_eq_true]
    intro hvor
    have hthere := vorhanden_of_le (fun k => h.isSome) hvor
    rw [hs.2] at hthere
    cases hthere

end Gewachsen

/-! ## A second time -/

theorem Klar.not_fest {b : Bool} (h : U.Klar db t b zeilen) : ¬U.Fest db t zeilen := by
  intro hfest
  have hok : (U.verarbeite t false (U.ereignisse t 1 zeilen []) ⟨db, .leer, [], 0⟩).2 = true :=
    (verarbeite_klar h 1 rfl).1
  rw [verarbeite_fest hfest 1 rfl] at hok
  cases hok

/-- A clear file is at rest afterwards. -/
theorem Klar.ruht {b : Bool} (h : U.Klar db t b zeilen)
    (hg : U.Gewachsen t (U.nachZeilen db t zeilen) ende) : U.Ruht ende t zeilen := by
  have hdb := (Gewachsen.nachZeilen t db zeilen).trans hg
  constructor
  · exact ⟨h.lesbar, h.bindbar, fun s hs ho => h.tragbar s hs (hdb.offen ho),
      fun hfalse => absurd hfalse Bool.false_ne_true,
      fun s hs s' hs' hdict ho => h.einig s hs s' hs' hdict (hdb.offen ho)⟩
  · rw [nachZeilen, absorb_of_taken, Function.update_eq_self]
    intro s hs k r hrow
    rw [neueZeile] at hrow
    split at hrow
    next ho =>
      refine hg.isSome ?_
      rw [nachZeilen, Function.update_self]
      exact isSome_absorb hs (by rw [neueZeile, if_pos (hdb.offen ho), hrow])
    next => cases hrow

theorem Fest.congr (h : U.Fest db t zeilen) (ht : db' t = db t)
    (hdecisions : db' .decisions = db .decisions) : U.Fest db' t zeilen := by
  cases h with
  | zeile hzeile hwurf => exact .zeile hzeile hwurf
  | unbindbar hs hall => exact .unbindbar hs hall
  | abgewiesen hs hoffen hall =>
      refine .abgewiesen hs ?_ hall
      rwa [offen_eq_of (fun us _ => congrFun ht us) fun _ => hdecisions]

namespace Verlauf

theorem gewachsen (h : U.Verlauf t beiseite ende fs db n) : U.Gewachsen t db ende := by
  induction h with
  | nil => exact .refl t ende
  | klar _ _ ih => exact (Gewachsen.nachZeilen t _ _).trans ih
  | fest _ _ _ ih => exact ih

/-- Each file is at rest afterwards, or stuck. -/
theorem danach (h : U.Verlauf t beiseite ende fs db n) (hg : U.Gewachsen t ende db')
    (ht : db' t = ende t) (hdecisions : db' .decisions = ende .decisions) :
    ∀ f ∈ fs, U.Ruht db' t f.1.zeilen ∨ U.Fest db' t f.1.zeilen := by
  induction h with
  | nil => exact fun f hf => absurd hf List.not_mem_nil
  | klar hklar hrest ih =>
      exact List.forall_mem_cons.mpr ⟨.inl (hklar.ruht (hrest.gewachsen.trans hg)), ih⟩
  | fest _ hende _ ih =>
      exact List.forall_mem_cons.mpr ⟨.inr (hende.congr ht hdecisions), ih⟩

theorem eq_zero_iff (h : U.Verlauf t beiseite ende fs db n) (hg : U.Gewachsen t ende db')
    (ht : db' t = ende t) (hdecisions : db' .decisions = ende .decisions) :
    n = 0 ↔ ∀ f ∈ fs, ¬U.Fest db' t f.1.zeilen := by
  induction h with
  | nil => simp
  | klar hklar hrest ih =>
      rw [ih, List.forall_mem_cons]
      exact (and_iff_right (hklar.ruht (hrest.gewachsen.trans hg)).klar.not_fest).symm
  | fest _ hende _ ih =>
      constructor
      · exact fun h => absurd h (Nat.succ_ne_zero _)
      · exact fun h => absurd (hende.congr ht hdecisions) (h _ (.head _))

/-- Files that are at rest or stuck are read again, and nothing changes. -/
theorem of_danach (h : ∀ f ∈ fs, U.Ruht ende t f.1.zeilen ∨ U.Fest ende t f.1.zeilen) :
    ∃ n, U.Verlauf t (fun _ => false) ende fs ende n := by
  induction fs with
  | nil => exact ⟨0, .nil⟩
  | cons f fs ih =>
      obtain ⟨hf, hrest⟩ := List.forall_mem_cons.mp h
      obtain ⟨n, hn⟩ := ih hrest
      rcases hf with hruht | hfest
      · exact ⟨n, .klar hruht.klar (hruht.bleibt.symm ▸ hn)⟩
      · exact ⟨n + 1, .fest hfest hfest hn⟩

end Verlauf

/-! ## The directory -/

section

variable {probelauf : Bool} {groesse : ℕ} {heute : Date} {st : Stand U} {f : Datei × Date}
  {gs : List (Datei × Date)}

variable (t probelauf groesse heute st f) in
theorem dateiSchritt_ablage :
    (U.dateiSchritt heute probelauf groesse t st f).2.datei = f.1 ∧
      (U.dateiSchritt heute probelauf groesse t st f).1.ablage =
        if (U.dateiSchritt heute probelauf groesse t st f).2.beiseite then st.ablage.ohne f.1.name
        else st.ablage := by
  obtain ⟨f, tag⟩ := f
  cases hok : (gelesen probelauf groesse t st f).2 with
  | true =>
      rw [dateiSchritt_ok (Prod.ext rfl hok)]
      exact ⟨rfl, rfl⟩
  | false =>
      rw [dateiSchritt_wurf (Prod.ext rfl hok)]
      exact ⟨rfl, rfl⟩

/-- Files of the other table stay. -/
theorem lauf_ablage_of_none {t' : Tabelle} (h : ∀ f ∈ fs, muster U t' f.1.name = none) :
    dateien U t' (feed (U.dateiSchritt heute probelauf groesse t) st fs).1.ablage =
      dateien U t' st.ablage := by
  induction fs generalizing st with
  | nil => rfl
  | cons f fs ih =>
      obtain ⟨hf, hrest⟩ := List.forall_mem_cons.mp h
      rw [feed_cons, ih hrest, (dateiSchritt_ablage t probelauf groesse heute st f).2]
      split
      next => exact dateien_ohne_of_none hf
      next => rfl

variable (fs probelauf groesse heute) in
/-- Files that are not set aside stay. -/
theorem lauf_ablage (h : dateien U t st.ablage = some gs) :
    ∃ bleibt, dateien U t (feed (U.dateiSchritt heute probelauf groesse t) st fs).1.ablage =
        some bleibt ∧ (∀ g ∈ bleibt, g ∈ gs) ∧
      ∀ g ∈ gs, (∀ z ∈ (feed (U.dateiSchritt heute probelauf groesse t) st fs).2,
        z.beiseite = true → z.datei.name ≠ g.1.name) → g ∈ bleibt := by
  induction fs generalizing st gs with
  | nil => exact ⟨gs, h, fun g hg => hg, fun g hg _ => hg⟩
  | cons f fs ih =>
      obtain ⟨hdatei, hablage⟩ := dateiSchritt_ablage t probelauf groesse heute st f
      rw [feed_cons]
      cases hbeiseite : (U.dateiSchritt heute probelauf groesse t st f).2.beiseite with
      | false =>
          rw [hbeiseite, if_neg Bool.false_ne_true] at hablage
          obtain ⟨bleibt, hdateien, hsub, hstay⟩ := ih (hablage ▸ h)
          exact ⟨bleibt, hdateien, hsub, fun g hg hall =>
            hstay g hg fun z hz => hall z (.tail _ hz)⟩
      | true =>
          rw [hbeiseite, if_pos rfl] at hablage
          obtain ⟨bleibt, hdateien, hsub, hstay⟩ := ih (hablage ▸ dateien_ohne h f.1.name)
          refine ⟨bleibt, hdateien, fun g hg => List.mem_of_mem_filter (hsub g hg),
            fun g hg hall => hstay g (List.mem_filter.mpr ⟨hg, ?_⟩)
              fun z hz => hall z (.tail _ hz)⟩
          have hne := hall _ (.head _) hbeiseite
          rw [hdatei] at hne
          exact decide_eq_true hne.symm

end

/-! ## The files of a table -/

/-- A line of a file that is accounted for: it is not readable, its decision is not known, or a
row stands under its key. -/
def Erledigt (z : Zug U) (zeile : List Char) : Prop :=
  U.lesen z.tabelle zeile = .unlesbar ∨ ∃ s, U.lesen z.tabelle zeile = .satz s ∧
    (U.bekannt z.vorher z.tabelle s = false ∨
      (z.nachher z.tabelle s.schluessel.gespeichert).isSome)

theorem lesen_ne_leer {zeile : List Char} (h : strip zeile ≠ []) : U.lesen t zeile ≠ .leer := by
  rw [lesen, if_neg h]
  repeat' split
  all_goals simp

theorem mem_saetze {zeile : List Char} {s : U.Satz} (hzeile : zeile ∈ zeilen)
    (hs : U.lesen t zeile = .satz s) : s ∈ U.saetze t zeilen :=
  List.mem_filterMap.mpr ⟨zeile, hzeile, by rw [hs]⟩

theorem Klar.erledigt {f : Datei} (h : U.Klar db t true f.zeilen) {zeile : List Char}
    (hzeile : zeile ∈ f.zeilen) (hstrip : strip zeile ≠ []) {b : Bool} :
    Erledigt ⟨t, f, db, U.nachZeilen db t f.zeilen, b⟩ zeile := by
  cases hlesen : U.lesen t zeile with
  | leer => exact absurd hlesen (lesen_ne_leer hstrip)
  | unlesbar => exact .inl hlesen
  | wurf => exact absurd hlesen (h.lesbar zeile hzeile)
  | satz s =>
      refine .inr ⟨s, hlesen, ?_⟩
      have hs : s ∈ U.saetze t f.zeilen := mem_saetze hzeile hlesen
      show U.bekannt db t s = false ∨
        (U.nachZeilen db t f.zeilen t s.schluessel.gespeichert).isSome = true
      cases hbekannt : U.bekannt db t s with
      | false => exact .inl rfl
      | true =>
          right
          cases hvor : U.vorhanden db t s.schluessel with
          | true => exact (Gewachsen.nachZeilen t db f.zeilen).isSome (isSome_of_vorhanden hvor)
          | false =>
              have hoffen : U.offen db t s = true := by rw [offen, hbekannt, hvor]; rfl
              rw [nachZeilen, Function.update_self]
              cases hann : U.annehmen t s with
              | wurf => exact absurd hann (h.tragbar s hs hoffen)
              | ignoriert => exact absurd hann (h.voll rfl s hs hoffen)
              | reihe r =>
                  exact isSome_absorb hs (by rw [neueZeile, if_pos hoffen, zeileVon, hann])

section

variable {groesse : ℕ} {heute tag : Date} {st : Stand U} {f : Datei}

variable (groesse heute tag) in
theorem dateiSchritt_klar {b : Bool} (h : U.Klar st.db t b f.zeilen) :
    (U.dateiSchritt heute false groesse t st (f, tag)).1.db = U.nachZeilen st.db t f.zeilen ∧
      ((U.dateiSchritt heute false groesse t st (f, tag)).1.berichte t).gescheitert =
        (st.berichte t).gescheitert ∧
      (U.dateiSchritt heute false groesse t st (f, tag)).2 =
        ⟨t, f, st.db, U.nachZeilen st.db t f.zeilen, decide (tag ≠ heute)⟩ := by
  obtain ⟨hok, hdb⟩ : (gelesen false groesse t st f).2 = true ∧
      (gelesen false groesse t st f).1.db = U.nachZeilen st.db t f.zeilen :=
    verarbeite_klar h groesse rfl
  have hcount : (gelesen false groesse t st f).1.bericht.gescheitert =
      (st.berichte t).gescheitert := verarbeite_gescheitert _
  rw [dateiSchritt_ok (Prod.ext rfl hok), ← hdb]
  refine ⟨rfl, ?_, rfl⟩
  dsimp only
  rw [Function.update_self]
  exact hcount

variable (groesse heute tag) in
theorem dateiSchritt_fest (h : U.Fest st.db t f.zeilen) :
    (U.dateiSchritt heute false groesse t st (f, tag)).1.db = st.db ∧
      ((U.dateiSchritt heute false groesse t st (f, tag)).1.berichte t).gescheitert =
        (st.berichte t).gescheitert + 1 ∧
      (U.dateiSchritt heute false groesse t st (f, tag)).2 = ⟨t, f, st.db, st.db, false⟩ := by
  have hok : (gelesen false groesse t st f).2 = false := verarbeite_fest h groesse rfl
  have hcount : (gelesen false groesse t st f).1.bericht.gescheitert =
      (st.berichte t).gescheitert := verarbeite_gescheitert _
  rw [dateiSchritt_wurf (Prod.ext rfl hok)]
  refine ⟨rfl, ?_, rfl⟩
  dsimp only
  rw [Function.update_self, ← hcount]

namespace Verlauf

variable (groesse heute st) in
/-- The files lead to the database, and the stuck ones are counted. -/
theorem lauf (h : U.Verlauf t beiseite ende fs db n) (hst : st.db = db) :
    (feed (U.dateiSchritt heute false groesse t) st fs).1.db = ende ∧
      ((feed (U.dateiSchritt heute false groesse t) st fs).1.berichte t).gescheitert =
        (st.berichte t).gescheitert + n := by
  induction h generalizing st with
  | nil => exact ⟨hst, rfl⟩
  | @klar f tag fs db n hklar _ ih =>
      subst hst
      obtain ⟨hdb, hcount, -⟩ := dateiSchritt_klar groesse heute tag hklar
      obtain ⟨hende, hn⟩ := ih _ hdb
      rw [feed_cons]
      exact ⟨hende, hn.trans (by rw [hcount])⟩
  | @fest f tag fs db n hfest _ _ ih =>
      subst hst
      obtain ⟨hdb, hcount, -⟩ := dateiSchritt_fest groesse heute tag hfest
      obtain ⟨hende, hn⟩ := ih _ hdb
      rw [feed_cons]
      exact ⟨hende, hn.trans (by rw [hcount, Nat.add_right_comm, Nat.add_assoc])⟩

variable (groesse st) in
/-- A file that is set aside is not stuck, and its lines are accounted for. -/
theorem zuege (h : U.Verlauf t (fun tag => decide (tag ≠ heute)) ende fs db n)
    (hst : st.db = db) : ∀ z ∈ (feed (U.dateiSchritt heute false groesse t) st fs).2,
      z.beiseite = true → (∃ g ∈ fs, z.datei = g.1 ∧ ¬U.Fest ende t g.1.zeilen) ∧
        ∀ zeile ∈ z.datei.zeilen, strip zeile ≠ [] → Erledigt z zeile := by
  induction h generalizing st with
  | nil => exact fun z hz => absurd hz List.not_mem_nil
  | @klar f tag fs db n hklar hrest ih =>
      subst hst
      obtain ⟨hdb, -, hzug⟩ := dateiSchritt_klar groesse heute tag hklar
      rw [feed_cons, hzug]
      refine List.forall_mem_cons.mpr ⟨fun hbeiseite => ⟨⟨_, .head _, rfl, ?_⟩, ?_⟩, ?_⟩
      · exact (hklar.ruht hrest.gewachsen).klar.not_fest
      · have hday : decide (tag ≠ heute) = true := hbeiseite
        rw [hday] at hklar
        exact fun zeile hzeile hstrip => hklar.erledigt hzeile hstrip
      · intro z hz hbeiseite
        obtain ⟨⟨g, hg, hdatei⟩, hzeilen⟩ := ih _ hdb z hz hbeiseite
        exact ⟨⟨g, .tail _ hg, hdatei⟩, hzeilen⟩
  | @fest f tag fs db n hfest _ _ ih =>
      subst hst
      obtain ⟨hdb, -, hzug⟩ := dateiSchritt_fest groesse heute tag hfest
      rw [feed_cons, hzug]
      refine List.forall_mem_cons.mpr ⟨fun hbeiseite => absurd hbeiseite Bool.false_ne_true, ?_⟩
      intro z hz hbeiseite
      obtain ⟨⟨g, hg, hdatei⟩, hzeilen⟩ := ih _ hdb z hz hbeiseite
      exact ⟨⟨g, .tail _ hg, hdatei⟩, hzeilen⟩

end Verlauf

namespace Verlauf

variable (groesse st) in
/-- The files that are left are read again, and as many of them fail. -/
theorem wieder (hfs : dateien U t st.ablage = some fs)
    (h : U.Verlauf t (fun tag => decide (tag ≠ heute)) ende fs db n) (hst : st.db = db)
    (hg : U.Gewachsen t ende db') (ht : db' t = ende t)
    (hdecisions : db' .decisions = ende .decisions) :
    ∃ bleibt n', dateien U t (feed (U.dateiSchritt heute false groesse t) st fs).1.ablage =
        some bleibt ∧ U.Verlauf t (fun _ => false) db' bleibt db' n' ∧ (n' = 0 ↔ n = 0) := by
  obtain ⟨bleibt, hbleibt, hsub, hstay⟩ := lauf_ablage fs false groesse heute hfs
  obtain ⟨n', hn'⟩ := of_danach fun f hf => h.danach hg ht hdecisions f (hsub f hf)
  refine ⟨bleibt, n', hbleibt, hn', ?_⟩
  rw [hn'.eq_zero_iff (.refl t db') rfl rfl, h.eq_zero_iff hg ht hdecisions]
  constructor
  · intro hnone f hf hfest
    refine hnone f (hstay f hf fun z hz hbeiseite hname => ?_) hfest
    obtain ⟨⟨g, hgfs, hdatei, hnot⟩, -⟩ := h.zuege groesse st hst z hz hbeiseite
    have hfg : g = f := List.inj_on_of_nodup_map (nodup_names hfs) hgfs hf (hdatei ▸ hname)
    exact hnot (hfg ▸ hfest.congr ht.symm hdecisions.symm)
  · exact fun hnone f hf => hnone f (hsub f hf)

end Verlauf

end

/-! ## Both tables -/

def frisch (st : Stand U) : Stand U := { st with berichte := fun _ => .leer, vorgemerkt := [] }

section

variable {groesse : ℕ} {heute : Date} {st : Stand U} {gs : List (Datei × Date)}
  {mitte : U.Datenbank}

variable (groesse heute st) in
/-- When decisions fail, the outcomes stay. -/
theorem liesNach_gescheitert (hfs : dateien U .decisions st.ablage = some fs)
    (h : U.Verlauf .decisions beiseite mitte fs st.db n) (hn : n ≠ 0) :
    U.liesNach heute false groesse st =
      ((feed (U.dateiSchritt heute false groesse .decisions) (frisch st) fs).1,
        (feed (U.dateiSchritt heute false groesse .decisions) (frisch st) fs).2 ++ [], true) := by
  have hcount := (h.lauf groesse heute (frisch st) rfl).2
  have hfirst : U.tabelleNach heute false groesse .decisions (frisch st) =
      ((feed (U.dateiSchritt heute false groesse .decisions) (frisch st) fs).1,
        (feed (U.dateiSchritt heute false groesse .decisions) (frisch st) fs).2, true) := by
    rw [tabelleNach, if_neg (by simp), show (frisch st).ablage = st.ablage from rfl, hfs]
  have hskip : ((feed (U.dateiSchritt heute false groesse .decisions)
      (frisch st) fs).1.berichte .decisions).gescheitert ≠ 0 := by
    rw [hcount]
    exact fun h0 => hn (Nat.eq_zero_of_add_eq_zero_left h0)
  rw [frisch] at hfirst hskip
  rw [liesNach, hfirst]
  dsimp only
  rw [if_pos rfl, tabelleNach, if_pos ⟨rfl, hskip⟩]
  rfl

variable (groesse heute st) in
/-- When no decision fails, the outcomes follow. -/
theorem liesNach_durch (hfs : dateien U .decisions st.ablage = some fs)
    (h : U.Verlauf .decisions beiseite mitte fs st.db 0)
    (hgs : dateien U .decisionOutcomes st.ablage = some gs) :
    U.liesNach heute false groesse st =
      ((feed (U.dateiSchritt heute false groesse .decisionOutcomes)
          (feed (U.dateiSchritt heute false groesse .decisions) (frisch st) fs).1 gs).1,
        (feed (U.dateiSchritt heute false groesse .decisions) (frisch st) fs).2 ++
          (feed (U.dateiSchritt heute false groesse .decisionOutcomes)
            (feed (U.dateiSchritt heute false groesse .decisions) (frisch st) fs).1 gs).2,
        true) := by
  have hcount := (h.lauf groesse heute (frisch st) rfl).2
  have hfirst : U.tabelleNach heute false groesse .decisions (frisch st) =
      ((feed (U.dateiSchritt heute false groesse .decisions) (frisch st) fs).1,
        (feed (U.dateiSchritt heute false groesse .decisions) (frisch st) fs).2, true) := by
    rw [tabelleNach, if_neg (by simp), show (frisch st).ablage = st.ablage from rfl, hfs]
  have hother : dateien U .decisionOutcomes
      (feed (U.dateiSchritt heute false groesse .decisions) (frisch st) fs).1.ablage = some gs := by
    rw [← hgs]
    exact lauf_ablage_of_none fun f hf => muster_eq_none (muster_of_mem hfs hf).2 (by simp)
  rw [frisch] at hfirst hother hcount
  rw [liesNach, hfirst]
  dsimp only
  rw [if_pos rfl, tabelleNach, if_neg (fun hskip => hskip.2 hcount), hother]
  rfl

end

variable (U) in
/-- What `lies_nach` promises of a directory: it returns and keeps every row, the batches do not
matter, a second run changes nothing, and the lines of a file that is set aside are accounted
for. -/
structure Verlaesslich (heute : Date) (st : Stand U) : Prop where
  kehrt : ∀ groesse, 1 ≤ groesse → (U.liesNach heute false groesse st).2.2 = true
  reihen : ∀ groesse, 1 ≤ groesse → ∀ t k r, st.db t k = some r →
    (U.liesNach heute false groesse st).1.db t k = some r
  stapel : ∀ groesse groesse', 1 ≤ groesse → 1 ≤ groesse' →
    (U.liesNach heute false groesse st).1.db = (U.liesNach heute false groesse' st).1.db
  nochmals : ∀ groesse, 1 ≤ groesse →
    (U.liesNach heute false groesse (U.liesNach heute false groesse st).1).1.db =
      (U.liesNach heute false groesse st).1.db
  beiseite : ∀ groesse, 1 ≤ groesse → ∀ z ∈ (U.liesNach heute false groesse st).2.1,
    z.beiseite = true → ∀ zeile ∈ z.datei.zeilen, strip zeile ≠ [] → Erledigt z zeile

variable (U) in
/-- Files whose days are days, clear or stuck up to the end.  When decisions are stuck, this is
the end of the decisions. -/
inductive Geordnet (heute : Date) (st : Stand U) : Prop
  | gescheitert {fs : List (Datei × Date)} {mitte : U.Datenbank} {n : ℕ}
      (hfs : dateien U .decisions st.ablage = some fs) (hn : n ≠ 0)
      (h : U.Verlauf .decisions (fun tag => decide (tag ≠ heute)) mitte fs st.db n)
  | durch {fs gs : List (Datei × Date)} {mitte ende : U.Datenbank} {n : ℕ}
      (hfs : dateien U .decisions st.ablage = some fs)
      (h : U.Verlauf .decisions (fun tag => decide (tag ≠ heute)) mitte fs st.db 0)
      (hgs : dateien U .decisionOutcomes st.ablage = some gs)
      (h' : U.Verlauf .decisionOutcomes (fun tag => decide (tag ≠ heute)) ende gs mitte n)

section

variable {heute : Date} {st : Stand U} {gs : List (Datei × Date)} {mitte : U.Datenbank}

theorem verlaesslich_gescheitert (hfs : dateien U .decisions st.ablage = some fs) (hn : n ≠ 0)
    (h : U.Verlauf .decisions (fun tag => decide (tag ≠ heute)) mitte fs st.db n) :
    U.Verlaesslich heute st := by
  have hrun (groesse : ℕ) := liesNach_gescheitert groesse heute st hfs h hn
  have hdb (groesse : ℕ) : (U.liesNach heute false groesse st).1.db = mitte := by
    rw [hrun]
    exact (h.lauf groesse heute (frisch st) rfl).1
  constructor
  case kehrt => exact fun groesse _ => by rw [hrun]
  case reihen => exact fun groesse _ t k r hr => hdb groesse ▸ h.gewachsen.reihen t k r hr
  case stapel => exact fun groesse groesse' _ _ => (hdb groesse).trans (hdb groesse').symm
  case nochmals =>
    intro groesse _
    obtain ⟨bleibt, n', hbleibt, hagain, hn'⟩ :=
      h.wieder groesse (frisch st) hfs rfl (.refl _ mitte) rfl rfl
    have hagainRun := liesNach_gescheitert groesse heute (U.liesNach heute false groesse st).1
      (by rw [hrun]; exact hbleibt) (by rw [hdb]; exact hagain) (fun h0 => hn (hn'.mp h0))
    rw [hagainRun, hdb]
    exact (hagain.lauf groesse heute (frisch _) (hdb groesse)).1
  case beiseite =>
    intro groesse _ z hz hbeiseite
    rw [hrun, List.append_nil] at hz
    exact (h.zuege groesse (frisch st) rfl z hz hbeiseite).2

theorem verlaesslich_durch (hfs : dateien U .decisions st.ablage = some fs)
    (h : U.Verlauf .decisions (fun tag => decide (tag ≠ heute)) mitte fs st.db 0)
    (hgs : dateien U .decisionOutcomes st.ablage = some gs)
    (h' : U.Verlauf .decisionOutcomes (fun tag => decide (tag ≠ heute)) ende gs mitte n) :
    U.Verlaesslich heute st := by
  have hrun (groesse : ℕ) := liesNach_durch groesse heute st hfs h hgs
  have hmitte (groesse : ℕ) := h.lauf groesse heute (frisch st) rfl
  have hdb (groesse : ℕ) : (U.liesNach heute false groesse st).1.db = ende := by
    rw [hrun]
    exact (h'.lauf groesse heute _ (hmitte groesse).1).1
  constructor
  case kehrt => exact fun groesse _ => by rw [hrun]
  case reihen =>
    exact fun groesse _ t k r hr =>
      hdb groesse ▸ h'.gewachsen.reihen t k r (h.gewachsen.reihen t k r hr)
  case stapel => exact fun groesse groesse' _ _ => (hdb groesse).trans (hdb groesse').symm
  case nochmals =>
    intro groesse _
    -- The outcomes leave the decisions and their files as they are.
    have hdecisions : ende .decisions = mitte .decisions := h'.gewachsen.sonst (by simp)
    have hgrown : U.Gewachsen .decisions mitte ende :=
      ⟨h'.gewachsen.reihen, fun hne => absurd rfl hne⟩
    obtain ⟨bleibt, n₁, hbleibt, hagain, hn₁⟩ :=
      h.wieder groesse (frisch st) hfs rfl hgrown hdecisions hdecisions
    obtain rfl := hn₁.mpr rfl
    have hother : dateien U .decisionOutcomes
        (feed (U.dateiSchritt heute false groesse .decisions) (frisch st) fs).1.ablage =
          some gs := by
      rw [← hgs]
      exact lauf_ablage_of_none fun f hf => muster_eq_none (muster_of_mem hfs hf).2 (by simp)
    obtain ⟨bleibt', n₂, hbleibt', hagain', -⟩ :=
      h'.wieder groesse _ hother (hmitte groesse).1 (.refl _ ende) rfl rfl
    have hleft : dateien U .decisions (U.liesNach heute false groesse st).1.ablage =
        some bleibt := by
      rw [hrun, ← hbleibt]
      exact lauf_ablage_of_none fun g hg => muster_eq_none (muster_of_mem hgs hg).2 (by simp)
    have hagainRun := liesNach_durch groesse heute (U.liesNach heute false groesse st).1
      hleft (by rw [hdb]; exact hagain) (by rw [hrun]; exact hbleibt')
    have hmid := hagain.lauf groesse heute (frisch (U.liesNach heute false groesse st).1)
      (hdb groesse)
    rw [hagainRun, hdb]
    exact (hagain'.lauf groesse heute _ hmid.1).1
  case beiseite =>
    intro groesse _ z hz hbeiseite
    rw [hrun] at hz
    rcases List.mem_append.mp hz with hz | hz
    · exact (h.zuege groesse (frisch st) rfl z hz hbeiseite).2
    · exact (h'.zuege groesse _ (hmitte groesse).1 z hz hbeiseite).2

/-- A directory whose files are clear or stuck is read as promised. -/
theorem verlaesslich (h : U.Geordnet heute st) : U.Verlaesslich heute st := by
  cases h with
  | gescheitert hfs hn h => exact verlaesslich_gescheitert hfs hn h
  | durch hfs h hgs h' => exact verlaesslich_durch hfs h hgs h'

end

/-- A directory with a day that is none is not read as promised. -/
theorem not_verlaesslich_of_none {heute : Date} {st : Stand U}
    (h : dateien U .decisions st.ablage = none) : ¬U.Verlaesslich heute st := by
  intro hpromise
  have hkehrt := hpromise.kehrt 1 le_rfl
  rw [liesNach, tabelleNach, if_neg (by simp), h] at hkehrt
  cases hkehrt

end Umgebung

/-! ## An example -/

theorem nan_shape (_ : Unit) : "NaN".toList ∈ specials ∨ isFloatLiteral "NaN".toList = true :=
  .inl (by decide)

/-- The columns of a table, behind the key, that are not null. -/
def Tabelle.pflicht : Tabelle → List String
  | decisions => ["symbol", "action"]
  | decisionOutcomes => ["symbol"]

def fehlt {F Zeit : Type} (felder : List (Text × Feld F Zeit)) (spalte : String) : Bool :=
  match dictGet (units spalte) felder with
  | none => true
  | some (.wert .null) => true
  | some _ => false

/-- SQLite for records of texts, which are ignored when a column is missing. -/
def sqlite : Umgebung where
  fl := ⟨Unit, fun _ => "NaN".toList, fun _ => (), fun _ => rfl, nan_shape⟩
  tiefe := 900
  digits := Idempotenz.asciiZiffern
  Zeit := Text
  fromisoformat := some
  mitZone zeit := zeit
  Zahl := Option ℤ
  zahlEq := inferInstanceAs (DecidableEq (Option ℤ))
  ofInt := some
  ofFloat _ := none
  zahlText
    | .int n => unitsOfText (intText n)
    | _ => []
  Reihe := List (Text × Feld Unit Text)
  annehmen t s := if t.pflicht.any (fehlt s.felder) then .ignoriert else .reihe s.felder
  bindbar _ := true

/-- A directory in front of an empty database. -/
def stand (fs : List Datei) (h : (fs.map Datei.name).Nodup) : Stand sqlite where
  db _ _ := none
  berichte _ := .leer
  vorgemerkt := []
  ablage := ⟨fs, h⟩
  nachgelesen := ⟨[], List.nodup_nil⟩

def wirft : sqlite.Zeile → Bool
  | .wurf => true
  | _ => false

/-- A file of whole records with different keys is clear. -/
theorem klar_sqlite {db : sqlite.Datenbank} {t : Tabelle} {b : Bool} {zeilen : List (List Char)}
    (hlesbar : (zeilen.any fun zeile => wirft (sqlite.lesen t zeile)) = false)
    (hganz : ((sqlite.saetze t zeilen).any fun s => t.pflicht.any (fehlt s.felder)) = false)
    (hnodup : ((sqlite.saetze t zeilen).map fun s => s.schluessel.dict).Nodup) :
    sqlite.Klar db t b zeilen := by
  have hreihe : ∀ s ∈ sqlite.saetze t zeilen, sqlite.annehmen t s = .reihe s.felder :=
    fun s hs => if_neg (List.any_eq_false.mp hganz s hs)
  constructor
  case lesbar =>
    intro zeile hzeile hwurf
    have hfalse := List.any_eq_false.mp hlesbar zeile hzeile
    rw [hwurf] at hfalse
    exact hfalse rfl
  case bindbar => exact fun s _ => rfl
  case tragbar => exact fun s hs _ hwurf => by rw [hreihe s hs] at hwurf; cases hwurf
  case voll => exact fun _ s hs _ hignored => by rw [hreihe s hs] at hignored; cases hignored
  case einig =>
    intro s hs s' hs' hdict _
    rw [List.inj_on_of_nodup_map hnodup hs hs' hdict]

def januar1 : Date := (Date.ofYmd 2026 1 1).get rfl

def januar2 : Date := (Date.ofYmd 2026 1 2).get rfl

/-- A line with a key, as both tables take it. -/
def kauf (id : String) : String :=
  "\x7b\"decision_id\": \"" ++ id ++ "\", \"symbol\": \"A\", \"action\": \"BUY\"\x7d\n"

def kaeufe (name : String) (ids : List String) : Datei :=
  ⟨name.toList, (ids.map kauf).flatMap String.toList⟩

def entscheidungen : Datei := kaeufe "decisions_20260101.jsonl" ["d1", "d2"]

def ergebnisse : Datei := kaeufe "decision_outcomes_20260101.jsonl" ["d1", "d3"]

def beideDateien : Stand sqlite := stand [entscheidungen, ergebnisse] (by decide)

/-- Two decisions, and the outcomes of one of them and of another one. -/
theorem verlaesslich_beideDateien : sqlite.Verlaesslich januar2 beideDateien := by
  have hdecisions : dateien sqlite .decisions beideDateien.ablage =
      some [(entscheidungen, januar1)] := by decide +kernel
  have houtcomes : dateien sqlite .decisionOutcomes beideDateien.ablage =
      some [(ergebnisse, januar1)] := by decide +kernel
  refine Umgebung.verlaesslich (.durch hdecisions (.klar ?_ .nil) houtcomes (.klar ?_ .nil))
  · exact klar_sqlite (by decide +kernel) (by decide +kernel) (by decide +kernel)
  · exact klar_sqlite (by decide +kernel) (by decide +kernel) (by decide +kernel)

def ohneTag : Stand sqlite := stand [kaeufe "decisions_99999999.jsonl" []] (by decide)

/-- A file name with eight digits that are no day: `lies_nach` raises. -/
theorem not_verlaesslich_ohneTag : ¬sqlite.Verlaesslich januar2 ohneTag :=
  Umgebung.not_verlaesslich_of_none (by decide +kernel)

end Nachlesen
