import AutonomousEngine.Basis.ExtRat
import AutonomousEngine.Basis.Rebuild
import Mathlib.Data.List.Chain

/-!
# High-water marks and entry times

The trading loop keeps two maps over the positions: the highest price seen while a
position is held, and the time at which it was opened.  Both are rebuilt from each
report of the broker.  What a report does not have is dropped, so that a later
purchase starts afresh.

A row without a usable price drops the mark of a position that is still held, but
not its entry time.  So the marks are lawful over the runs in which every position
has a usable row (`gesetz_of_gut`).
-/

namespace Positionsbuch

open Basis

/-! ## Reports -/

/-- A row of a report.  The price is `none` where it is absent or no number. -/
structure Zeile where
  symbol : String
  currentPrice : Option ExtRat

/-- A report with what is read beside it: the trade history, the clock, and whether the
store can be read and written. -/
structure Bericht where
  positions : List Zeile
  tradeHistory : String → List ℤ
  now : ℤ
  loadOk : Bool
  saveOk : Bool

def Zeile.preis (p : Zeile) : Option ExtRat :=
  p.currentPrice.bind fun price => if p.symbol ≠ "" ∧ 0 < price then some price else none

/-- The entry time of a row, if it has a symbol. -/
def Zeile.eintrag (f : String → ℤ) (p : Zeile) : Option ℤ :=
  if p.symbol ≠ "" then some (f p.symbol) else none

def Bericht.Haelt (r : Bericht) (s : String) : Prop := s ≠ "" ∧ ∃ p ∈ r.positions, p.symbol = s

/-- The price of a position: that of its last usable row. -/
def Bericht.preis (r : Bericht) (s : String) : Option ExtRat :=
  rebuild Zeile.symbol Zeile.preis r.positions s

/-- Every position of the report has a usable row. -/
def Bericht.Brauchbar (r : Bericht) : Prop := ∀ s, r.Haelt s → (r.preis s).isSome = true

/-! ## The book -/

/-- What the loop and its store hold.  The two maps are unset after a start. -/
structure Buch where
  highWaterMarks : Option (String → Option ExtRat)
  entryTimes : Option (String → Option ℤ)
  store : String → Option ExtRat

structure Cfg where
  hwmTrailing : Bool
  hwmPersist : Bool
  entryTimeReconcile : Bool

/-- The marks that the next report starts from. -/
def Buch.prevMarks (b : Buch) (persist loadOk : Bool) : String → Option ExtRat :=
  match b.highWaterMarks with
  | some prev => prev
  | none => if persist && loadOk then b.store else fun _ => none

def ratchetHighWaterMarks (c : Cfg) (b : Buch) (r : Bericht) : Buch :=
  if c.hwmTrailing then
    let prev := b.prevMarks c.hwmPersist r.loadOk
    let current := rebuild Zeile.symbol
      (fun p => p.preis.map fun price => ExtRat.pyMax ((prev p.symbol).getD 0) price) r.positions
    { b with
      highWaterMarks := some current
      store := if c.hwmPersist && r.saveOk then current else b.store }
  else b

/-- The entry time of a position that is new to the book. -/
def eintritt (firstCycle : Bool) (r : Bericht) (s : String) : ℤ :=
  if firstCycle then (r.tradeHistory s).min?.getD r.now else r.now

def ratchetEntryTimes (c : Cfg) (b : Buch) (r : Bericht) : Buch :=
  if c.entryTimeReconcile then
    let prev := b.entryTimes.getD fun _ => none
    let current := rebuild Zeile.symbol
      (Zeile.eintrag fun s => (prev s).getD (eintritt b.entryTimes.isNone r s)) r.positions
    { b with entryTimes := some current }
  else b

/-- A start of the engine forgets what is not in the store. -/
def Buch.neustart (b : Buch) : Buch := { b with highWaterMarks := none, entryTimes := none }

def Buch.bericht (c : Cfg) (b : Buch) (r : Bericht) : Buch :=
  ratchetEntryTimes c (ratchetHighWaterMarks c b r) r

inductive Ereignis where
  | bericht (r : Bericht)
  | neustart

/-! ## Runs -/

/-- A report and what it leaves. -/
structure Ansicht where
  bericht : Bericht
  marks : String → Option ExtRat
  entries : String → Option ℤ

def Buch.ansicht (b : Buch) (r : Bericht) : Ansicht :=
  ⟨r, b.highWaterMarks.getD fun _ => none, b.entryTimes.getD fun _ => none⟩

/-- What the reports of a run leave, one after the other. -/
def ansichten (c : Cfg) : Buch → List Ereignis → List Ansicht
  | _, [] => []
  | b, .neustart :: es => ansichten c b.neustart es
  | b, .bericht r :: es => (b.bericht c r).ansicht r :: ansichten c (b.bericht c r) es

/-- The mark of a position did not fall and its entry time did not change. -/
def Fortgefuehrt (s : String) (a a' : Ansicht) : Prop :=
  (∃ m m', a.marks s = some m ∧ a'.marks s = some m' ∧ (m = m' ∨ m < m')) ∧
    a'.entries s = a.entries s

/-- The position is in the book with the price and the time of the report. -/
def Frisch (s : String) (a : Ansicht) : Prop :=
  (∃ price, a.bericht.preis s = some price ∧ a.marks s = some price) ∧
    a.entries s = some a.bericht.now

/-- While a position is held its mark never falls and its entry time never changes, and
when it comes back after a report without it both start afresh. -/
def Gesetz (as : List Ansicht) : Prop :=
  ∀ s, (∀ held, held <:+: as → (∀ a ∈ held, a.bericht.Haelt s) → held.Pairwise (Fortgefuehrt s)) ∧
    (∀ a a', [a, a'] <:+: as → ¬ a.bericht.Haelt s → a'.bericht.Haelt s → Frisch s a')

/-! ## A report -/

section

variable {r : Bericht} {s : String} {price : ExtRat}

/-- A usable price is that of a row of the position, and it is positive. -/
theorem haelt_of_preis (h : r.preis s = some price) : r.Haelt s ∧ 0 < price := by
  obtain ⟨p, hp, hsym, hpreis⟩ := exists_row_of_rebuild h
  obtain ⟨raw, hraw, hif⟩ := Option.bind_eq_some_iff.mp hpreis
  split at hif
  next husable =>
    cases hif
    subst hsym
    exact ⟨⟨husable.1, p, hp, rfl⟩, husable.2⟩
  next => cases hif

/-- A report has an entry time of the positions that it holds. -/
theorem entries_rebuild (f : String → ℤ) :
    rebuild Zeile.symbol (Zeile.eintrag f) r.positions s = some (f s) ∧ r.Haelt s ∨
      rebuild Zeile.symbol (Zeile.eintrag f) r.positions s = none ∧ ¬ r.Haelt s := by
  cases hm : rebuild Zeile.symbol (Zeile.eintrag f) r.positions s with
  | none =>
      right
      refine ⟨rfl, ?_⟩
      rintro ⟨hne, p, hp, hsym⟩
      have hval : (Zeile.eintrag f p).isSome = true := by simp [Zeile.eintrag, hsym, hne]
      have hsome := isSome_rebuild hp hsym hval
      rw [hm] at hsome
      cases hsome
  | some t =>
      left
      obtain ⟨p, hp, hsym, hval⟩ := exists_row_of_rebuild hm
      unfold Zeile.eintrag at hval
      split at hval
      next hne =>
        cases hval
        subst hsym
        exact ⟨rfl, hne, p, hp, rfl⟩
      next => cases hval

end

/-! ## A step -/

section

variable {c : Cfg} {b : Buch} {r : Bericht} {a : Ansicht} {s : String}

/-- The book holds what the last report left, or the store holds its marks after a
start. -/
def Stand (c : Cfg) (a : Ansicht) (b : Buch) : Prop :=
  (b.highWaterMarks = some a.marks ∧ b.entryTimes = some a.entries) ∨
    (b.highWaterMarks = none ∧ b.entryTimes = none ∧ c.hwmPersist = true ∧ b.store = a.marks)

/-- What a report leaves is about the positions that it has. -/
def Ansicht.Vollstaendig (a : Ansicht) : Prop :=
  ∀ s, (a.bericht.Haelt s → ∃ m t, a.marks s = some m ∧ a.entries s = some t) ∧
    (¬ a.bericht.Haelt s → a.marks s = none ∧ a.entries s = none)

/-- The first report after a start finds the store, and a trade history that agrees with
the entry times of the last report. -/
def Anschluss (b : Buch) (r : Bericht) (a : Ansicht) : Prop :=
  b.entryTimes = none → r.loadOk = true ∧
    ∀ s, r.Haelt s → eintritt true r s = (a.entries s).getD r.now

/-- The maps that a report leaves, from the maps that it finds. -/
theorem ansicht_marks (hc : c.hwmTrailing = true) (he : c.entryTimeReconcile = true) :
    ((b.bericht c r).ansicht r).marks s = (r.preis s).map fun price =>
      ExtRat.pyMax ((b.prevMarks c.hwmPersist r.loadOk s).getD 0) price := by
  have hbook : ((b.bericht c r).ansicht r).marks = rebuild Zeile.symbol (fun p => p.preis.map
      fun price => ExtRat.pyMax ((b.prevMarks c.hwmPersist r.loadOk p.symbol).getD 0) price)
      r.positions := by
    unfold Buch.bericht ratchetEntryTimes ratchetHighWaterMarks
    rw [if_pos hc, if_pos he]
    rfl
  rw [hbook]
  exact rebuild_map fun k price =>
    ExtRat.pyMax ((b.prevMarks c.hwmPersist r.loadOk k).getD 0) price

theorem ansicht_entries (hc : c.hwmTrailing = true) (he : c.entryTimeReconcile = true) :
    ((b.bericht c r).ansicht r).entries s = some (((b.entryTimes.getD fun _ => none) s).getD
        (eintritt b.entryTimes.isNone r s)) ∧ r.Haelt s ∨
      ((b.bericht c r).ansicht r).entries s = none ∧ ¬ r.Haelt s := by
  have hbook : ((b.bericht c r).ansicht r).entries = rebuild Zeile.symbol (Zeile.eintrag fun s =>
      ((b.entryTimes.getD fun _ => none) s).getD (eintritt b.entryTimes.isNone r s))
      r.positions := by
    unfold Buch.bericht ratchetEntryTimes ratchetHighWaterMarks
    rw [if_pos hc, if_pos he]
    rfl
  rw [hbook]
  exact entries_rebuild fun k => ((b.entryTimes.getD fun _ => none) k).getD
    (eintritt b.entryTimes.isNone r k)

theorem stand_bericht (hc : c.hwmTrailing = true) (he : c.entryTimeReconcile = true) :
    Stand c ((b.bericht c r).ansicht r) (b.bericht c r) := by
  left
  unfold Buch.bericht ratchetEntryTimes ratchetHighWaterMarks
  rw [if_pos hc, if_pos he]
  exact ⟨rfl, rfl⟩

theorem stand_neustart (h : Stand c a b)
    (hp : b.highWaterMarks = none ∨ c.hwmPersist = true ∧ b.highWaterMarks = some b.store) :
    Stand c a b.neustart := by
  right
  rcases h with ⟨hmarks, _⟩ | ⟨_, _, hpersist, hstore⟩
  · rcases hp with hnone | ⟨hpersist, hstore⟩
    · rw [hmarks] at hnone
      cases hnone
    · rw [hmarks] at hstore
      exact ⟨rfl, rfl, hpersist, (Option.some.inj hstore).symm⟩
  · exact ⟨rfl, rfl, hpersist, hstore⟩

/-- A report that has a usable row of each position leaves both maps about all of them. -/
theorem vollstaendig_bericht (hc : c.hwmTrailing = true) (he : c.entryTimeReconcile = true)
    (hr : r.Brauchbar) : ((b.bericht c r).ansicht r).Vollstaendig := by
  intro s
  constructor
  · intro hs
    obtain ⟨price, hprice⟩ := Option.isSome_iff_exists.mp (hr s hs)
    rcases ansicht_entries (b := b) (r := r) (s := s) hc he with ⟨hentry, _⟩ | ⟨_, hnicht⟩
    · have hmark := ansicht_marks (b := b) (r := r) (s := s) hc he
      rw [hprice] at hmark
      exact ⟨_, _, hmark, hentry⟩
    · exact absurd hs hnicht
  · intro hs
    constructor
    · rw [ansicht_marks hc he]
      cases hprice : r.preis s with
      | none => rfl
      | some price => exact absurd (haelt_of_preis hprice).1 hs
    · rcases ansicht_entries (b := b) (r := r) (s := s) hc he with ⟨_, hheld⟩ | ⟨hnone, _⟩
      · exact absurd hheld hs
      · exact hnone

/-! ## Two reports, one after the other -/

/-- What one report leaves after another. -/
def Folge (a a' : Ansicht) : Prop :=
  ∀ s, (a.bericht.Haelt s → a'.bericht.Haelt s → Fortgefuehrt s a a') ∧
    (¬ a.bericht.Haelt s → a'.bericht.Haelt s → Frisch s a')

theorem bericht_nach (hc : c.hwmTrailing = true) (he : c.entryTimeReconcile = true)
    (hs : Stand c a b) (ha : Anschluss b r a) :
    ((b.bericht c r).ansicht r).marks s =
        (r.preis s).map (fun price => ExtRat.pyMax ((a.marks s).getD 0) price) ∧
      (r.Haelt s → ((b.bericht c r).ansicht r).entries s =
        some ((a.entries s).getD r.now)) := by
  have hmarks := ansicht_marks (b := b) (r := r) (s := s) hc he
  have hentries := ansicht_entries (b := b) (r := r) (s := s) hc he
  rcases hs with ⟨hm, hen⟩ | ⟨hm, hen, hpersist, hstore⟩
  · have hprev : b.prevMarks c.hwmPersist r.loadOk = a.marks := by
      unfold Buch.prevMarks
      rw [hm]
    rw [hprev] at hmarks
    refine ⟨hmarks, fun hheld => ?_⟩
    rcases hentries with ⟨hentry, _⟩ | ⟨_, hnicht⟩
    · rw [hentry, hen]
      rfl
    · exact absurd hheld hnicht
  · obtain ⟨hload, hseed⟩ := ha hen
    have hprev : b.prevMarks c.hwmPersist r.loadOk = a.marks := by
      unfold Buch.prevMarks
      rw [hm, hpersist, hload]
      exact hstore
    rw [hprev] at hmarks
    refine ⟨hmarks, fun hheld => ?_⟩
    rcases hentries with ⟨hentry, _⟩ | ⟨_, hnicht⟩
    · rw [hentry, hen]
      exact congrArg some (hseed s hheld)
    · exact absurd hheld hnicht

theorem folge_bericht (hc : c.hwmTrailing = true) (he : c.entryTimeReconcile = true)
    (hs : Stand c a b) (hv : a.Vollstaendig) (hr : r.Brauchbar) (ha : Anschluss b r a) :
    Folge a ((b.bericht c r).ansicht r) := by
  intro s
  constructor
  · intro hheld hheld'
    obtain ⟨m, t, hm, ht⟩ := (hv s).1 hheld
    obtain ⟨price, hprice⟩ := Option.isSome_iff_exists.mp (hr s hheld')
    obtain ⟨hmarks, hentries⟩ := bericht_nach (s := s) hc he hs ha
    rw [hm, hprice] at hmarks
    rw [ht] at hentries
    exact ⟨⟨m, _, hm, hmarks, ExtRat.eq_or_lt_pyMax⟩, (hentries hheld').trans ht.symm⟩
  · intro hweg hheld'
    obtain ⟨hm, ht⟩ := (hv s).2 hweg
    obtain ⟨price, hprice⟩ := Option.isSome_iff_exists.mp (hr s hheld')
    obtain ⟨hmarks, hentries⟩ := bericht_nach (s := s) hc he hs ha
    rw [hm, hprice] at hmarks
    rw [ht] at hentries
    refine ⟨⟨price, hprice, hmarks.trans ?_⟩, hentries hheld'⟩
    exact congrArg some (ExtRat.pyMax_zero_left (haelt_of_preis hprice).2)

end

/-! ## Runs -/

/-- A run in which every position of a report has a usable row, and in which a start
finds again what the last report left. -/
def Gut (c : Cfg) : Option Ansicht → Buch → List Ereignis → Prop
  | _, _, [] => True
  | a, b, .neustart :: es =>
      (a.isSome = true → b.highWaterMarks = none ∨
        c.hwmPersist = true ∧ b.highWaterMarks = some b.store) ∧ Gut c a b.neustart es
  | a, b, .bericht r :: es =>
      r.Brauchbar ∧ (∀ last, a = some last → Anschluss b r last) ∧
        Gut c (some ((b.bericht c r).ansicht r)) (b.bericht c r) es

theorem folge_ansichten {c : Cfg} (hc : c.hwmTrailing = true) (he : c.entryTimeReconcile = true)
    {es : List Ereignis} {a : Option Ansicht} {b : Buch} (hgut : Gut c a b es)
    (ha : ∀ last, a = some last → Stand c last b ∧ last.Vollstaendig) :
    (a.toList ++ ansichten c b es).IsChain Folge := by
  induction es generalizing a b with
  | nil =>
      cases a with
      | none => exact .nil
      | some last => exact .singleton last
  | cons e es ih =>
      cases e with
      | neustart =>
          obtain ⟨hstart, hgut⟩ := hgut
          exact ih hgut fun last hlast => ⟨stand_neustart (ha last hlast).1
            (hstart (by rw [hlast]; rfl)), (ha last hlast).2⟩
      | bericht r =>
          obtain ⟨hr, hanschluss, hgut⟩ := hgut
          have hrest := ih hgut fun last hlast => by
            cases hlast
            exact ⟨stand_bericht hc he, vollstaendig_bericht hc he hr⟩
          cases a with
          | none => exact hrest
          | some last =>
              obtain ⟨hstand, hvoll⟩ := ha last rfl
              exact .cons_cons (folge_bericht hc he hstand hvoll hr (hanschluss last rfl)) hrest

theorem Fortgefuehrt.trans {s : String} {a a' a'' : Ansicht} (h : Fortgefuehrt s a a')
    (h' : Fortgefuehrt s a' a'') : Fortgefuehrt s a a'' := by
  obtain ⟨⟨m, m', hm, hm', hle⟩, ht⟩ := h
  obtain ⟨⟨n, n', hn, hn', hle'⟩, ht'⟩ := h'
  rw [hm'] at hn
  cases hn
  refine ⟨⟨m, n', hm, hn', ?_⟩, ht'.trans ht⟩
  rcases hle with rfl | hlt
  · exact hle'
  · rcases hle' with rfl | hlt'
    · exact .inr hlt
    · exact .inr (ExtRat.lt_trans hlt hlt')

instance (s : String) : Trans (Fortgefuehrt s) (Fortgefuehrt s) (Fortgefuehrt s) :=
  ⟨Fortgefuehrt.trans⟩

/-- In a run in which every position of a report has a usable row, the mark of a position
that is held never falls and its entry time never changes, and when it comes back both
start afresh. -/
theorem gesetz_of_gut {c : Cfg} (hc : c.hwmTrailing = true) (he : c.entryTimeReconcile = true)
    {b : Buch} {es : List Ereignis} (hgut : Gut c none b es) : Gesetz (ansichten c b es) := by
  have hchain : (ansichten c b es).IsChain Folge :=
    folge_ansichten hc he hgut fun last hlast => by cases hlast
  intro s
  constructor
  · intro held hheld hall
    have hpart := hchain.infix hheld
    have hfolge : held.IsChain (Fortgefuehrt s) :=
      hpart.imp_of_mem_imp fun a a' ha ha' h => (h s).1 (hall a ha) (hall a' ha')
    exact hfolge.pairwise
  · intro a a' hpair hweg hheld
    have htwo := hchain.infix hpair
    exact (List.isChain_pair.mp htwo s).2 hweg hheld

/-! ### A row without a price -/

/-- The book of an engine that starts for the first time. -/
def leer : Buch := ⟨none, none, fun _ => none⟩

/-- A report on one position, bought at time 1. -/
def einzeln (price : Option ExtRat) (now : ℤ) : Bericht :=
  ⟨[⟨"AAPL", price⟩], fun _ => [1], now, true, true⟩

theorem haelt_einzeln {price : Option ExtRat} {now : ℤ} {s : String} :
    (einzeln price now).Haelt s ↔ s = "AAPL" := by
  constructor
  · rintro ⟨_, p, hp, hsym⟩
    rw [List.mem_singleton.mp hp] at hsym
    exact hsym.symm
  · rintro rfl
    exact ⟨by decide, _, .head _, rfl⟩

/-- The mark and the entry time survive a start between two reports. -/
theorem gesetz_neustart : Gesetz (ansichten ⟨true, true, true⟩ leer
    [.bericht (einzeln (some (.of 100)) 1), .neustart, .bericht (einzeln (some (.of 90)) 5)]) := by
  refine gesetz_of_gut rfl rfl ⟨?_, ?_, fun _ => .inr ⟨rfl, rfl⟩, ?_, ?_, trivial⟩
  · intro s hs
    rw [haelt_einzeln.mp hs]
    decide +kernel
  · intro last hlast
    cases hlast
  · intro s hs
    rw [haelt_einzeln.mp hs]
    decide +kernel
  · intro last hlast _
    refine ⟨rfl, fun s hs => ?_⟩
    cases hlast
    rw [haelt_einzeln.mp hs]
    decide +kernel

/-- A row without a price between two others loses the mark: it falls from 100 to 90
while the position is held. -/
theorem marke_verloren : ¬ Gesetz (ansichten ⟨true, true, true⟩ leer
    [.bericht (einzeln (some (.of 100)) 1), .bericht (einzeln none 2),
      .bericht (einzeln (some (.of 90)) 3)]) := by
  intro hgesetz
  have hpair := (hgesetz "AAPL").1 _ (List.infix_refl _) (by
    intro a ha
    simp only [ansichten, List.mem_cons, List.not_mem_nil, or_false] at ha
    rcases ha with rfl | rfl | rfl <;> exact haelt_einzeln.mpr rfl)
  obtain ⟨⟨m, m', hm, hm', hle⟩, _⟩ :=
    (List.pairwise_cons.mp hpair).1 _ (.tail _ (.head _))
  have hhigh : some m = some (ExtRat.of 100) := hm.symm.trans (by decide +kernel)
  have hlow : some m' = some (ExtRat.of 90) := hm'.symm.trans (by decide +kernel)
  rw [Option.some.inj hhigh, Option.some.inj hlow] at hle
  revert hle
  decide +kernel

end Positionsbuch
