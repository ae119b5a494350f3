import AutonomousEngine.Basis.Dict
import AutonomousEngine.Basis.ExtRat
import AutonomousEngine.Sim.Uhr

/-!
# The prices of a simulated run

The bars of a run come from a corpus of files.  A daily bar is served on the days after
its own, and the snapshot of a day has the last bar before it and its own open.

So two corpora give the same answers up to a step of the clock, as long as they agree on
the bars before the day of that step and on the opens of that day (`lauf_ohne_vorblick`):
neither its closes nor any later bar can make a difference.

A bar that is asked for at an intraday timeframe is served up to the time of the clock,
whatever it spans, and is left out of this.
-/

namespace Sim

open Basis

/-- A row of a frame. -/
structure Kurszeile where
  ts : ℤ
  openPrice : ExtRat
  high : ExtRat
  low : ExtRat
  close : ExtRat
  volume : ExtRat
deriving DecidableEq, Repr

/-- `_SimSnapshot`: the price and time of the latest trade, and the daily bar. -/
structure SimSnapshot where
  price : ExtRat
  timestamp : ℤ
  dailyBar : Kurszeile
deriving DecidableEq, Repr

/-- The frames of the files by their symbols. -/
abbrev Korpus := String → Option (List Kurszeile)

/-- `normalize`: the midnight before a time. -/
def normalize (now : ℤ) : ℤ := now / tag * tag

section

variable (upper : String → String) (leerGeht : Bool) (frames : Korpus)

/-- `get_data` of the corpus: the rows of a number of days up to a time. -/
def getData (symbol : String) (endDate days : ℤ) : Option (List Kurszeile) :=
  (frames (upper symbol)).map fun frame =>
    frame.filter fun z => decide (endDate - days * tag ≤ z.ts) && decide (z.ts ≤ endDate)

/-- `get_stock_bars` for daily bars.  Whether an index of no dates can be compared with a
time, for a symbol without a file, is `leerGeht`; otherwise it raises. -/
def getStockBarsDaily (symbols : List String) (now : ℤ) :
    Option (Dict String (List Kurszeile)) :=
  let boundary := normalize now
  symbols.foldlM (fun out s =>
    match getData upper frames s boundary 100000 with
    | none => if leerGeht then some (out.set s []) else none
    | some df => some (out.set s (df.filter fun z => decide (z.ts < boundary)))) Dict.empty

/-- The snapshot of the rows up to a time, if there are any. -/
def snapshot (full : List Kurszeile) (now : ℤ) : Option SimSnapshot :=
  let boundary := normalize now
  let prior := full.filter fun z => decide (z.ts < boundary)
  let today := full.filter fun z => decide (boundary ≤ z.ts)
  match prior.getLast?, today.getLast? with
  | none, none => none
  | some bar, none => some ⟨bar.close, now, bar⟩
  | some bar, some z => some ⟨z.openPrice, now, bar⟩
  | none, some z =>
      let o := z.openPrice
      some ⟨o, now, ⟨z.ts, o, o, o, o, .of 0⟩⟩

def getStockSnapshot (symbols : List String) (now : ℤ) : Dict String SimSnapshot :=
  symbols.foldl (fun out s =>
    match getData upper frames (upper s) now 100000 with
    | none => out
    | some full =>
        match snapshot full now with
        | none => out
        | some shot => out.set (upper s) shot) Dict.empty

end

/-! ## What the answers depend on -/

/-- Two corpora have the same bars before a day and the same opens on it. -/
structure GleichBis (day : ℤ) (frames frames' : Korpus) : Prop where
  davor : ∀ s, (frames s).map (fun f => f.filter fun z => decide (z.ts < day * tag)) =
    (frames' s).map fun f => f.filter fun z => decide (z.ts < day * tag)
  heute : ∀ s, (frames s).map (fun f => (f.filter fun z =>
      decide (day * tag ≤ z.ts) && decide (z.ts < (day + 1) * tag)).map fun z =>
        (z.ts, z.openPrice)) =
    (frames' s).map fun f => (f.filter fun z =>
      decide (day * tag ≤ z.ts) && decide (z.ts < (day + 1) * tag)).map fun z =>
        (z.ts, z.openPrice)

section

variable {upper : String → String} {leerGeht : Bool} {frames frames' : Korpus}
  {day early now : ℤ}

theorem GleichBis.mono (h : GleichBis day frames frames') (hle : early ≤ day) :
    GleichBis early frames frames' := by
  rcases hle.lt_or_eq with hlt | rfl
  · have hday : (early + 1) * tag ≤ day * tag := by
      rw [tag]
      omega
    have hbefore : early * tag ≤ day * tag := by
      rw [tag]
      omega
    -- a row of an earlier day is a row before the later one
    have hfilter : ∀ (f : List Kurszeile) (p : Kurszeile → Bool),
        (∀ z, p z = true → z.ts < day * tag) →
          f.filter p = (f.filter fun z => decide (z.ts < day * tag)).filter p := by
      intro f p hp
      rw [List.filter_filter]
      refine List.filter_congr fun z _ => ?_
      cases hz : p z with
      | false => rfl
      | true => simp [hp z hz]
    refine ⟨fun s => ?_, fun s => ?_⟩
    · have hs := congrArg (Option.map fun f =>
        f.filter fun z : Kurszeile => decide (z.ts < early * tag)) (h.davor s)
      rw [Option.map_map, Option.map_map] at hs
      have hp : ∀ z : Kurszeile, decide (z.ts < early * tag) = true → z.ts < day * tag :=
        fun z hz => (of_decide_eq_true hz).trans_le hbefore
      rw [funext fun f => hfilter f _ hp]
      exact hs
    · have hs := congrArg (Option.map fun f => (f.filter fun z : Kurszeile =>
        decide (early * tag ≤ z.ts) && decide (z.ts < (early + 1) * tag)).map fun z =>
          (z.ts, z.openPrice)) (h.davor s)
      rw [Option.map_map, Option.map_map] at hs
      have hp : ∀ z : Kurszeile, (decide (early * tag ≤ z.ts) &&
          decide (z.ts < (early + 1) * tag)) = true → z.ts < day * tag := by
        intro z hz
        simp only [Bool.and_eq_true, decide_eq_true_eq] at hz
        omega
      rw [funext fun f => congrArg (List.map fun z : Kurszeile => (z.ts, z.openPrice))
        (hfilter f _ hp)]
      exact hs
  · exact h

theorem normalize_of_day (hlo : day * tag ≤ now) (hhi : now < (day + 1) * tag) :
    normalize now = day * tag := by
  rw [tag] at hlo hhi
  rw [normalize, tag]
  omega

/-- A symbol is in both corpora or in neither, with the same bars before the day and the
same opens on it. -/
theorem GleichBis.cases (h : GleichBis day frames frames') (s : String) :
    (frames s = none ∧ frames' s = none) ∨ ∃ f f', frames s = some f ∧ frames' s = some f' ∧
      (f.filter fun z => decide (z.ts < day * tag)) =
        (f'.filter fun z => decide (z.ts < day * tag)) ∧
      ((f.filter fun z => decide (day * tag ≤ z.ts) && decide (z.ts < (day + 1) * tag)).map
          fun z => (z.ts, z.openPrice)) =
        (f'.filter fun z => decide (day * tag ≤ z.ts) && decide (z.ts < (day + 1) * tag)).map
          fun z => (z.ts, z.openPrice) := by
  have hdavor := h.davor s
  have hheute := h.heute s
  cases hf : frames s with
  | none =>
      cases hf' : frames' s with
      | none => exact .inl ⟨rfl, rfl⟩
      | some f' =>
          rw [hf, hf'] at hdavor
          cases hdavor
  | some f =>
      cases hf' : frames' s with
      | none =>
          rw [hf, hf'] at hdavor
          cases hdavor
      | some f' =>
          rw [hf, hf'] at hdavor hheute
          exact .inr ⟨f, f', rfl, rfl, Option.some.inj hdavor, Option.some.inj hheute⟩

/-- The daily bars at a time of a day are the same in both corpora. -/
theorem GleichBis.getStockBarsDaily (h : GleichBis day frames frames') (hlo : day * tag ≤ now)
    (hhi : now < (day + 1) * tag) (symbols : List String) :
    getStockBarsDaily upper leerGeht frames symbols now =
      getStockBarsDaily upper leerGeht frames' symbols now := by
  have hrows : ∀ s, (getData upper frames s (day * tag) 100000).map (fun df =>
      df.filter fun z => decide (z.ts < day * tag)) =
        (getData upper frames' s (day * tag) 100000).map fun df =>
          df.filter fun z => decide (z.ts < day * tag) := by
    intro s
    rw [getData, getData]
    rcases h.cases (upper s) with ⟨hf, hf'⟩ | ⟨f, f', hf, hf', hdavor, -⟩
    · rw [hf, hf']
    · rw [hf, hf']
      simp only [Option.map_some, Option.some.injEq]
      rw [List.filter_comm, hdavor, List.filter_comm]
  rw [Sim.getStockBarsDaily, Sim.getStockBarsDaily, normalize_of_day hlo hhi]
  congr 1
  funext out s
  have hs := hrows s
  cases hd : getData upper frames s (day * tag) 100000 with
  | none =>
      cases hd' : getData upper frames' s (day * tag) 100000 with
      | none => rfl
      | some df' =>
          rw [hd, hd'] at hs
          cases hs
  | some df =>
      cases hd' : getData upper frames' s (day * tag) 100000 with
      | none =>
          rw [hd, hd'] at hs
          cases hs
      | some df' =>
          rw [hd, hd'] at hs
          simp only [Option.some.inj hs]

/-- What a snapshot is made of: the last row before the day, and the time and the open of
the last row on it. -/
def ausZeilen (now : ℤ) : Option Kurszeile → Option (ℤ × ExtRat) → Option SimSnapshot
  | none, none => none
  | some bar, none => some ⟨bar.close, now, bar⟩
  | some bar, some z => some ⟨z.2, now, bar⟩
  | none, some z => some ⟨z.2, now, ⟨z.1, z.2, z.2, z.2, z.2, .of 0⟩⟩

theorem snapshot_eq (full : List Kurszeile) (now : ℤ) : snapshot full now =
    ausZeilen now (full.filter fun z => decide (z.ts < normalize now)).getLast?
      ((full.filter fun z => decide (normalize now ≤ z.ts)).map
        fun z => (z.ts, z.openPrice)).getLast? := by
  rw [snapshot, List.getLast?_map]
  cases (full.filter fun z => decide (z.ts < normalize now)).getLast? <;>
    cases (full.filter fun z => decide (normalize now ≤ z.ts)).getLast? <;> rfl

/-- The snapshot at a time of a day is the same in both corpora. -/
theorem GleichBis.snapshot (h : GleichBis day frames frames') (upper : String → String)
    (hlo : day * tag ≤ now)
    (hhi : now < (day + 1) * tag) (s : String) :
    (getData upper frames s now 100000).bind (fun full => snapshot full now) =
      (getData upper frames' s now 100000).bind fun full => Sim.snapshot full now := by
  have htoday : ∀ f : List Kurszeile,
      (((f.filter fun z => decide (now - 100000 * tag ≤ z.ts) && decide (z.ts ≤ now)).filter
        fun z => decide (day * tag ≤ z.ts)).map fun z => (z.ts, z.openPrice)) =
      ((f.filter fun z => decide (day * tag ≤ z.ts) && decide (z.ts < (day + 1) * tag)).map
        fun z => (z.ts, z.openPrice)).filter fun z =>
          decide (now - 100000 * tag ≤ z.1) && decide (z.1 ≤ now) := by
    intro f
    rw [List.filter_map, List.filter_filter, List.filter_filter]
    refine congrArg _ (List.filter_congr fun z _ => ?_)
    rw [Bool.eq_iff_iff]
    simp only [Function.comp_apply, Bool.and_eq_true, decide_eq_true_eq]
    omega
  rw [getData, getData]
  rcases h.cases (upper s) with ⟨hf, hf'⟩ | ⟨f, f', hf, hf', hdavor, hheute⟩
  · rw [hf, hf']
  · rw [hf, hf']
    simp only [Option.map_some, Option.bind_some]
    rw [snapshot_eq, snapshot_eq, normalize_of_day hlo hhi, htoday f, htoday f', hheute,
      List.filter_comm, hdavor, List.filter_comm]

theorem GleichBis.getStockSnapshot (h : GleichBis day frames frames') (hlo : day * tag ≤ now)
    (hhi : now < (day + 1) * tag) (symbols : List String) :
    getStockSnapshot upper frames symbols now = getStockSnapshot upper frames' symbols now := by
  rw [Sim.getStockSnapshot, Sim.getStockSnapshot]
  congr 1
  funext out s
  have hs := h.snapshot upper hlo hhi (upper s)
  have hbind : ∀ frames : Korpus, (match getData upper frames (upper s) now 100000 with
      | none => out
      | some full =>
          match Sim.snapshot full now with
          | none => out
          | some shot => out.set (upper s) shot) =
      match (getData upper frames (upper s) now 100000).bind fun full => Sim.snapshot full now with
        | none => out
        | some shot => out.set (upper s) shot := by
    intro frames
    cases getData upper frames (upper s) now 100000 <;> rfl
  rw [hbind, hbind, hs]

end

/-! ## Runs -/

/-- What a run asks the data client for. -/
inductive Kursfrage where
  | tagesbars (symbols : List String)
  | snapshots (symbols : List String)

/-- The answers of the data client. -/
inductive Kursantwort where
  | bars (out : Option (Dict String (List Kurszeile)))
  | snapshots (out : Dict String SimSnapshot)

/-- The data client at a time of the clock. -/
def beantworte (upper : String → String) (leerGeht : Bool) (frames : Korpus) (now : ℤ) :
    Kursfrage → Kursantwort
  | .tagesbars symbols => .bars (getStockBarsDaily upper leerGeht frames symbols now)
  | .snapshots symbols => .snapshots (getStockSnapshot upper frames symbols now)

section

variable {upper : String → String} {leerGeht : Bool} {frames frames' : Korpus} {day now : ℤ}
  {window : ℤ × ℤ} {cadence : ℤ} {days : List ℤ}

theorem GleichBis.beantworte (h : GleichBis day frames frames') (hlo : day * tag ≤ now)
    (hhi : now < (day + 1) * tag) (frage : Kursfrage) :
    beantworte upper leerGeht frames now frage = beantworte upper leerGeht frames' now frage := by
  cases frage with
  | tagesbars symbols => exact congrArg Kursantwort.bars (h.getStockBarsDaily hlo hhi symbols)
  | snapshots symbols => exact congrArg Kursantwort.snapshots (h.getStockSnapshot hlo hhi symbols)

/-- While the clock is open its time is in the window of its day. -/
theorem uhr_zeit (start : ℤ) (hdays : days ≠ []) (hcadence : 0 < cadence)
    (hwindow : window.1 ≤ window.2) {k : ℕ}
    (hk : k < (replayDays days).length * takte window cadence) :
    ∃ d, (replayDays days)[k / takte window cadence]? = some d ∧
      combine d window.1 ≤ (((SimClock.neu start window cadence).setTradingDays
        (some days)).nach k).currentTime ∧
      (((SimClock.neu start window cadence).setTradingDays (some days)).nach k).currentTime ≤
        combine d window.2 := by
  have hlt : k / takte window cadence < (replayDays days).length :=
    (Nat.div_lt_iff_lt_mul (Nat.succ_pos _)).mpr hk
  obtain ⟨i, d, r, hi, -, hd, hr, hcase, hsteht⟩ :=
    steht_nach start days k hdays hcadence hwindow
  have hmin : i = k / takte window cadence := by omega
  -- past the end of its window the clock stands on the last day alone
  have hrest : r < takte window cadence := by
    refine hcase.elim id fun hlast => ?_
    rw [← hlast, Nat.add_one_mul] at hk
    omega
  have hle := (mul_le_iff_lt_takte hcadence hwindow _).mpr hrest
  have hpos : 0 ≤ (r : ℤ) * cadence := mul_nonneg (by omega) hcadence.le
  refine ⟨d, hmin ▸ hd, ?_, ?_⟩
  · rw [hsteht.jetzt]
    omega
  · rw [hsteht.jetzt, combine, combine]
    omega

/-- Up to a step of a run, corpora that agree before the day of that step and on the opens
of it answer every question for daily bars and snapshots alike. -/
theorem lauf_ohne_vorblick (start : ℤ) (hdays : days ≠ []) (hcadence : 0 < cadence)
    (hfrom : 0 ≤ window.1) (hwindow : window.1 ≤ window.2) (hto : window.2 < tag) {k : ℕ}
    (hk : k < (replayDays days).length * takte window cadence)
    (hday : (replayDays days)[k / takte window cadence]? = some day)
    (h : GleichBis day frames frames') (fragen : ℕ → List Kursfrage) :
    ∀ l ≤ k, (fragen l).map (beantworte upper leerGeht frames (((SimClock.neu start window
        cadence).setTradingDays (some days)).nach l).currentTime) =
      (fragen l).map (beantworte upper leerGeht frames' (((SimClock.neu start window
        cadence).setTradingDays (some days)).nach l).currentTime) := by
  intro l hl
  obtain ⟨early, hearly, hlo, hhi⟩ := uhr_zeit start hdays
    hcadence hwindow (hl.trans_lt hk)
  have hle : early ≤ day := by
    have hsorted : (replayDays days).Pairwise (· ≤ ·) := List.pairwise_insertionSort _ _
    obtain ⟨hi, rfl⟩ := List.getElem?_eq_some_iff.mp hearly
    obtain ⟨hj, rfl⟩ := List.getElem?_eq_some_iff.mp hday
    rcases (Nat.div_le_div_right (c := takte window cadence) hl).lt_or_eq with hlt | heq
    · exact List.pairwise_iff_getElem.mp hsorted _ _ hi hj hlt
    · simp only [heq]
      exact le_rfl
  rw [combine] at hlo hhi
  refine List.map_congr_left fun frage _ => (h.mono hle).beantworte (by omega) ?_ frage
  rw [add_mul]
  omega

/-- A corpus of one symbol and two days, with the close of the second day and what comes
behind it. -/
def zweiTage (close : ℚ) (later : List Kurszeile) : Korpus := fun s =>
  if s = "AAPL" then
    some (⟨4 * tag, .of 10, .of 12, .of 9, .of 11, .of 100⟩ ::
      ⟨5 * tag, .of 11, .of 13, .of 10, .of close, .of 100⟩ :: later)
  else none

theorem gleichBis_zweiTage : GleichBis 5 (zweiTage 12 [])
    (zweiTage 8 [⟨6 * tag, .of 8, .of 8, .of 7, .of 7, .of 100⟩]) where
  davor s := by
    rw [zweiTage, zweiTage]
    split
    next => decide +kernel
    next => rfl
  heute s := by
    rw [zweiTage, zweiTage]
    split
    next => decide +kernel
    next => rfl

/-- On the second day neither its close nor the third day is seen. -/
theorem lauf_ohne_vorblick_zweiTage :
    [Kursfrage.tagesbars ["AAPL"], .snapshots ["AAPL"]].map (beantworte id false (zweiTage 12 [])
      (((SimClock.neu 4 (34200, 34320) 60).setTradingDays (some [4, 5])).nach 4).currentTime) =
    [Kursfrage.tagesbars ["AAPL"], .snapshots ["AAPL"]].map (beantworte id false
      (zweiTage 8 [⟨6 * tag, .of 8, .of 8, .of 7, .of 7, .of 100⟩])
      (((SimClock.neu 4 (34200, 34320) 60).setTradingDays (some [4, 5])).nach 4).currentTime) :=
  lauf_ohne_vorblick 4 (by decide) (by decide) (by decide)
    (by decide) (by decide) (by decide) (by decide) gleichBis_zweiTage
    (fun _ => [.tagesbars ["AAPL"], .snapshots ["AAPL"]]) 4 le_rfl

end

end Sim
