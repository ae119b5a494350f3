import AutonomousEngine.Basis.DictLoops
import AutonomousEngine.Basis.Ranks
import AutonomousEngine.Basis.Retention

/-!
# The window of the daily rankings

`LstmPanelStore` keeps the scores of the last cycles: for every symbol one point a
day (`history`), and for every day the scores of all symbols (`snapshots`).  A cycle
replaces the points and the snapshot of its own day (`recordCycle`).  Days beyond
`snapshot_len` are taken out in the order they were written.

Three tables are read from the window: the snapshot of the last day up to a date
(`crossSectionAt`), the median over the last days up to it (`crossSectionSmoothed`),
and where a symbol stands in such a table (`crossSectionStanding`).

`cross_section_smoothed` ranks by the median over the last days, so that a symbol is
not bought for one day's spike.  It looks at the newest days up to the date
(`trendTage`).  A symbol is ranked when enough of these days have it, and where
most of its scores are its trend score is (`get?_smoothed_spec`).  So a symbol that
was at a level or above it on most of its days stands before one that was below it on
most of its days, whatever the scores of the other days are
(`mehrheit_entscheidet`).

Dates are the numbers of the days, and scores are exact.  A row of a ranking that
`record_cycle` skips as malformed is `none`.
-/

namespace LstmPanel

open Basis

abbrev Tag := Int

/-- A row of `ranked`, if it is well formed. -/
abbrev Zeile := Option (String × Rat)

abbrev Tafel := Dict String Rat

/-- `LstmPanelStore`, less its lengths.  A symbol without points is not among the
keys of `_history`. -/
structure LstmPanelStore where
  history : String → List (Tag × Rat)
  snapshots : Dict Tag Tafel

def LstmPanelStore.leer : LstmPanelStore := ⟨fun _ => [], Dict.empty⟩

/-! ## One cycle -/

/-- The points of a symbol after one more: a later one of the same day replaces it,
and `deque(maxlen=..)` lets the first ones go. -/
def notiere (historyLen : Nat) (d : Tag) (score : Rat) (dq : List (Tag × Rat)) :
    List (Tag × Rat) :=
  if dq.getLast?.map Prod.fst = some d then dq.dropLast ++ [(d, score)]
  else (dq ++ [(d, score)]).rtake historyLen

def zeile (historyLen : Nat) (d : Tag) (acc : (String → List (Tag × Rat)) × Tafel) :
    Zeile → (String → List (Tag × Rat)) × Tafel
  | none => acc
  | some (sym, score) =>
      (fun sym' => if sym' = sym then notiere historyLen d score (acc.1 sym) else acc.1 sym',
        acc.2.set sym score)

def schnappschuss (ranked : List Zeile) : Tafel :=
  Dict.collect Prod.fst (fun e _ => some e.2) (ranked.filterMap id) Dict.empty

/-- `_prune_history_before`: points before the oldest day that is kept. -/
def pruneHistoryBefore (snapshots : Dict Tag Tafel) (history : String → List (Tag × Rat)) :
    String → List (Tag × Rat) :=
  match snapshots.keys with
  | [] => history
  | oldest :: _ => fun sym => (history sym).dropWhile fun p => p.1 < oldest

/-- The loop that takes days out, of at most `fuel` rounds. -/
def verdraenge (snapshotLen : Nat) : Nat → LstmPanelStore → LstmPanelStore
  | 0, s => s
  | fuel + 1, s =>
      if snapshotLen < s.snapshots.entries.length then
        verdraenge snapshotLen fuel
          ⟨pruneHistoryBefore s.snapshots.popFirst s.history, s.snapshots.popFirst⟩
      else s

/-- `record_cycle`, in memory. -/
def recordCycle (historyLen snapshotLen : Nat) (asOf : Tag) (ranked : List Zeile)
    (s : LstmPanelStore) : LstmPanelStore :=
  let r := ranked.foldl (zeile historyLen asOf) (s.history, Dict.empty)
  let snapshots := s.snapshots.pushLast asOf r.2
  verdraenge snapshotLen snapshots.entries.length ⟨r.1, snapshots⟩

/-! ## The tables that are read -/

/-- One step of the search of `cross_section_at`. -/
def besser (d : Tag) (best : Option (Tag × Tafel)) (e : Tag × Tafel) : Option (Tag × Tafel) :=
  if e.1 ≤ d ∧ best.all (fun b => b.1 < e.1) then some e else best

def crossSectionAt (asOf : Tag) (s : LstmPanelStore) : Tafel :=
  match s.snapshots.entries.foldl (besser asOf) none with
  | none => Dict.empty
  | some (_, best) => best

/-- The days a trend looks at, the newest first. -/
def trendTage (asOf : Tag) (window : Nat) (s : LstmPanelStore) : List Tag :=
  ((s.snapshots.keys.filter fun sd => sd ≤ asOf).insertionSort (· ≥ ·)).take window

/-- The scores of each symbol over some days. -/
def samples (dates : List Tag) (s : LstmPanelStore) : Dict String (List Rat) :=
  dates.foldl (fun acc sd =>
    Dict.collect Prod.fst (fun e werte => some (werte.getD [] ++ [e.2]))
      ((s.snapshots.get? sd).getD Dict.empty).entries acc) Dict.empty

def crossSectionSmoothed (asOf windowDays minCoverage : Int) (s : LstmPanelStore) : Tafel :=
  let dates := trendTage asOf (max 1 windowDays).toNat s
  let effectiveFloor := min (max 1 minCoverage).toNat dates.length
  Dict.collect Prod.fst
    (fun e _ => if e.2.length < effectiveFloor then none else some (median e.2))
    (samples dates s).entries Dict.empty

/-- The settings of the ranking. -/
structure Glaettung where
  rankSmoothingEnabled : Bool
  windowDays : Int
  minCoverage : Int
deriving DecidableEq, Repr

/-- `active_cross_section`, with the settings if the configuration can be read. -/
def activeCrossSection (cfg : Option Glaettung) (asOf : Tag) (s : LstmPanelStore) : Tafel :=
  match cfg with
  | none => crossSectionAt asOf s
  | some cfg =>
      if cfg.rankSmoothingEnabled then
        crossSectionSmoothed asOf (if cfg.windowDays = 0 then 10 else cfg.windowDays)
          (if cfg.minCoverage = 0 then 5 else cfg.minCoverage) s
      else crossSectionAt asOf s

/-- `cross_section_standing`: percentile, rank and number of symbols. -/
def crossSectionStanding (xsec : Tafel) (symbol : String) : Option (Rat × Nat × Nat) :=
  (xsec.get? symbol).map fun base =>
    let vals := xsec.entries.map Prod.snd
    (100 * (vals.countP (· < base)) / vals.length, 1 + vals.countP (base < ·), vals.length)

/-- The score of a symbol on a day of the window. -/
def LstmPanelStore.lookup (s : LstmPanelStore) (d : Tag) (sym : String) : Option Rat :=
  (s.snapshots.get? d).bind fun snap => snap.get? sym

theorem lookup_eq_none {s : LstmPanelStore} {d : Tag} (h : d ∉ s.snapshots.keys) (sym : String) :
    s.lookup d sym = none := by
  rw [Dict.mem_keys, Bool.not_eq_true, Option.isSome_eq_false_iff, Option.isNone_iff_eq_none] at h
  rw [LstmPanelStore.lookup, h]
  rfl

/-! ## What a cycle does to the snapshots -/

section

variable {historyLen snapshotLen fuel : Nat} {d : Tag} {ranked : List Zeile}
  {s : LstmPanelStore} {sym : String}

/-- The rows of a cycle build its snapshot, whatever the points are. -/
theorem foldl_zeile_snd (history : String → List (Tag × Rat)) (snap : Tafel) :
    (ranked.foldl (zeile historyLen d) (history, snap)).2 =
      Dict.collect Prod.fst (fun e _ => some e.2) (ranked.filterMap id) snap := by
  induction ranked generalizing history snap with
  | nil => rfl
  | cons row ranked ih =>
      cases row with
      | none => exact ih history snap
      | some e => exact ih _ _

theorem snapshots_verdraenge (h : s.snapshots.entries.length ≤ fuel) :
    (verdraenge snapshotLen fuel s).snapshots =
      s.snapshots.dropFirst (s.snapshots.entries.length - snapshotLen) := by
  induction fuel generalizing s with
  | zero =>
      rw [Nat.le_zero.mp h, Nat.zero_sub, Dict.dropFirst_zero]
      rfl
  | succ fuel ih =>
      rw [verdraenge]
      split
      next hlt =>
        have hlen : s.snapshots.popFirst.entries.length = s.snapshots.entries.length - 1 :=
          List.length_tail
        rw [ih (by simp only [hlen]; omega), Dict.dropFirst_popFirst]
        simp only [hlen]
        congr 1
        omega
      next hge =>
        rw [Nat.sub_eq_zero_of_le (by omega), Dict.dropFirst_zero]

/-- The snapshots after a cycle: its own day comes last, and the first days go when
there are too many. -/
theorem snapshots_recordCycle : (recordCycle historyLen snapshotLen d ranked s).snapshots =
    (s.snapshots.pushLast d (schnappschuss ranked)).dropFirst
      ((s.snapshots.pushLast d (schnappschuss ranked)).entries.length - snapshotLen) := by
  rw [recordCycle, foldl_zeile_snd]
  exact snapshots_verdraenge le_rfl

/-- The days of the window after a cycle. -/
def tageNach (snapshotLen : Nat) (d : Tag) (keys : List Tag) : List Tag :=
  (touch d keys).rtake snapshotLen

theorem keys_recordCycle : (recordCycle historyLen snapshotLen d ranked s).snapshots.keys =
    tageNach snapshotLen d s.snapshots.keys := by
  have hlen : (s.snapshots.pushLast d (schnappschuss ranked)).entries.length =
      (s.snapshots.pushLast d (schnappschuss ranked)).keys.length :=
    List.length_map _ |>.symm
  rw [snapshots_recordCycle, Dict.keys_dropFirst, hlen, Dict.keys_pushLast, tageNach, touch,
    List.rtake]

theorem lookup_recordCycle (k : Tag) (sym : String) :
    (recordCycle historyLen snapshotLen d ranked s).lookup k sym =
      if k ∈ tageNach snapshotLen d s.snapshots.keys then
        if d = k then (schnappschuss ranked).get? sym else s.lookup k sym
      else none := by
  have hkeys := @keys_recordCycle historyLen snapshotLen d ranked s
  rw [snapshots_recordCycle, Dict.keys_dropFirst] at hkeys
  rw [LstmPanelStore.lookup, snapshots_recordCycle, Dict.get?_dropFirst, hkeys]
  split
  next =>
    rw [Dict.get?_pushLast]
    split <;> rfl
  next => rfl

end

/-! ## What the tables read -/

section

variable {s : LstmPanelStore} {asOf : Tag} {sym : String}

def stichtag (asOf : Tag) (keys : List Tag) : Option Tag :=
  (keys.filter fun k => k ≤ asOf).max?

theorem stichtag_eq_some {keys : List Tag} {k : Tag} : stichtag asOf keys = some k ↔
    (k ∈ keys ∧ k ≤ asOf) ∧ ∀ k' ∈ keys, k' ≤ asOf → k' ≤ k := by
  rw [stichtag, List.max?_eq_some_iff]
  simp only [List.mem_filter, decide_eq_true_eq, and_imp]

theorem stichtag_eq_none {keys : List Tag} :
    stichtag asOf keys = none ↔ ∀ k ∈ keys, ¬k ≤ asOf := by
  rw [stichtag, List.max?_eq_none_iff, List.filter_eq_nil_iff]
  simp only [decide_eq_true_eq]

/-- What the search has found in the entries it has seen. -/
def Gefunden (asOf : Tag) (entries : List (Tag × Tafel)) : Option (Tag × Tafel) → Prop
  | none => ∀ e ∈ entries, ¬e.1 ≤ asOf
  | some b => b ∈ entries ∧ b.1 ≤ asOf ∧ ∀ e ∈ entries, e.1 ≤ asOf → e.1 ≤ b.1

theorem foldl_besser (asOf : Tag) (entries : List (Tag × Tafel)) :
    Gefunden asOf entries (entries.foldl (besser asOf) none) := by
  induction entries using List.reverseRecOn with
  | nil => exact nofun
  | append_singleton entries e ih =>
      rw [List.foldl_append, List.foldl_cons, List.foldl_nil, besser]
      cases hbest : entries.foldl (besser asOf) none with
      | none =>
          rw [hbest] at ih
          by_cases he : e.1 ≤ asOf
          · rw [if_pos ⟨he, rfl⟩]
            refine ⟨by simp, he, fun e' he' hle => ?_⟩
            rcases List.mem_append.mp he' with he' | he'
            · exact absurd hle (ih e' he')
            · rw [List.mem_singleton.mp he']
          · rw [if_neg fun h => he h.1]
            intro e' he'
            rcases List.mem_append.mp he' with he' | he'
            · exact ih e' he'
            · rw [List.mem_singleton.mp he']
              exact he
      | some b =>
          rw [hbest] at ih
          obtain ⟨hmem, hle, hmax⟩ := ih
          by_cases he : e.1 ≤ asOf ∧ b.1 < e.1
          · rw [if_pos ⟨he.1, by simpa using he.2⟩]
            refine ⟨by simp, he.1, fun e' he' hle' => ?_⟩
            rcases List.mem_append.mp he' with he' | he'
            · exact (hmax e' he' hle').trans he.2.le
            · rw [List.mem_singleton.mp he']
          · rw [if_neg fun h => he ⟨h.1, by simpa using h.2⟩]
            refine ⟨List.mem_append_left _ hmem, hle, fun e' he' hle' => ?_⟩
            rcases List.mem_append.mp he' with he' | he'
            · exact hmax e' he' hle'
            · rw [List.mem_singleton.mp he'] at hle' ⊢
              exact le_of_not_gt fun hlt => he ⟨hle', hlt⟩

theorem get?_crossSectionAt (sym : String) : (crossSectionAt asOf s).get? sym =
    (stichtag asOf s.snapshots.keys).bind fun k => s.lookup k sym := by
  have hfound := foldl_besser asOf s.snapshots.entries
  rw [crossSectionAt]
  cases hbest : s.snapshots.entries.foldl (besser asOf) none with
  | none =>
      rw [hbest] at hfound
      have hnone : stichtag asOf s.snapshots.keys = none := by
        rw [stichtag_eq_none]
        intro k hk
        obtain ⟨e, he, rfl⟩ := List.mem_map.mp hk
        exact hfound e he
      rw [hnone]
      rfl
  | some b =>
      rw [hbest] at hfound
      obtain ⟨hmem, hle, hmax⟩ := hfound
      have hsome : stichtag asOf s.snapshots.keys = some b.1 := by
        rw [stichtag_eq_some]
        refine ⟨⟨List.mem_map_of_mem hmem, hle⟩, fun k hk hka => ?_⟩
        obtain ⟨e, he, rfl⟩ := List.mem_map.mp hk
        exact hmax e he hka
      have hget : s.snapshots.get? b.1 = some b.2 := Dict.mem_entries_iff.mp hmem
      rw [hsome, Option.bind_some, LstmPanelStore.lookup, hget]
      rfl

/-- The scores a trend is taken of: those of its days that have one. -/
def werte (dates : List Tag) (s : LstmPanelStore) (sym : String) : List Rat :=
  dates.filterMap fun sd => s.lookup sd sym

theorem get?_samples (dates : List Tag) (s : LstmPanelStore) (sym : String) :
    (samples dates s).get? sym =
      if werte dates s sym = [] then none else some (werte dates s sym) := by
  induction dates using List.reverseRecOn with
  | nil => rfl
  | append_singleton dates sd ih =>
      have hwerte : werte (dates ++ [sd]) s sym =
          werte dates s sym ++ (s.lookup sd sym).toList := by
        rw [werte, werte, List.filterMap_append]
        cases h : s.lookup sd sym with
        | none => simp [h]
        | some score => simp [h]
      rw [samples, List.foldl_append, List.foldl_cons, List.foldl_nil,
        Dict.get?_collect_entries, hwerte]
      have hlookup : ((s.snapshots.get? sd).getD Dict.empty).get? sym = s.lookup sd sym := by
        rw [LstmPanelStore.lookup]
        cases s.snapshots.get? sd <;> rfl
      rw [hlookup]
      change (samples dates s).get? sym = _ at ih
      cases hscore : s.lookup sd sym with
      | none => simpa [samples] using ih
      | some score =>
          change (some (((samples dates s).get? sym).getD [] ++ [score])).or _ = _
          rw [ih]
          by_cases hleer : werte dates s sym = []
          · simp [hleer]
          · simp [hleer]

/-- `cross_section_smoothed` has the median of a symbol that enough days have. -/
theorem get?_crossSectionSmoothed (windowDays minCoverage : Int) (sym : String) :
    (crossSectionSmoothed asOf windowDays minCoverage s).get? sym =
      let dates := trendTage asOf (max 1 windowDays).toNat s
      let xs := werte dates s sym
      if xs = [] ∨ xs.length < min (max 1 minCoverage).toNat dates.length then none
      else some (median xs) := by
  rw [crossSectionSmoothed]
  simp only
  rw [Dict.get?_collect_entries, get?_samples]
  by_cases hleer : werte (trendTage asOf (max 1 windowDays).toNat s) s sym = []
  · simp [hleer]
  · rw [if_neg hleer]
    simp only [hleer, false_or]
    split <;> rfl

end

/-! ## Tables that answer alike -/

/-- A standing reads the answers of a table, and not its order. -/
theorem crossSectionStanding_congr {xsec xsec' : Tafel} (h : ∀ sym, xsec.get? sym = xsec'.get? sym)
    (symbol : String) : crossSectionStanding xsec symbol = crossSectionStanding xsec' symbol := by
  have hperm : (xsec.entries.map Prod.snd).Perm (xsec'.entries.map Prod.snd) :=
    (Dict.perm_of_get?_eq h).map Prod.snd
  rw [crossSectionStanding, crossSectionStanding, h symbol]
  refine congrArg (Option.map · (xsec'.get? symbol)) (funext fun base => ?_)
  simp only
  rw [hperm.countP_eq, hperm.countP_eq, hperm.length_eq]

/-- Two stores have the same days up to a date, and the same scores on them. -/
structure Gleich (asOf : Tag) (s s' : LstmPanelStore) : Prop where
  keys : s.snapshots.keys.filter (· ≤ asOf) = s'.snapshots.keys.filter (· ≤ asOf)
  lookup : ∀ d ≤ asOf, ∀ sym, s.lookup d sym = s'.lookup d sym

section

variable {s s' : LstmPanelStore} {asOf : Tag}

theorem Gleich.activeCrossSection (h : Gleich asOf s s') (cfg : Option Glaettung) (sym : String) :
    (activeCrossSection cfg asOf s).get? sym = (activeCrossSection cfg asOf s').get? sym := by
  have hat : ∀ sym, (crossSectionAt asOf s).get? sym = (crossSectionAt asOf s').get? sym := by
    intro sym
    rw [get?_crossSectionAt, get?_crossSectionAt, stichtag, stichtag, h.keys]
    cases hs : (s'.snapshots.keys.filter (· ≤ asOf)).max? with
    | none => rfl
    | some k => exact h.lookup k (stichtag_eq_some.mp hs).1.2 sym
  have hsmoothed : ∀ w c sym, (crossSectionSmoothed asOf w c s).get? sym =
      (crossSectionSmoothed asOf w c s').get? sym := by
    intro w c sym
    have htage : ∀ n, trendTage asOf n s = trendTage asOf n s' := by
      intro n
      rw [trendTage, trendTage, h.keys]
    have hwerte : ∀ n, werte (trendTage asOf n s') s sym = werte (trendTage asOf n s') s' sym := by
      intro n
      refine List.filterMap_congr fun sd hsd => h.lookup sd ?_ sym
      have hmem := List.mem_of_mem_take hsd
      rw [List.mem_insertionSort, List.mem_filter] at hmem
      simpa using hmem.2
    rw [get?_crossSectionSmoothed, get?_crossSectionSmoothed]
    simp only [htage, hwerte]
  cases cfg with
  | none => exact hat sym
  | some cfg =>
      rw [LstmPanel.activeCrossSection, LstmPanel.activeCrossSection]
      cases cfg.rankSmoothingEnabled with
      | true => exact hsmoothed _ _ sym
      | false => exact hat sym

end

/-! ## A single day does not make a trend -/

section

variable {s : LstmPanelStore} {asOf windowDays minCoverage : Int} {sym : String} {x : Rat}

/-- A symbol of the trend table: enough days have it, and its trend score is their
median. -/
theorem get?_smoothed_spec
    (h : (crossSectionSmoothed asOf windowDays minCoverage s).get? sym = some x) :
    min (max 1 minCoverage).toNat (trendTage asOf (max 1 windowDays).toNat s).length ≤
        (werte (trendTage asOf (max 1 windowDays).toNat s) s sym).length ∧
      x = median (werte (trendTage asOf (max 1 windowDays).toNat s) s sym) := by
  rw [get?_crossSectionSmoothed] at h
  simp only at h
  split at h
  next => cases h
  next hcov =>
    rw [not_or, not_lt] at hcov
    exact ⟨hcov.2, (Option.some.inj h).symm⟩

/-! ## Standings -/

/-- A symbol with a greater score has the better rank and the higher percentile. -/
theorem crossSectionStanding_lt {xsec : Tafel} {a b : String} {x y : Rat}
    (hx : xsec.get? a = some x) (hy : xsec.get? b = some y) (hlt : y < x) :
    ∃ p m q n len, crossSectionStanding xsec a = some (p, m, len) ∧
      crossSectionStanding xsec b = some (q, n, len) ∧ m < n ∧ q < p := by
  have hxmem : x ∈ xsec.entries.map Prod.snd :=
    List.mem_map_of_mem (f := Prod.snd) (Dict.mem_entries_iff.mpr hx)
  have hymem : y ∈ xsec.entries.map Prod.snd :=
    List.mem_map_of_mem (f := Prod.snd) (Dict.mem_entries_iff.mpr hy)
  have hlen : (0 : Rat) < (xsec.entries.map Prod.snd).length := by
    exact_mod_cast List.length_pos_of_mem hxmem
  refine ⟨_, _, _, _, _, by rw [crossSectionStanding, hx]; rfl,
    by rw [crossSectionStanding, hy]; rfl, ?_, ?_⟩
  · exact Nat.add_lt_add_left (countP_above_lt hxmem hlt) 1
  · have hbelow : ((xsec.entries.map Prod.snd).countP (· < y) : Rat) <
        (xsec.entries.map Prod.snd).countP (· < x) := by
      exact_mod_cast countP_below_lt hymem hlt
    show (100 : Rat) * (xsec.entries.map Prod.snd).countP (· < y) /
        (xsec.entries.map Prod.snd).length <
      100 * (xsec.entries.map Prod.snd).countP (· < x) / (xsec.entries.map Prod.snd).length
    gcongr

/-- In the trend table a symbol that was at a level or above it on most of its days
stands before one that was at a lower level or below it on most of its days. -/
theorem mehrheit_entscheidet {a b : String} {x y oben unten : Rat} (hlt : unten < oben)
    (hx : (crossSectionSmoothed asOf windowDays minCoverage s).get? a = some x)
    (hy : (crossSectionSmoothed asOf windowDays minCoverage s).get? b = some y)
    (ha : (werte (trendTage asOf (max 1 windowDays).toNat s) s a).length <
      2 * (werte (trendTage asOf (max 1 windowDays).toNat s) s a).countP (oben ≤ ·))
    (hb : (werte (trendTage asOf (max 1 windowDays).toNat s) s b).length <
      2 * (werte (trendTage asOf (max 1 windowDays).toNat s) s b).countP (· ≤ unten)) :
    ∃ p m q n len,
      crossSectionStanding (crossSectionSmoothed asOf windowDays minCoverage s) a =
          some (p, m, len) ∧
        crossSectionStanding (crossSectionSmoothed asOf windowDays minCoverage s) b =
          some (q, n, len) ∧ m < n ∧ q < p := by
  obtain ⟨-, hmedx⟩ := get?_smoothed_spec hx
  obtain ⟨-, hmedy⟩ := get?_smoothed_spec hy
  refine crossSectionStanding_lt hx hy ?_
  calc y = median (werte (trendTage asOf (max 1 windowDays).toNat s) s b) := hmedy
    _ ≤ unten := median_le hb
    _ < oben := hlt
    _ ≤ median (werte (trendTage asOf (max 1 windowDays).toNat s) s a) := le_median ha
    _ = x := hmedx.symm

/-- A steady symbol and one with a spike on the last day. -/
def spitze : LstmPanelStore :=
  ⟨fun _ => [], (((Dict.empty.set 1 ((Dict.empty.set "A" 3).set "B" 1)).set 2
    ((Dict.empty.set "A" 3).set "B" 1)).set 3 ((Dict.empty.set "A" 3).set "B" 9))⟩

/-- The steady one stands first. -/
theorem mehrheit_entscheidet_spitze : ∃ p m q n len,
    crossSectionStanding (crossSectionSmoothed 3 10 5 spitze) "A" = some (p, m, len) ∧
      crossSectionStanding (crossSectionSmoothed 3 10 5 spitze) "B" = some (q, n, len) ∧
      m < n ∧ q < p :=
  mehrheit_entscheidet (x := 3) (y := 1) (show (1 : Rat) < 2 by norm_num) (by decide)
    (by decide) (by decide) (by decide)

end

end LstmPanel
