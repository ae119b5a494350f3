import AutonomousEngine.Panel.Fenster

/-!
# What a table of a date depends on

A ranking is read for a date.  The days after it are in the window too, when a table
of the past is asked for, and their cycles may come in any order.  Two runs whose
cycles have the same days, and the same rows on the days up to a date, give the same
tables and standings for this date (`kein_blick_voraus`): no score of a later day has
any influence.

When the days come in order, the snapshot a date reads is final once the date has
passed.  Later cycles leave it as it is or take it out of the window
(`vergangenheit_fest`).
-/

namespace LstmPanel

open Basis

abbrev Zyklus := Tag × List Zeile

def lauf (historyLen snapshotLen : Nat) (zyklen : List Zyklus) (s : LstmPanelStore) :
    LstmPanelStore :=
  zyklen.foldl (fun s z => recordCycle historyLen snapshotLen z.1 z.2 s) s

section

variable {historyLen snapshotLen : Nat} {asOf d : Tag} {ranked ranked' : List Zeile}
  {s s' : LstmPanelStore} {zyklen zyklen' : List Zyklus} {keys : List Tag}

theorem lauf_append (zyklen zyklen' : List Zyklus) :
    lauf historyLen snapshotLen (zyklen ++ zyklen') s =
      lauf historyLen snapshotLen zyklen' (lauf historyLen snapshotLen zyklen s) :=
  List.foldl_append

/-! ## Later scores -/

/-- Two stores with the same days, and the same scores up to a date. -/
structure GleichBis (asOf : Tag) (s s' : LstmPanelStore) : Prop where
  keys : s.snapshots.keys = s'.snapshots.keys
  lookup : ∀ d ≤ asOf, ∀ sym, s.lookup d sym = s'.lookup d sym

theorem GleichBis.gleich (h : GleichBis asOf s s') : Gleich asOf s s' :=
  ⟨by rw [h.keys], h.lookup⟩

/-- Two cycles of the same day, with the same ranking if the day is not after the
date. -/
def GleicherZyklus (asOf : Tag) (z z' : Zyklus) : Prop := z.1 = z'.1 ∧ (z.1 ≤ asOf → z.2 = z'.2)

theorem GleichBis.recordCycle (h : GleichBis asOf s s') (hr : d ≤ asOf → ranked = ranked') :
    GleichBis asOf (recordCycle historyLen snapshotLen d ranked s)
      (recordCycle historyLen snapshotLen d ranked' s') where
  keys := by rw [keys_recordCycle, keys_recordCycle, h.keys]
  lookup := by
    intro k hk sym
    rw [lookup_recordCycle, lookup_recordCycle, h.keys, h.lookup k hk]
    by_cases hd : d = k
    · rw [hr (hd.trans_le hk)]
    · rw [if_neg hd, if_neg hd]

/-- Rankings of later days have no influence on the tables of a date, in whatever
order the cycles come. -/
theorem kein_blick_voraus (h : List.Forall₂ (GleicherZyklus asOf) zyklen zyklen')
    (hs : GleichBis asOf s s') (cfg : Option Glaettung) :
    (∀ sym, (activeCrossSection cfg asOf (lauf historyLen snapshotLen zyklen s)).get? sym =
        (activeCrossSection cfg asOf (lauf historyLen snapshotLen zyklen' s')).get? sym) ∧
      ∀ sym, crossSectionStanding (activeCrossSection cfg asOf
          (lauf historyLen snapshotLen zyklen s)) sym =
        crossSectionStanding (activeCrossSection cfg asOf
          (lauf historyLen snapshotLen zyklen' s')) sym := by
  have hlauf : GleichBis asOf (lauf historyLen snapshotLen zyklen s)
      (lauf historyLen snapshotLen zyklen' s') := by
    induction h generalizing s s' with
    | nil => exact hs
    | @cons z z' zyklen zyklen' hz _ ih =>
        obtain ⟨d, ranked⟩ := z
        obtain ⟨d', ranked'⟩ := z'
        obtain ⟨rfl, hr⟩ := hz
        exact ih (hs.recordCycle hr)
  have hget := hlauf.gleich.activeCrossSection cfg
  exact ⟨hget, fun sym => crossSectionStanding_congr hget sym⟩

/-- Two rankings of tomorrow, and the table of today. -/
theorem kein_blick_voraus_morgen :
    (activeCrossSection none 1 (lauf 20 20 [(1, [some ("A", 2)]), (2, [some ("A", 5)])]
        .leer)).get? "A" =
      (activeCrossSection none 1 (lauf 20 20 [(1, [some ("A", 2)]), (2, [some ("A", 9), none])]
        .leer)).get? "A" :=
  (kein_blick_voraus (.cons ⟨rfl, fun _ => rfl⟩ (.cons ⟨rfl, fun h => absurd h (by decide)⟩ .nil))
    ⟨rfl, fun _ _ _ => rfl⟩ none).1 "A"

/-! ## Days in order -/

/-- The days of a window are in order, and none is after `d`. -/
def Geordnet (d : Tag) (keys : List Tag) : Prop := keys.Pairwise (· < ·) ∧ ∀ k ∈ keys, k ≤ d

/-- The days of the cycles do not go back, from a day on. -/
def InFolge : Tag → List Zyklus → Prop
  | _, [] => True
  | d, z :: zyklen => d ≤ z.1 ∧ InFolge z.1 zyklen

instance decidableInFolge : (d : Tag) → (zyklen : List Zyklus) → Decidable (InFolge d zyklen)
  | _, [] => isTrue trivial
  | d, z :: zyklen =>
      have := decidableInFolge z.1 zyklen
      inferInstanceAs (Decidable (d ≤ z.1 ∧ InFolge z.1 zyklen))

theorem Geordnet.tageNach {d' : Tag} (h : Geordnet d keys) (hd : d ≤ d') :
    Geordnet d' (tageNach snapshotLen d' keys) := by
  have hfilter : (keys.filter fun k => decide (k ≠ d')).Pairwise (· < ·) :=
    h.1.sublist List.filter_sublist
  have hlast : ∀ k ∈ keys.filter (fun k => decide (k ≠ d')), k < d' := by
    intro k hk
    rw [List.mem_filter] at hk
    exact lt_of_le_of_ne ((h.2 k hk.1).trans hd) (by simpa using hk.2)
  have hpairwise : (touch d' keys).Pairwise (· < ·) := by
    rw [touch, List.pairwise_append]
    refine ⟨hfilter, by simp, fun k hk k' hk' => ?_⟩
    rw [List.mem_singleton.mp hk']
    exact hlast k hk
  refine ⟨hpairwise.sublist (rtake_sublist snapshotLen _), fun k hk => ?_⟩
  rcases mem_touch.mp ((rtake_sublist snapshotLen _).mem hk) with rfl | hk
  · exact le_rfl
  · exact (h.2 k hk).trans hd

theorem tageNach_of_lt (hd : asOf < d) :
    ∃ n, (tageNach snapshotLen d keys).filter (· ≤ asOf) = (keys.filter (· ≤ asOf)).drop n := by
  have hfilter : (touch d keys).filter (· ≤ asOf) = keys.filter (· ≤ asOf) := by
    rw [touch, List.filter_append, List.filter_filter, List.filter_cons_of_neg (by simpa using hd),
      List.filter_nil, List.append_nil]
    refine List.filter_congr fun k _ => ?_
    by_cases hk : k ≤ asOf
    · have hne : k ≠ d := (lt_of_le_of_lt hk hd).ne
      simp [hk, hne]
    · simp [hk]
  rw [← hfilter, tageNach, List.rtake]
  generalize touch d keys = xs
  generalize xs.length - snapshotLen = n
  induction n generalizing xs with
  | zero => exact ⟨0, rfl⟩
  | succ n ih =>
      cases xs with
      | nil => exact ⟨0, rfl⟩
      | cons x xs =>
          obtain ⟨m, hm⟩ := ih xs
          rw [List.drop_succ_cons, hm]
          by_cases hx : x ≤ asOf
          · exact ⟨m + 1, by rw [List.filter_cons_of_pos (by simpa using hx), List.drop_succ_cons]⟩
          · exact ⟨m, by rw [List.filter_cons_of_neg (by simpa using hx)]⟩

/-- Cycles of later days take days up to a date out, the first ones first, and change
no score of the others. -/
theorem lauf_spaeter (h : ∀ z ∈ zyklen, asOf < z.1) :
    (∃ n, (lauf historyLen snapshotLen zyklen s).snapshots.keys.filter (· ≤ asOf) =
        (s.snapshots.keys.filter (· ≤ asOf)).drop n) ∧
      ∀ k ≤ asOf, ∀ sym, (lauf historyLen snapshotLen zyklen s).lookup k sym =
        if k ∈ (lauf historyLen snapshotLen zyklen s).snapshots.keys then s.lookup k sym
        else none := by
  induction zyklen using List.reverseRecOn with
  | nil =>
      refine ⟨⟨0, rfl⟩, fun k _ sym => ?_⟩
      split
      next => rfl
      next hk => exact lookup_eq_none hk sym
  | append_singleton zyklen z ih =>
      have hz : asOf < z.1 := h z (by simp)
      obtain ⟨⟨n, hn⟩, hlookup⟩ := ih fun z' hz' => h z' (by simp [hz'])
      rw [lauf_append]
      generalize lauf historyLen snapshotLen zyklen s = t at hn hlookup
      show (∃ n, (recordCycle historyLen snapshotLen z.1 z.2 t).snapshots.keys.filter _ = _) ∧
        ∀ k ≤ asOf, ∀ sym, (recordCycle historyLen snapshotLen z.1 z.2 t).lookup k sym =
          if k ∈ (recordCycle historyLen snapshotLen z.1 z.2 t).snapshots.keys then _ else _
      rw [keys_recordCycle]
      obtain ⟨m, hm⟩ := tageNach_of_lt hz
      refine ⟨⟨n + m, by rw [hm, hn, List.drop_drop]⟩, fun k hk sym => ?_⟩
      rw [lookup_recordCycle, if_neg (lt_of_le_of_lt hk hz).ne', hlookup k hk]
      split
      next hmem =>
        rw [if_pos]
        rcases mem_touch.mp ((rtake_sublist snapshotLen _).mem hmem) with hk' | hk'
        · exact absurd hk' (lt_of_le_of_lt hk hz).ne
        · exact hk'
      next => rfl

/-- A day that is not taken out stays the last one up to a date. -/
theorem stichtag_drop {keys' : List Tag} {n : Nat} (h : keys.Pairwise (· < ·))
    (hdrop : keys'.filter (· ≤ asOf) = (keys.filter (· ≤ asOf)).drop n) :
    stichtag asOf keys' = (stichtag asOf keys).filter fun k => k ∈ keys' := by
  have hmem : ∀ k, k ∈ keys' ∧ k ≤ asOf ↔ k ∈ (keys.filter (· ≤ asOf)).drop n := by
    intro k
    rw [← hdrop, List.mem_filter, decide_eq_true_eq]
  cases hk : stichtag asOf keys with
  | none =>
      rw [stichtag_eq_none] at hk
      rw [Option.filter_none, stichtag_eq_none]
      intro k hk' hle
      have hin := List.mem_filter.mp (List.mem_of_mem_drop ((hmem k).mp ⟨hk', hle⟩))
      exact hk k hin.1 hle
  | some k =>
      obtain ⟨⟨hkeys, hle⟩, hmax⟩ := stichtag_eq_some.mp hk
      by_cases hk' : k ∈ keys'
      · rw [Option.filter_some_pos (by simpa using hk'), stichtag_eq_some]
        refine ⟨⟨hk', hle⟩, fun k₁ hk₁ hle₁ => ?_⟩
        have hin := List.mem_filter.mp (List.mem_of_mem_drop ((hmem k₁).mp ⟨hk₁, hle₁⟩))
        exact hmax k₁ hin.1 hle₁
      · -- The last of the days is gone, so all of them are.
        rw [Option.filter_some_neg (by simpa using hk'), stichtag_eq_none]
        intro k₁ hk₁ hle₁
        have hdrop₁ := (hmem k₁).mp ⟨hk₁, hle₁⟩
        have hnot : k ∉ (keys.filter (· ≤ asOf)).drop n := fun hin => hk' ((hmem k).mpr hin).1
        have hin : k ∈ keys.filter (· ≤ asOf) := List.mem_filter.mpr ⟨hkeys, by simpa using hle⟩
        rw [← List.take_append_drop n (keys.filter (· ≤ asOf)), List.mem_append] at hin
        have hsorted : (keys.filter (· ≤ asOf)).Pairwise (· < ·) := h.sublist List.filter_sublist
        rw [← List.take_append_drop n (keys.filter (· ≤ asOf)), List.pairwise_append] at hsorted
        have hlt : k < k₁ := hsorted.2.2 k (hin.resolve_right hnot) k₁ hdrop₁
        have hin₁ := List.mem_filter.mp (List.mem_of_mem_drop hdrop₁)
        exact absurd (hmax k₁ hin₁.1 hle₁) (not_le_of_gt hlt)

theorem geordnet_lauf (h : Geordnet d s.snapshots.keys) (hf : InFolge d zyklen) :
    ∃ d', Geordnet d' (lauf historyLen snapshotLen zyklen s).snapshots.keys := by
  induction zyklen generalizing s d with
  | nil => exact ⟨d, h⟩
  | cons z zyklen ih =>
      refine ih ?_ hf.2
      rw [keys_recordCycle]
      exact h.tageNach hf.1

/-- When the days come in order, the table of a date that has passed is final: later
cycles leave every score, or the day it reads is out of the window and the table is
empty. -/
theorem vergangenheit_fest {vorher nachher : List Zyklus} (hf : InFolge d vorher)
    (hn : ∀ z ∈ nachher, asOf < z.1) (sym : String) :
    (crossSectionAt asOf (lauf historyLen snapshotLen (vorher ++ nachher) .leer)).get? sym =
      if (stichtag asOf (lauf historyLen snapshotLen vorher .leer).snapshots.keys).all fun k =>
          k ∈ (lauf historyLen snapshotLen (vorher ++ nachher) .leer).snapshots.keys
      then (crossSectionAt asOf (lauf historyLen snapshotLen vorher .leer)).get? sym
      else none := by
  have hleer : Geordnet d LstmPanelStore.leer.snapshots.keys := ⟨.nil, nofun⟩
  obtain ⟨d', hd'⟩ := geordnet_lauf
    hleer hf
  rw [lauf_append, get?_crossSectionAt, get?_crossSectionAt]
  generalize lauf historyLen snapshotLen vorher .leer = s at hd'
  obtain ⟨⟨n, hdrop⟩, hlookup⟩ := lauf_spaeter
    (s := s) hn
  rw [stichtag_drop hd'.1 hdrop]
  cases hk : stichtag asOf s.snapshots.keys with
  | none => simp
  | some k =>
      have hle : k ≤ asOf := (stichtag_eq_some.mp hk).1.2
      by_cases hmem : k ∈ (lauf historyLen snapshotLen nachher s).snapshots.keys
      · rw [Option.filter_some_pos (by simpa using hmem), Option.bind_some, hlookup k hle]
        simp [hmem]
      · rw [Option.filter_some_neg (by simpa using hmem)]
        simp [hmem]

/-- Yesterday's table after today's cycle. -/
theorem vergangenheit_fest_gestern :
    (crossSectionAt 1 (lauf 20 20 ([(1, [some ("A", 2)])] ++ [(2, [some ("A", 5)])])
      .leer)).get? "A" = some 2 := by
  rw [vergangenheit_fest (d := 0) (by decide) (by decide)]
  decide

end

end LstmPanel
