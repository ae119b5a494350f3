import AutonomousEngine.Panel.Stichtag

/-!
# The window in the database

`SqlPanelPersistence` keeps the snapshots of the window in a table with one row per
day and symbol.  A cycle replaces the rows of its day and deletes those of the days
before the window.  A process that starts reads the newest days back
(`hydrateFrom`), whatever the order of the rows is.

What the table says about a window is `Verwahrt`: it has the rows of every day of the
window, and other rows are older, and there are such rows only when the window is
full.
-/

namespace LstmPanel

open Basis

/-- A row of `lstm_panel_snapshots`. -/
abbrev Satz := Tag × String × Rat

/-- `sorted(..)` of days. -/
def sorted (ks : List Tag) : List Tag := ks.insertionSort (· ≤ ·)

/-- The slice `[-n:]`. -/
def ende {α : Type} (n : Nat) (xs : List α) : List α := if n = 0 then xs else xs.rtake n

/-- `save`: the rows of a day are replaced, by at least one row. -/
def save (d : Tag) (rows : List (String × Rat)) (tabelle : List Satz) : List Satz :=
  if rows = [] then tabelle
  else (tabelle.filter fun r => decide (r.1 ≠ d)) ++ rows.map fun e => (d, e.1, e.2)

def pruneBefore (oldest : Tag) (tabelle : List Satz) : List Satz :=
  tabelle.filter fun r => oldest ≤ r.1

/-- `load`: the rows of the newest days, by day and symbol. -/
def load (maxDates : Nat) (tabelle : List Satz) : List Satz :=
  let keep := ende maxDates (sorted (tabelle.map Prod.fst).dedup)
  (tabelle.filter fun r => r.1 ∈ keep).insertionSort fun a b =>
    a.1 < b.1 ∨ a.1 = b.1 ∧ a.2.1 ≤ b.2.1

def grouped (rows : List Satz) : Dict Tag Tafel :=
  Dict.collect Prod.fst (fun r o => some ((o.getD Dict.empty).set r.2.1 r.2.2)) rows Dict.empty

def moveToEnd (snapshots : Dict Tag Tafel) (d : Tag) : Dict Tag Tafel :=
  match snapshots.get? d with
  | none => snapshots
  | some snap => snapshots.pushLast d snap

/-- The snapshots after the days of some rows were put among them. -/
def hydrateSnapshots (snapshotLen : Nat) (g : Dict Tag Tafel) (snapshots : Dict Tag Tafel) :
    Dict Tag Tafel :=
  let keep := ende snapshotLen (sorted g.keys)
  let voll := Dict.collect id (fun d _ => g.get? d) keep snapshots
  let geordnet := (sorted voll.keys).foldl moveToEnd voll
  geordnet.dropFirst (geordnet.entries.length - snapshotLen)

/-- The points of the symbols, from the snapshots. -/
def hydrateHistory (historyLen : Nat) (snapshots : Dict Tag Tafel) :
    String → List (Tag × Rat) :=
  (sorted snapshots.keys).foldl (fun history d sym =>
    match ((snapshots.get? d).getD Dict.empty).get? sym with
    | none => history sym
    | some score => (history sym ++ [(d, score)]).rtake historyLen) fun _ => []

/-- `hydrate_from`; a malformed row is `none`. -/
def hydrateFrom (historyLen snapshotLen : Nat) (rows : List (Option Satz)) (s : LstmPanelStore) :
    LstmPanelStore :=
  let g := grouped (rows.filterMap id)
  if g.entries = [] then s
  else
    let snapshots := hydrateSnapshots snapshotLen g s.snapshots
    ⟨hydrateHistory historyLen snapshots, snapshots⟩

/-! ## Days in order -/

section

variable {ks ks' : List Tag} {n : Nat}

theorem sorted_pairwise (h : ks.Nodup) : (sorted ks).Pairwise (· < ·) := by
  have hle : (sorted ks).Pairwise (· ≤ ·) := List.sortedLE_insertionSort.pairwise
  have hne : (sorted ks).Pairwise (· ≠ ·) := (List.perm_insertionSort _ ks).nodup_iff.mpr h
  exact (hle.and hne).imp fun h => lt_of_le_of_ne h.1 h.2

@[simp] theorem mem_sorted {k : Tag} : k ∈ sorted ks ↔ k ∈ ks := List.mem_insertionSort _

/-- Ascending lists with the same members are the same. -/
theorem eq_of_pairwise (h : ks.Pairwise (· < ·)) (h' : ks'.Pairwise (· < ·))
    (hmem : ∀ k, k ∈ ks ↔ k ∈ ks') : ks = ks' := by
  have hperm : ks.Perm ks' := (List.perm_ext_iff_of_nodup (h.imp ne_of_lt)
    (h'.imp ne_of_lt)).mpr hmem
  exact hperm.eq_of_pairwise (fun a b _ _ hab hba => absurd (hab.trans hba) (lt_irrefl a)) h h'

theorem ende_of_length_le {α : Type} {xs : List α} (h : xs.length ≤ n) : ende n xs = xs := by
  rw [ende]
  split
  next => rfl
  next => exact rtake_of_length_le h

/-- The newest days of a list are those of a window, if the others are older and there
are others only when the window is full. -/
theorem ende_eq (hn : 0 < n) (hks : ks.Pairwise (· < ·)) (hks' : ks'.Pairwise (· < ·))
    (hsub : ∀ k ∈ ks', k ∈ ks)
    (hlen : ks'.length ≤ n) (halt : ∀ k ∈ ks, k ∉ ks' → (∀ k' ∈ ks', k < k') ∧ ks'.length = n) :
    ende n ks = ks' := by
  have hsplit : ks = ks.filter (fun k => decide (k ∉ ks')) ++ ks' := by
    refine eq_of_pairwise hks ?_ fun k => ?_
    · rw [List.pairwise_append]
      refine ⟨hks.sublist List.filter_sublist, hks', fun k hk k' hk' => ?_⟩
      obtain ⟨hmem, hnot⟩ := List.mem_filter.mp hk
      exact (halt k hmem (by simpa using hnot)).1 k' hk'
    · rw [List.mem_append, List.mem_filter, decide_eq_true_eq]
      constructor
      · intro hk
        by_cases hk' : k ∈ ks'
        · exact .inr hk'
        · exact .inl ⟨hk, hk'⟩
      · rintro (hk | hk)
        · exact hk.1
        · exact hsub k hk
  by_cases hleer : ks.filter (fun k => decide (k ∉ ks')) = []
  · rw [hleer, List.nil_append] at hsplit
    rw [hsplit]
    exact ende_of_length_le hlen
  · obtain ⟨k, hk⟩ := List.exists_mem_of_ne_nil _ hleer
    obtain ⟨hmem, hnot⟩ := List.mem_filter.mp hk
    obtain ⟨-, rfl⟩ := halt k hmem (by simpa using hnot)
    rw [ende]
    split
    next hzero => omega
    next =>
      rw [List.rtake, hsplit, List.length_append, Nat.add_sub_cancel, List.drop_left]

end

/-! ## The rows of the days -/

/-- A day and a symbol have one row at most. -/
def Eindeutig (rows : List Satz) : Prop :=
  ∀ d sym x y, (d, sym, x) ∈ rows → (d, sym, y) ∈ rows → x = y

section

variable {rows : List Satz} {d : Tag} {sym : String} {x : Rat}

theorem grouped_append (rows : List Satz) (r : Satz) : grouped (rows ++ [r]) =
    (grouped rows).put r.1 (some ((((grouped rows).get? r.1).getD Dict.empty).set r.2.1 r.2.2)) :=
  List.foldl_append

/-- The score of a symbol on a day, from rows without contradiction. -/
theorem get?_grouped (h : Eindeutig rows) :
    ((grouped rows).get? d).bind (fun snap => snap.get? sym) = some x ↔ (d, sym, x) ∈ rows := by
  induction rows using List.reverseRecOn generalizing x with
  | nil => simp [grouped, Dict.collect]
  | append_singleton rows r ih =>
      obtain ⟨d', sym', x'⟩ := r
      have hrest : Eindeutig rows := fun d sym x y hx hy =>
        h d sym x y (List.mem_append_left _ hx) (List.mem_append_left _ hy)
      rw [grouped_append, Dict.get?_put, List.mem_append, List.mem_singleton]
      by_cases hd : d' = d
      · subst hd
        rw [if_pos rfl, Option.some_or, Option.bind_some, Dict.get?_set]
        by_cases hsym : sym' = sym
        · subst hsym
          rw [if_pos rfl, Option.some.injEq]
          constructor
          · rintro rfl
            exact .inr rfl
          · rintro (hmem | heq)
            · exact h d' sym' x' x (by simp) (List.mem_append_left _ hmem)
            · exact (Prod.mk.inj (Prod.mk.inj heq).2).2.symm
        · rw [if_neg hsym]
          have hne : (d', sym, x) ≠ (d', sym', x') := fun heq =>
            hsym (Prod.mk.inj (Prod.mk.inj heq).2).1.symm
          have hget : (((grouped rows).get? d').getD Dict.empty).get? sym =
              ((grouped rows).get? d').bind fun snap => snap.get? sym := by
            cases (grouped rows).get? d' <;> rfl
          show (((grouped rows).get? d').getD Dict.empty).get? sym = some x ↔ _
          rw [hget, ih hrest]
          exact ⟨.inl, fun h => h.resolve_right hne⟩
      · have hne : (d, sym, x) ≠ (d', sym', x') := fun heq => hd (Prod.mk.inj heq).1.symm
        rw [if_neg hd, ih hrest]
        exact ⟨.inl, fun h => h.resolve_right hne⟩

theorem mem_keys_grouped : d ∈ (grouped rows).keys ↔ ∃ r ∈ rows, r.1 = d := by
  induction rows using List.reverseRecOn with
  | nil => simp [grouped, Dict.collect, Dict.keys, Dict.empty]
  | append_singleton rows r ih =>
      rw [Dict.mem_keys] at ih ⊢
      rw [grouped_append, Dict.get?_put]
      by_cases hd : r.1 = d
      · simp [hd]
      · rw [if_neg hd, ih]
        simp [hd]

/-! ## Moving days to the end -/

theorem get?_moveToEnd (snapshots : Dict Tag Tafel) (k k' : Tag) :
    (moveToEnd snapshots k).get? k' = snapshots.get? k' := by
  rw [moveToEnd]
  split
  next => rfl
  next snap h =>
    rw [Dict.get?_pushLast]
    split
    next heq => rw [← heq, h]
    next => rfl

theorem get?_foldl_moveToEnd (ks : List Tag) (snapshots : Dict Tag Tafel) (k : Tag) :
    (ks.foldl moveToEnd snapshots).get? k = snapshots.get? k := by
  induction ks generalizing snapshots with
  | nil => rfl
  | cons k' ks ih => rw [List.foldl_cons, ih, get?_moveToEnd]

/-- All days moved to the end, in an order of their own. -/
theorem keys_foldl_moveToEnd {ks : List Tag} {snapshots : Dict Tag Tafel} (h : ks.Nodup)
    (hmem : ∀ k ∈ ks, k ∈ snapshots.keys) :
    (ks.foldl moveToEnd snapshots).keys =
      snapshots.keys.filter (fun k => decide (k ∉ ks)) ++ ks := by
  induction ks generalizing snapshots with
  | nil => simp
  | cons k ks ih =>
      obtain ⟨hk, hks⟩ := List.nodup_cons.mp h
      obtain ⟨snap, hsnap⟩ := Option.isSome_iff_exists.mp
        (Dict.mem_keys.mp (hmem k List.mem_cons_self))
      have hmove : (moveToEnd snapshots k).keys =
          snapshots.keys.filter (fun k' => decide (k' ≠ k)) ++ [k] := by
        rw [moveToEnd, hsnap]
        exact Dict.keys_pushLast snapshots k snap
      rw [List.foldl_cons, ih hks, hmove, List.filter_append, List.filter_filter]
      · rw [List.filter_cons_of_pos (by simpa using hk), List.filter_nil, List.append_assoc]
        congr 1
        refine List.filter_congr fun k' _ => ?_
        simp only [List.mem_cons, not_or, ne_eq, Bool.decide_and, Bool.and_comm]
      · intro k' hk'
        rw [hmove, List.mem_append, List.mem_filter]
        have hne : k' ≠ k := fun heq => hk (heq ▸ hk')
        exact .inl ⟨hmem k' (List.mem_cons_of_mem k hk'), by simpa using hne⟩

/-- The days of a window, ascending. -/
theorem keys_foldl_moveToEnd_sorted (snapshots : Dict Tag Tafel) :
    ((sorted snapshots.keys).foldl moveToEnd snapshots).keys = sorted snapshots.keys := by
  have hnodup : (sorted snapshots.keys).Nodup :=
    (sorted_pairwise snapshots.nodup_keys).imp ne_of_lt
  rw [keys_foldl_moveToEnd hnodup fun k hk => mem_sorted.mp hk]
  have hleer : snapshots.keys.filter (fun k => decide (k ∉ sorted snapshots.keys)) = [] := by
    rw [List.filter_eq_nil_iff]
    intro k hk
    simpa using hk
  rw [hleer, List.nil_append]

end

/-! ## Reading the window back -/

/-- What the table says about a window. -/
structure Verwahrt (snapshotLen : Nat) (s : LstmPanelStore) (tabelle : List Satz) : Prop where
  geordnet : s.snapshots.keys.Pairwise (· < ·)
  passt : s.snapshots.keys.length ≤ snapshotLen
  /-- Every day of the window has a score. -/
  belegt : ∀ d ∈ s.snapshots.keys, ∃ sym x, s.lookup d sym = some x
  saetze : ∀ d ∈ s.snapshots.keys, ∀ sym x, (d, sym, x) ∈ tabelle ↔ s.lookup d sym = some x
  aelter : ∀ r ∈ tabelle, r.1 ∉ s.snapshots.keys →
    (∀ d ∈ s.snapshots.keys, r.1 < d) ∧ s.snapshots.keys.length = snapshotLen

section

variable {historyLen snapshotLen : Nat} {s s' : LstmPanelStore} {tabelle : List Satz}

/-- The rows that are read are those of the window. -/
theorem Verwahrt.mem_load (h : Verwahrt snapshotLen s tabelle) (hn : 0 < snapshotLen) (d : Tag)
    (sym : String) (x : Rat) :
    (d, sym, x) ∈ load snapshotLen tabelle ↔ s.lookup d sym = some x := by
  have hkeep : ende snapshotLen (sorted (tabelle.map Prod.fst).dedup) = s.snapshots.keys := by
    refine ende_eq hn (sorted_pairwise (List.nodup_dedup _)) h.geordnet ?_ h.passt ?_
    · intro k hk
      obtain ⟨sym, x, hx⟩ := h.belegt k hk
      rw [mem_sorted, List.mem_dedup]
      exact List.mem_map_of_mem ((h.saetze k hk sym x).mpr hx)
    · intro k hk hnot
      rw [mem_sorted, List.mem_dedup] at hk
      obtain ⟨r, hr, rfl⟩ := List.mem_map.mp hk
      exact h.aelter r hr hnot
  rw [load]
  simp only [hkeep, List.mem_insertionSort, List.mem_filter, decide_eq_true_eq]
  constructor
  · rintro ⟨hmem, hd⟩
    exact (h.saetze d hd sym x).mp hmem
  · intro hx
    have hd : d ∈ s.snapshots.keys := by
      by_contra hnot
      rw [lookup_eq_none hnot] at hx
      cases hx
    exact ⟨(h.saetze d hd sym x).mpr hx, hd⟩

/-- A new process has the days and the scores of the old one. -/
theorem Verwahrt.hydrateFrom (h : Verwahrt snapshotLen s tabelle) (hn : 0 < snapshotLen) :
    (hydrateFrom historyLen snapshotLen ((load snapshotLen tabelle).map some)
        .leer).snapshots.keys = s.snapshots.keys ∧
      ∀ d sym, (LstmPanel.hydrateFrom historyLen snapshotLen
        ((load snapshotLen tabelle).map some) .leer).lookup d sym = s.lookup d sym := by
  have hload := h.mem_load hn
  have hrows : ((load snapshotLen tabelle).map some).filterMap id = load snapshotLen tabelle := by
    simp
  generalize load snapshotLen tabelle = rows at hload hrows
  have heindeutig : Eindeutig rows := by
    intro d sym x y hx hy
    rw [hload] at hx hy
    exact Option.some.inj (hx.symm.trans hy)
  have hget : ∀ d sym, ((grouped rows).get? d).bind (fun snap => snap.get? sym) =
      s.lookup d sym := by
    intro d sym
    refine Option.ext fun x => ?_
    rw [get?_grouped heindeutig, hload]
  have hkeys : ∀ d, d ∈ (grouped rows).keys ↔ d ∈ s.snapshots.keys := by
    intro d
    rw [mem_keys_grouped]
    constructor
    · rintro ⟨⟨d, sym, x⟩, hr, rfl⟩
      by_contra hnot
      rw [hload, lookup_eq_none hnot] at hr
      cases hr
    · intro hd
      obtain ⟨sym, x, hx⟩ := h.belegt d hd
      exact ⟨(d, sym, x), (hload d sym x).mpr hx, rfl⟩
  rw [LstmPanel.hydrateFrom, hrows]
  by_cases hleer : (grouped rows).entries = []
  · -- Nothing was read, so there was no day.
    have hkeine : s.snapshots.keys = [] := by
      rw [List.eq_nil_iff_forall_not_mem]
      intro d hd
      rw [← hkeys d, Dict.keys, hleer] at hd
      cases hd
    simp only [hleer, if_true]
    refine ⟨hkeine.symm, fun d sym => ?_⟩
    rw [lookup_eq_none (s := s) (by rw [hkeine]; exact List.not_mem_nil)]
    rfl
  · simp only [hleer, if_false]
    have hsorted : sorted (grouped rows).keys = s.snapshots.keys :=
      eq_of_pairwise (sorted_pairwise (grouped rows).nodup_keys) h.geordnet fun d => by
        rw [mem_sorted, hkeys d]
    have hkeep : ende snapshotLen (sorted (grouped rows).keys) = s.snapshots.keys := by
      rw [hsorted]
      exact ende_of_length_le h.passt
    have hvoll : ∀ d, (Dict.collect id (fun d _ => (grouped rows).get? d) s.snapshots.keys
        (LstmPanelStore.leer).snapshots).get? d = (grouped rows).get? d := by
      intro d
      rw [Dict.get?_collect_keys]
      split
      next => exact Option.or_none
      next hnot =>
        rw [← hkeys d, Dict.mem_keys, Bool.not_eq_true, Option.isSome_eq_false_iff,
          Option.isNone_iff_eq_none] at hnot
        rw [hnot]
        rfl
    have hvollkeys : sorted (Dict.collect id (fun d _ => (grouped rows).get? d) s.snapshots.keys
        (LstmPanelStore.leer).snapshots).keys = s.snapshots.keys := by
      refine eq_of_pairwise (sorted_pairwise (Dict.nodup_keys _)) h.geordnet fun d => ?_
      rw [mem_sorted, Dict.mem_keys, hvoll, ← Dict.mem_keys, hkeys d]
    have hsnapshots : hydrateSnapshots snapshotLen (grouped rows)
        (LstmPanelStore.leer).snapshots = (sorted (Dict.collect id
          (fun d _ => (grouped rows).get? d) s.snapshots.keys
          (LstmPanelStore.leer).snapshots).keys).foldl moveToEnd (Dict.collect id
            (fun d _ => (grouped rows).get? d) s.snapshots.keys
            (LstmPanelStore.leer).snapshots) := by
      rw [hydrateSnapshots, hkeep]
      generalize Dict.collect id _ s.snapshots.keys (LstmPanelStore.leer).snapshots = voll
        at hvollkeys
      have hlen : ((sorted voll.keys).foldl moveToEnd voll).entries.length ≤ snapshotLen := by
        have hkeyslen : ((sorted voll.keys).foldl moveToEnd voll).entries.length =
            ((sorted voll.keys).foldl moveToEnd voll).keys.length := (List.length_map _).symm
        rw [hkeyslen, keys_foldl_moveToEnd_sorted, hvollkeys]
        exact h.passt
      rw [Nat.sub_eq_zero_of_le hlen, Dict.dropFirst_zero]
    rw [hsnapshots]
    refine ⟨by rw [keys_foldl_moveToEnd_sorted, hvollkeys], fun d sym => ?_⟩
    rw [LstmPanelStore.lookup]
    show ((List.foldl moveToEnd _ _).get? d).bind _ = _
    rw [get?_foldl_moveToEnd, hvoll, hget]

end

end LstmPanel
