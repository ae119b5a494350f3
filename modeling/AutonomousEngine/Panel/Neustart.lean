import AutonomousEngine.Panel.Ablage

/-!
# A restart that nobody sees

The engine restarts at least once a day, and a new process reads its window from the
table.  A run with restarts is compared with the same cycles in one process that
never stops.  As long as the days do not go back, every cycle has a score and is
saved, and every restart can read the table, the two give the same ranking and the same
standing of every symbol, for every date and every setting (`neustart_unsichtbar`).
Whether the old rows are deleted does not matter.
-/

namespace LstmPanel

open Basis

/-- What happens to a process. -/
inductive Ereignis where
  /-- A cycle, whether it is saved, and whether the old rows are then deleted. -/
  | zyklus (d : Tag) (ranked : List Zeile) (gespeichert geloescht : Bool)
  /-- Whether the table can be read. -/
  | neustart (geladen : Bool)
deriving DecidableEq, Repr

/-- The window of the process and the table. -/
structure Prozess where
  store : LstmPanelStore
  tabelle : List Satz

/-- `record_cycle` with the table: an empty snapshot is not saved. -/
def persistCycle (d : Tag) (ranked : List Zeile) (gespeichert geloescht : Bool)
    (nachher : LstmPanelStore) (tabelle : List Satz) : List Satz :=
  if (schnappschuss ranked).entries = [] ∨ gespeichert = false then tabelle
  else
    let t := save d (schnappschuss ranked).entries tabelle
    match (sorted nachher.snapshots.keys).head? with
    | some oldest => if geloescht then pruneBefore oldest t else t
    | none => t

/-- `hydrate_from_persistence` of a new process: a load that fails leaves an empty window. -/
def hydrateFromPersistence (historyLen snapshotLen : Nat) (geladen : Bool)
    (tabelle : List Satz) : LstmPanelStore :=
  if geladen then hydrateFrom historyLen snapshotLen ((load snapshotLen tabelle).map some) .leer
  else .leer

def geschieht (historyLen snapshotLen : Nat) (p : Prozess) : Ereignis → Prozess
  | .zyklus d ranked gespeichert geloescht =>
      let store := recordCycle historyLen snapshotLen d ranked p.store
      ⟨store, persistCycle d ranked gespeichert geloescht store p.tabelle⟩
  | .neustart geladen =>
      ⟨hydrateFromPersistence historyLen snapshotLen geladen p.tabelle, p.tabelle⟩

def zyklen (es : List Ereignis) : List Zyklus :=
  es.filterMap fun
    | .zyklus d ranked _ _ => some (d, ranked)
    | .neustart _ => none

/-- The days do not go back, every cycle has a well-formed row and is saved, and every restart
reads the table. -/
def Gesichert : Tag → List Ereignis → Prop
  | _, [] => True
  | d, .zyklus d' ranked gespeichert _ :: es =>
      d ≤ d' ∧ ranked.filterMap id ≠ [] ∧ gespeichert = true ∧ Gesichert d' es
  | d, .neustart geladen :: es => geladen = true ∧ Gesichert d es

instance decidableGesichert : (d : Tag) → (es : List Ereignis) → Decidable (Gesichert d es)
  | _, [] => isTrue trivial
  | d, .zyklus d' ranked gespeichert _ :: es =>
      have := decidableGesichert d' es
      inferInstanceAs (Decidable
        (d ≤ d' ∧ ranked.filterMap id ≠ [] ∧ gespeichert = true ∧ Gesichert d' es))
  | d, .neustart geladen :: es =>
      have := decidableGesichert d es
      inferInstanceAs (Decidable (geladen = true ∧ Gesichert d es))

/-- Two windows with the same days and scores. -/
structure Ununterscheidbar (s s' : LstmPanelStore) : Prop where
  keys : s.snapshots.keys = s'.snapshots.keys
  lookup : ∀ d sym, s.lookup d sym = s'.lookup d sym

section

variable {historyLen snapshotLen : Nat} {s s' : LstmPanelStore} {tabelle : List Satz} {d d' : Tag}
  {ranked : List Zeile}

theorem Ununterscheidbar.gleich (h : Ununterscheidbar s s') (asOf : Tag) : Gleich asOf s s' :=
  ⟨by rw [h.keys], fun d _ sym => h.lookup d sym⟩

theorem Ununterscheidbar.recordCycle (h : Ununterscheidbar s s') :
    Ununterscheidbar (recordCycle historyLen snapshotLen d ranked s)
      (recordCycle historyLen snapshotLen d ranked s') where
  keys := by rw [keys_recordCycle, keys_recordCycle, h.keys]
  lookup := by
    intro k sym
    rw [lookup_recordCycle, lookup_recordCycle, h.keys, h.lookup k]

/-- What the table says of a window it says of one that looks the same. -/
theorem Verwahrt.congr (h : Verwahrt snapshotLen s tabelle) (hs : Ununterscheidbar s s') :
    Verwahrt snapshotLen s' tabelle where
  geordnet := hs.keys ▸ h.geordnet
  passt := hs.keys ▸ h.passt
  belegt := by
    intro d hd
    rw [← hs.keys] at hd
    obtain ⟨sym, x, hx⟩ := h.belegt d hd
    exact ⟨sym, x, by rw [← hs.lookup, hx]⟩
  saetze := by
    intro d hd sym x
    rw [← hs.keys] at hd
    rw [← hs.lookup, h.saetze d hd]
  aelter := by
    intro r hr hnot
    rw [← hs.keys] at hnot ⊢
    exact h.aelter r hr hnot

/-! ## A cycle that is saved -/

theorem schnappschuss_ne_nil (h : ranked.filterMap id ≠ []) :
    ∃ sym x, (schnappschuss ranked).get? sym = some x := by
  obtain ⟨e, es, hes⟩ : ∃ e es, ranked.filterMap id = es ++ [e] :=
    ⟨_, _, (List.dropLast_append_getLast h).symm⟩
  refine ⟨e.1, e.2, ?_⟩
  rw [schnappschuss, hes, Dict.collect, List.foldl_append]
  simp

theorem tageNach_eq (k : Tag) (hk : k ∈ tageNach snapshotLen d s.snapshots.keys) :
    k = d ∨ k ∈ s.snapshots.keys := by
  exact mem_touch.mp ((rtake_sublist snapshotLen _).mem hk)

theorem mem_tageNach_self (hn : 0 < snapshotLen) (keys : List Tag) :
    d ∈ tageNach snapshotLen d keys := by
  obtain ⟨n, rfl⟩ : ∃ n, snapshotLen = n + 1 := ⟨snapshotLen - 1, by omega⟩
  rw [tageNach, touch, List.rtake_concat_succ]
  simp

theorem mem_save {rows : List (String × Rat)} (hrows : rows ≠ []) {k : Tag} {sym : String}
    {x : Rat} : (k, sym, x) ∈ save d rows tabelle ↔
      if k = d then (sym, x) ∈ rows else (k, sym, x) ∈ tabelle := by
  rw [save, if_neg hrows, List.mem_append, List.mem_filter, List.mem_map]
  by_cases hk : k = d
  · simp [hk]
  · simp [hk, Ne.symm hk]

/-- The rows after a saved cycle: those of its day are its snapshot, and only days
before the window may go. -/
theorem mem_persistCycle {nachher : LstmPanelStore} {geloescht : Bool}
    (hr : ranked.filterMap id ≠ []) {k : Tag} {sym : String} {x : Rat} :
    ((k, sym, x) ∈ persistCycle d ranked true geloescht nachher tabelle →
      if k = d then (schnappschuss ranked).get? sym = some x else (k, sym, x) ∈ tabelle) ∧
    (k ∈ nachher.snapshots.keys →
      (if k = d then (schnappschuss ranked).get? sym = some x else (k, sym, x) ∈ tabelle) →
        (k, sym, x) ∈ persistCycle d ranked true geloescht nachher tabelle) := by
  have hrows : (schnappschuss ranked).entries ≠ [] := by
    obtain ⟨sym, x, hx⟩ := schnappschuss_ne_nil hr
    exact List.ne_nil_of_mem (Dict.mem_entries_iff.mpr hx)
  have hsave := @mem_save tabelle d _ hrows k sym x
  rw [Dict.mem_entries_iff] at hsave
  rw [persistCycle, if_neg (by simp [hrows])]
  simp only
  cases hoben : (sorted nachher.snapshots.keys).head? with
  | none => exact ⟨hsave.mp, fun _ => hsave.mpr⟩
  | some oldest =>
      cases geloescht with
      | false => exact ⟨hsave.mp, fun _ => hsave.mpr⟩
      | true =>
          refine ⟨fun hmem => hsave.mp (List.mem_filter.mp hmem).1, fun hk hx => ?_⟩
          refine List.mem_filter.mpr ⟨hsave.mpr hx, ?_⟩
          obtain ⟨rest, hrest⟩ := List.head?_eq_some_iff.mp hoben
          have hsorted : (sorted nachher.snapshots.keys).Pairwise (· < ·) :=
            sorted_pairwise nachher.snapshots.nodup_keys
          have hmem : k ∈ sorted nachher.snapshots.keys := mem_sorted.mpr hk
          rw [hrest, List.pairwise_cons] at hsorted
          rw [hrest, List.mem_cons] at hmem
          rcases hmem with rfl | hmem
          · simp
          · simpa using (hsorted.1 k hmem).le

/-- A day that leaves the window is before those that stay, and the window is full. -/
theorem verdraengt (hk : s.snapshots.keys.Pairwise (· < ·)) (hd : ∀ k ∈ s.snapshots.keys, k ≤ d)
    {k : Tag} (hmem : k ∈ s.snapshots.keys)
    (hnot : k ∉ tageNach snapshotLen d s.snapshots.keys) :
    (∀ k' ∈ tageNach snapshotLen d s.snapshots.keys, k < k') ∧
      (tageNach snapshotLen d s.snapshots.keys).length = snapshotLen := by
  have hsorted : (touch d s.snapshots.keys).Pairwise (· < ·) := by
    have hg : Geordnet d (tageNach (s.snapshots.keys.length + 1) d s.snapshots.keys) :=
      Geordnet.tageNach ⟨hk, hd⟩ le_rfl
    rw [tageNach, rtake_of_length_le (length_touch_le d s.snapshots.keys)] at hg
    exact hg.1
  have hin : k ∈ touch d s.snapshots.keys := mem_touch.mpr (.inr hmem)
  rw [tageNach, List.rtake] at hnot ⊢
  generalize touch d s.snapshots.keys = xs at hsorted hin hnot
  rw [← List.take_append_drop (xs.length - snapshotLen) xs, List.mem_append] at hin
  have htake := hin.resolve_right hnot
  rw [← List.take_append_drop (xs.length - snapshotLen) xs, List.pairwise_append] at hsorted
  refine ⟨hsorted.2.2 k htake, ?_⟩
  have hpos : 0 < (xs.take (xs.length - snapshotLen)).length := List.length_pos_of_mem htake
  rw [List.length_take] at hpos
  rw [List.length_drop]
  omega

theorem length_tageNach (hk : s.snapshots.keys.length = snapshotLen) :
    (tageNach snapshotLen d s.snapshots.keys).length = snapshotLen := by
  have hle : s.snapshots.keys.length ≤ (touch d s.snapshots.keys).length :=
    length_le_touch s.snapshots.nodup_keys
  rw [tageNach, List.rtake, List.length_drop]
  omega

/-- A cycle on a day that is not before the others, saved, the old rows deleted or
not: the table keeps up with the window. -/
theorem Verwahrt.zyklus (h : Verwahrt snapshotLen s tabelle) (hn : 0 < snapshotLen)
    (hd : ∀ k ∈ s.snapshots.keys, k ≤ d) (hr : ranked.filterMap id ≠ []) (geloescht : Bool) :
    Verwahrt snapshotLen (recordCycle historyLen snapshotLen d ranked s)
      (persistCycle d ranked true geloescht (recordCycle historyLen snapshotLen d ranked s)
        tabelle) := by
  have hkeys := @keys_recordCycle historyLen snapshotLen d ranked s
  have hlookup := @lookup_recordCycle historyLen snapshotLen d ranked s
  have hself : d ∈ tageNach snapshotLen d s.snapshots.keys := mem_tageNach_self hn _
  refine ⟨?_, ?_, ?_, ?_, ?_⟩
  · rw [hkeys]
    exact (Geordnet.tageNach ⟨h.geordnet, hd⟩ le_rfl).1
  · rw [hkeys]
    exact length_rtake_le snapshotLen _
  · intro k hk
    rw [hkeys] at hk
    by_cases hkd : d = k
    · obtain ⟨sym, x, hx⟩ := schnappschuss_ne_nil hr
      exact ⟨sym, x, by rw [hlookup, if_pos hk, if_pos hkd, hx]⟩
    · have hold := (tageNach_eq k hk).resolve_left (Ne.symm hkd)
      obtain ⟨sym, x, hx⟩ := h.belegt k hold
      exact ⟨sym, x, by rw [hlookup, if_pos hk, if_neg hkd, hx]⟩
  · intro k hk sym x
    have hcycle := @mem_persistCycle tabelle d ranked
      (recordCycle historyLen snapshotLen d ranked s) geloescht hr k sym x
    have hiff : (if k = d then (schnappschuss ranked).get? sym = some x
        else (k, sym, x) ∈ tabelle) ↔
          (recordCycle historyLen snapshotLen d ranked s).lookup k sym = some x := by
      rw [hkeys] at hk
      rw [hlookup, if_pos hk]
      by_cases hkd : k = d
      · rw [if_pos hkd, if_pos hkd.symm]
      · rw [if_neg hkd, if_neg (Ne.symm hkd)]
        exact h.saetze k ((tageNach_eq k hk).resolve_left hkd) sym x
    exact ⟨fun hmem => hiff.mp (hcycle.1 hmem), fun hx => hcycle.2 hk (hiff.mpr hx)⟩
  · rintro ⟨k, sym, x⟩ hmem hnot
    have hcycle := (mem_persistCycle hr).1 hmem
    rw [hkeys] at hnot ⊢
    have hkd : k ≠ d := fun heq => hnot (heq ▸ hself)
    rw [if_neg hkd] at hcycle
    by_cases hold : k ∈ s.snapshots.keys
    · exact verdraengt h.geordnet hd hold hnot
    · obtain ⟨halt, hlen⟩ := h.aelter (k, sym, x) hcycle hold
      refine ⟨fun k' hk' => ?_, length_tageNach hlen⟩
      rcases tageNach_eq k' hk' with rfl | hk'
      · obtain ⟨k₁, hk₁⟩ : ∃ k₁, k₁ ∈ s.snapshots.keys :=
          List.exists_mem_of_length_pos (by omega)
        exact (halt k₁ hk₁).trans_le (hd k₁ hk₁)
      · exact halt k' hk'

/-! ## Runs with restarts -/

/-- A run keeps its table, and looks like the run without restarts. -/
theorem lauf_ununterscheidbar (historyLen : Nat) {es : List Ereignis} {p : Prozess}
    {t : LstmPanelStore} (hn : 0 < snapshotLen) (hs : Gesichert d es)
    (hp : Verwahrt snapshotLen p.store p.tabelle)
    (hd : ∀ k ∈ p.store.snapshots.keys, k ≤ d) (ht : Ununterscheidbar p.store t) :
    Ununterscheidbar (es.foldl (geschieht historyLen snapshotLen) p).store
      (lauf historyLen snapshotLen (zyklen es) t) := by
  induction es generalizing p t d with
  | nil => exact ht
  | cons e es ih =>
      cases e with
      | zyklus d' ranked gespeichert geloescht =>
          obtain ⟨hdd, hr, rfl, hrest⟩ := hs
          have hd' : ∀ k ∈ p.store.snapshots.keys, k ≤ d' := fun k hk => (hd k hk).trans hdd
          refine ih hrest (hp.zyklus hn hd' hr geloescht) ?_ ht.recordCycle
          show ∀ k ∈ (recordCycle historyLen snapshotLen d' ranked p.store).snapshots.keys, k ≤ d'
          rw [keys_recordCycle]
          exact (Geordnet.tageNach ⟨hp.geordnet, hd'⟩ le_rfl).2
      | neustart geladen =>
          obtain ⟨rfl, hrest⟩ := hs
          obtain ⟨hkeys, hlookup⟩ := hp.hydrateFrom hn
          have hneu : Ununterscheidbar p.store (geschieht historyLen snapshotLen p
              (.neustart true)).store :=
            ⟨hkeys.symm, fun d sym => (hlookup d sym).symm⟩
          refine ih hrest (hp.congr hneu) ?_ ⟨hneu.keys.symm.trans ht.keys, fun d sym => ?_⟩
          · rw [← hneu.keys]
            exact hd
          · rw [← hneu.lookup, ht.lookup]

def Prozess.leer : Prozess := ⟨.leer, []⟩

/-- A run with restarts anywhere gives the rankings and the standings of its cycles in
one process, for every date and every setting. -/
theorem neustart_unsichtbar {es : List Ereignis} (hn : 0 < snapshotLen) (hs : Gesichert d es)
    (asOf : Tag) (cfg : Option Glaettung) :
    (∀ sym, (activeCrossSection cfg asOf
          (es.foldl (geschieht historyLen snapshotLen) .leer).store).get? sym =
        (activeCrossSection cfg asOf
          (lauf historyLen snapshotLen (zyklen es) .leer)).get? sym) ∧
      ∀ sym, crossSectionStanding (activeCrossSection cfg asOf
          (es.foldl (geschieht historyLen snapshotLen) .leer).store) sym =
        crossSectionStanding (activeCrossSection cfg asOf
          (lauf historyLen snapshotLen (zyklen es) .leer)) sym := by
  have hleer : Verwahrt snapshotLen Prozess.leer.store Prozess.leer.tabelle :=
    ⟨.nil, Nat.zero_le _, nofun, nofun, nofun⟩
  have hlauf := lauf_ununterscheidbar historyLen hn hs hleer nofun
    (t := .leer) ⟨rfl, fun _ _ => rfl⟩
  have hget := (hlauf.gleich asOf).activeCrossSection cfg
  exact ⟨hget, fun sym => crossSectionStanding_congr hget sym⟩

/-- Two days, a restart and a third one. -/
theorem neustart_unsichtbar_dreitage :
    crossSectionStanding (activeCrossSection none 3
      (([.zyklus 1 [some ("A", 2), none] true true,
          .zyklus 2 [some ("A", 3), some ("B", 1)] true false, .neustart true,
          .zyklus 3 [some ("B", 4), some ("A", 5)] true true] : List Ereignis).foldl
        (geschieht 20 20) .leer).store) "A" =
      crossSectionStanding (activeCrossSection none 3
        (lauf 20 20 [(1, [some ("A", 2), none]), (2, [some ("A", 3), some ("B", 1)]),
          (3, [some ("B", 4), some ("A", 5)])] .leer)) "A" :=
  (neustart_unsichtbar (d := 0) (by decide) (by decide) 3 none).2 "A"

end

end LstmPanel
