import AutonomousEngine.Basis.Sums
import AutonomousEngine.Stops.Erkennung

/-!
# What rests after a plan

A stop that rests over more shares than are held is a short sale in waiting.
After the plan the resting quantity of a position is that of the wanted stops
together with what the plan leaves besides them (`liegtNachher_eq`).  A stop for
the day of an earlier session is such a surplus: for placing it counts as gone,
and for cancelling it counts as the stop that is wanted.  `abgedeckt_iff` says
when the plan covers every position and no share twice.
-/

namespace Stops

open Basis
open Idempotenz (Ziffern)
open Verkauf (minBrokerQty epsilon)

section

variable (digest : String → String) (z : Ziffern) (l : Lage)

/-! ## The resting quantity -/

/-- The signed quantity that is held of a symbol. -/
def Lage.gehalten (symbol : String) : ℚ :=
  ((l.positions.find? fun pos => pos.symbol = symbol).map (·.qty)).getD 0

def Lage.liegt (symbol : String) : ℚ :=
  sumOver (fun v => v.symbol = symbol) (·.qty) l.existingStops

/-- The id of a resting order, where it has one. -/
def LiegendeOrder.kennung (v : LiegendeOrder) : Option String := v.id.filter (· ≠ "")

/-- Whether a resting order is gone after the plan. -/
def Lage.entfernt (v : LiegendeOrder) : Bool :=
  v.id.any fun oid => oid ∈ (planBrokerStops digest z l).toCancel

/-- The resting quantity on a symbol after the plan. -/
def Lage.liegtNachher (symbol : String) : ℚ :=
  sumOver (fun v => v.symbol = symbol && !l.entfernt digest z v) (·.qty) l.existingStops +
    sumOver (fun s => s.symbol = symbol) (·.qty) (planBrokerStops digest z l).toPlace

/-- Nothing but own stops binds shares of a position. -/
def Lage.NurEigene (pos : Position) : Prop :=
  ∀ roh, pos.qtyAvailable = some roh → pos.qty ≤ roh + gebunden z pos.symbol l.existingStops

/-- Positions and resting stops as the broker reports them: every symbol once, no
more shares available than held, and own stops over no more shares than held. -/
structure Gueltig : Prop where
  verschieden : (l.positions.map (·.symbol)).Nodup
  verfuegbar : ∀ pos ∈ l.positions, ∀ roh, pos.qtyAvailable = some roh → roh ≤ pos.qty
  eigene : ∀ v ∈ l.existingStops, istEigenerStop z v = true
  mengen : ∀ v ∈ l.existingStops, 0 ≤ v.qty
  summe : ∀ symbol, l.liegt symbol ≤ max 0 (l.gehalten symbol)
  kennungen : (l.existingStops.filterMap (·.kennung)).Nodup

/-- After the plan no symbol has stops over more shares than are held long, and a
long position that is reported as protected and bound by own stops only lacks less
than the smallest quantity. -/
structure Abgedeckt : Prop where
  hoechstens : ∀ symbol, l.liegtNachher digest z symbol ≤ max 0 (l.gehalten symbol)
  mindestens : ∀ pos ∈ l.positions, pos.symbol ≠ "" → 0 < pos.qty →
    pos.symbol ∉ (planBrokerStops digest z l).unprotected.map Prod.fst → l.NurEigene z pos →
    pos.qty - l.liegtNachher digest z pos.symbol < minBrokerQty

/-! ## The surplus -/

/-- Whether the planner takes a wanted stop for resting already. -/
def Lage.gedeckt (stop : StopOrder) : Bool :=
  (vorhandene l.existingStops l.sessionDate l.existingSessionDate).any (passt · stop)

/-- What rests for a wanted stop beyond its quantity.  When the planner does not
take it for resting, this is everything. -/
def Lage.zuviel (stop : StopOrder) : ℚ :=
  sumOver (passt · stop) (·.qty) l.existingStops - if l.gedeckt stop then stop.qty else 0

/-- What rests besides the wanted stops and cannot be cancelled. -/
def Lage.unkuendbar (pos : Position) : ℚ :=
  sumOver (fun v => v.symbol = pos.symbol &&
    (v.kennung.isNone && !(l.beineFuer digest z pos).any (passt v))) (·.qty) l.existingStops

def Lage.soll (pos : Position) : ℚ := ((l.beineFuer digest z pos).map (·.qty)).sum

def Lage.ueberhang (pos : Position) : ℚ :=
  ((l.beineFuer digest z pos).map l.zuviel).sum + l.unkuendbar digest z pos

/-- The surplus of a position fits into the shares beyond the wanted stops, and
leaves no more of them uncovered than cannot be placed. -/
structure Tragbar (pos : Position) : Prop where
  lang : 0 < pos.qty
  platz : l.ueberhang digest z pos ≤ pos.qty - l.soll digest z pos
  luecke : l.NurEigene z pos →
    pos.qty - l.soll digest z pos - l.ueberhang digest z pos < minBrokerQty

end

variable {digest : String → String} {z : Ziffern} {l : Lage}

/-! ## The wanted stops -/

theorem minBrokerQty_pos : 0 < minBrokerQty := by
  norm_num [minBrokerQty]

theorem of_mem_beine {symbol : String} {qty preis : ℚ} {sessionDate : Option Date} {s : StopOrder}
    (h : s ∈ beine digest symbol qty preis sessionDate) :
    s.symbol = symbol ∧ minBrokerQty ≤ s.qty := by
  unfold beine at h
  rcases List.mem_append.mp h with h | h
  · split at h
    next hganze =>
      obtain rfl := List.mem_singleton.mp h
      refine ⟨rfl, le_trans ?_ hganze⟩
      norm_num [minBrokerQty]
    next => cases h
  · split at h
    next hrest =>
      obtain rfl := List.mem_singleton.mp h
      exact ⟨rfl, hrest⟩
    next => cases h

theorem beine_pairwise (symbol : String) (qty preis : ℚ) (sessionDate : Option Date) :
    (beine digest symbol qty preis sessionDate).Pairwise
      fun s t => s.timeInForce ≠ t.timeInForce := by
  unfold beine
  dsimp only
  split
  next =>
    split
    next => simp [bauen]
    next => simp
  next =>
    split
    next => simp
    next => simp

/-- Stops are wanted for a position when there is no reason against it. -/
theorem beineFuer_of_error {pos : Position} {grund : Grund}
    (h : gewuenscht digest z l.stopLossPct l.existingStops l.sessionDate pos = .error grund) :
    l.beineFuer digest z pos = [] := by
  rw [Lage.beineFuer, h]

theorem beineFuer_of_ok {pos : Position} {stops : List StopOrder}
    (h : gewuenscht digest z l.stopLossPct l.existingStops l.sessionDate pos = .ok stops) :
    l.beineFuer digest z pos = stops := by
  rw [Lage.beineFuer, h]

theorem beineFuer_cases (digest : String → String) (z : Ziffern) (l : Lage) (pos : Position) :
    (∃ grund, gewuenscht digest z l.stopLossPct l.existingStops l.sessionDate pos = .error grund ∧
      l.beineFuer digest z pos = []) ∨
    gewuenscht digest z l.stopLossPct l.existingStops l.sessionDate pos =
        .ok (l.beineFuer digest z pos) ∧ l.beineFuer digest z pos ≠ [] ∧
      l.beineFuer digest z pos = beine digest pos.symbol (menge z pos l.existingStops)
        (stopPreis pos.avgEntryPrice l.stopLossPct) l.sessionDate := by
  cases hw : gewuenscht digest z l.stopLossPct l.existingStops l.sessionDate pos with
  | error grund => exact .inl ⟨grund, rfl, beineFuer_of_error hw⟩
  | ok stops =>
      have hbeine := beineFuer_of_ok hw
      refine .inr ?_
      simp only [gewuenscht] at hw
      split at hw
      next => cases hw
      next =>
        split at hw
        next => cases hw
        next =>
          split at hw
          next => cases hw
          next =>
            split at hw
            next => cases hw
            next hne =>
              obtain rfl := Except.ok.inj hw
              exact ⟨congrArg _ hbeine.symm, hbeine ▸ hne, hbeine⟩

theorem of_mem_beineFuer {pos : Position} {s : StopOrder} (h : s ∈ l.beineFuer digest z pos) :
    s.symbol = pos.symbol ∧ minBrokerQty ≤ s.qty := by
  rcases beineFuer_cases digest z l pos with ⟨_, _, hnil⟩ | ⟨_, _, hbeine⟩
  · rw [hnil] at h
    cases h
  · rw [hbeine] at h
    exact of_mem_beine h

/-- No resting order covers two of the stops wanted for a position. -/
theorem beineFuer_pairwise (digest : String → String) (z : Ziffern) (l : Lage) (pos : Position) :
    (l.beineFuer digest z pos).Pairwise fun s t => ∀ v ∈ l.existingStops,
      passt v s = true → passt v t = false := by
  have hverschieden : (l.beineFuer digest z pos).Pairwise
      fun s t => s.timeInForce ≠ t.timeInForce := by
    rcases beineFuer_cases digest z l pos with ⟨_, _, hnil⟩ | ⟨_, _, hbeine⟩
    · rw [hnil]
      exact .nil
    · rw [hbeine]
      exact beine_pairwise _ _ _ _
  refine hverschieden.imp ?_
  intro s t hst v _ hs
  have htext : s.timeInForce.text ≠ t.timeInForce.text := by
    cases hs' : s.timeInForce <;> cases ht' : t.timeInForce <;> simp_all [TimeInForce.text]
  simp only [passt, Bool.and_eq_true, beq_iff_eq] at hs
  simp [passt, hs.1.1.2, htext]

theorem symbol_of_passt {v : LiegendeOrder} {s : StopOrder} (h : passt v s = true) :
    v.symbol = s.symbol := by
  simp only [passt, Bool.and_eq_true, beq_iff_eq] at h
  exact h.1.1.1

/-! ## What is placed and what is cancelled -/

theorem benannte_nodup (hl : (l.positions.map (·.symbol)).Nodup) :
    (l.benannte.map (·.symbol)).Nodup :=
  hl.sublist (List.filter_sublist.map _)

/-- The stops wanted on the symbol of a position are those wanted for it. -/
theorem alleGewuenschten_filter (hl : (l.positions.map (·.symbol)).Nodup) {pos : Position}
    (hpos : pos ∈ l.benannte) :
    (l.alleGewuenschten digest z).filter (fun s => s.symbol = pos.symbol) =
      l.beineFuer digest z pos :=
  filter_flatMap_of_mem (fun _ _ _ hs => (of_mem_beineFuer hs).1) (benannte_nodup hl) hpos

theorem alleGewuenschten_filter_of_notMem {symbol : String}
    (h : symbol ∉ l.benannte.map (·.symbol)) :
    (l.alleGewuenschten digest z).filter (fun s => s.symbol = symbol) = [] :=
  filter_flatMap_of_notMem (fun pos : Position => pos.symbol)
    (fun _ _ _ hs => (of_mem_beineFuer hs).1)
    fun _ hpos heq => h (heq ▸ List.mem_map_of_mem hpos)

/-- What is placed on a symbol is what is wanted on it and not resting. -/
theorem sumOver_toPlace (symbol : String) :
    sumOver (fun s => s.symbol = symbol) (·.qty) (planBrokerStops digest z l).toPlace =
      sumOver (fun s => !l.gedeckt s) (·.qty)
        ((l.alleGewuenschten digest z).filter fun s => s.symbol = symbol) := by
  simp only [sumOver, planBrokerStops, Lage.gedeckt, List.filter_filter, Bool.and_comm]

theorem raeumtAb_of_benannt (hl : (l.positions.map (·.symbol)).Nodup) {pos : Position}
    (hpos : pos ∈ l.benannte) {v : LiegendeOrder} (hv : v.symbol = pos.symbol) :
    l.raeumtAb digest z v =
      (!(l.beineFuer digest z pos).isEmpty && !(l.beineFuer digest z pos).any (passt v)) := by
  have hmem : pos.symbol ∈ l.benannte.map (·.symbol) := List.mem_map_of_mem hpos
  unfold Lage.raeumtAb
  dsimp only
  rw [hv, if_neg (not_not.mpr hmem), alleGewuenschten_filter hl hpos]

/-- A resting order is gone after the plan when it is cancelled and has an id. -/
theorem entfernt_eq (hl : (l.existingStops.filterMap (·.kennung)).Nodup) {v : LiegendeOrder}
    (hv : v ∈ l.existingStops) :
    l.entfernt digest z v = (v.kennung.isSome && l.raeumtAb digest z v) := by
  have hmem {oid : String} : oid ∈ (planBrokerStops digest z l).toCancel ↔
      ∃ w ∈ l.existingStops, w.kennung = some oid ∧ l.raeumtAb digest z w = true := by
    simp only [planBrokerStops, List.mem_filterMap]
    refine exists_congr fun w => and_congr_right fun _ => ?_
    cases hid : w.id with
    | none => simp [LiegendeOrder.kennung, hid]
    | some id =>
        by_cases hleer : id = ""
        · simp [LiegendeOrder.kennung, hid, hleer]
        · by_cases hweg : l.raeumtAb digest z w = true
          · simp only [LiegendeOrder.kennung, hid, hleer, hweg, ne_eq, not_false_eq_true, and_self,
              if_true, Option.filter_some, decide_true, and_true]
          · simp [hleer, hweg]
  rw [Bool.eq_iff_iff, Lage.entfernt]
  simp only [Option.any_eq_true, decide_eq_true_eq, Bool.and_eq_true]
  constructor
  · rintro ⟨oid, hid, hc⟩
    obtain ⟨w, hw, hkw, hweg⟩ := hmem.mp hc
    have hne : oid ≠ "" := by
      rintro rfl
      simp [LiegendeOrder.kennung] at hkw
    have hkv : v.kennung = some oid := by
      rw [LiegendeOrder.kennung, hid]
      simp [hne]
    obtain rfl := eq_of_nodup_filterMap hl hw hv hkw hkv
    exact ⟨by simp [hkv], hweg⟩
  · rintro ⟨hk, hweg⟩
    obtain ⟨oid, hoid⟩ := Option.isSome_iff_exists.mp hk
    have hid : v.id = some oid := (Option.filter_eq_some_iff.mp hoid).1
    exact ⟨oid, hid, hmem.mpr ⟨v, hv, hoid, hweg⟩⟩

/-- What is left of the resting orders on a symbol is not more than there was. -/
theorem sumOver_rest_le (hl : Gueltig z l) (symbol : String) :
    sumOver (fun v => v.symbol = symbol && !l.entfernt digest z v) (·.qty) l.existingStops ≤
      l.liegt symbol := by
  refine sumOver_le_of_imp hl.mengen fun v _ hv => ?_
  rw [Bool.and_eq_true] at hv
  exact hv.1

theorem liegtNachher_le_of_notMem (hl : Gueltig z l) {symbol : String}
    (h : symbol ∉ l.benannte.map (·.symbol)) :
    l.liegtNachher digest z symbol ≤ l.liegt symbol := by
  have hneu : sumOver (fun s => s.symbol = symbol) (·.qty) (planBrokerStops digest z l).toPlace =
      0 := by
    rw [sumOver_toPlace, alleGewuenschten_filter_of_notMem h, sumOver_nil]
  rw [Lage.liegtNachher, hneu, add_zero]
  exact sumOver_rest_le hl symbol

/-- Where no stop is wanted for a position, all that rests is left. -/
theorem liegtNachher_of_nil (hl : Gueltig z l) {pos : Position} (hpos : pos ∈ l.benannte)
    (h : l.beineFuer digest z pos = []) :
    l.liegtNachher digest z pos.symbol = l.liegt pos.symbol := by
  have hneu : sumOver (fun s => s.symbol = pos.symbol) (·.qty)
      (planBrokerStops digest z l).toPlace = 0 := by
    rw [sumOver_toPlace, alleGewuenschten_filter hl.verschieden hpos, h, sumOver_nil]
  rw [Lage.liegtNachher, hneu, add_zero]
  refine sumOver_congr fun v hv => ?_
  by_cases hsym : v.symbol = pos.symbol
  · simp [entfernt_eq hl.kennungen hv, raeumtAb_of_benannt hl.verschieden hpos hsym, h]
  · simp [hsym]

/-- What rests after the plan are the wanted stops and a surplus. -/
theorem liegtNachher_eq (hl : Gueltig z l) {pos : Position} (hpos : pos ∈ l.benannte)
    (h : l.beineFuer digest z pos ≠ []) :
    l.liegtNachher digest z pos.symbol = l.soll digest z pos + l.ueberhang digest z pos := by
  have hne : (l.beineFuer digest z pos).isEmpty = false := List.isEmpty_eq_false_iff.mpr h
  have hbleibt : sumOver (fun v => v.symbol = pos.symbol && !l.entfernt digest z v) (·.qty)
      l.existingStops =
        ((l.beineFuer digest z pos).map fun s => sumOver (passt · s) (·.qty) l.existingStops).sum +
          l.unkuendbar digest z pos := by
    rw [← sumOver_any (beineFuer_pairwise digest z l pos), Lage.unkuendbar, ← sumOver_or]
    · refine sumOver_congr fun v hv => ?_
      by_cases hsym : v.symbol = pos.symbol
      · rw [entfernt_eq hl.kennungen hv, raeumtAb_of_benannt hl.verschieden hpos hsym, hne]
        cases hk : v.kennung <;> simp [hsym]
      · have hany : (l.beineFuer digest z pos).any (passt v) = false :=
          List.any_eq_false.mpr fun s hs hp =>
            hsym ((symbol_of_passt hp).trans (of_mem_beineFuer hs).1)
        simp [hsym, hany]
    · intro v _ hv
      simp [hv]
  have hneu : sumOver (fun s => s.symbol = pos.symbol) (·.qty)
      (planBrokerStops digest z l).toPlace =
        ((l.beineFuer digest z pos).map fun s => if l.gedeckt s then 0 else s.qty).sum := by
    rw [sumOver_toPlace, alleGewuenschten_filter hl.verschieden hpos]
    generalize l.beineFuer digest z pos = stops
    induction stops with
    | nil => rfl
    | cons s stops ih =>
        rw [sumOver_cons, List.map_cons, List.sum_cons, ih]
        cases l.gedeckt s <;> simp
  rw [Lage.liegtNachher, hbleibt, hneu, Lage.soll, Lage.ueberhang]
  have hsumme : ∀ stops : List StopOrder,
      (stops.map fun s => sumOver (passt · s) (·.qty) l.existingStops).sum +
          (stops.map fun s => if l.gedeckt s then 0 else s.qty).sum =
        (stops.map (·.qty)).sum + (stops.map l.zuviel).sum := by
    intro stops
    rw [← List.sum_map_add, ← List.sum_map_add]
    refine congrArg List.sum (List.map_congr_left fun s _ => ?_)
    unfold Lage.zuviel
    split <;> ring
  linarith [hsumme (l.beineFuer digest z pos)]

/-- A symbol is reported as unprotected when no stop is wanted on it. -/
theorem mem_unprotected_iff (hl : (l.positions.map (·.symbol)).Nodup) {pos : Position}
    (hpos : pos ∈ l.benannte) :
    pos.symbol ∈ (planBrokerStops digest z l).unprotected.map Prod.fst ↔
      l.beineFuer digest z pos = [] := by
  constructor
  · intro h
    obtain ⟨⟨symbol, grund⟩, hmem, rfl⟩ := List.mem_map.mp h
    obtain ⟨pos', hpos', hgrund⟩ := List.mem_filterMap.mp hmem
    rcases beineFuer_cases digest z l pos' with ⟨grund', hw, hnil⟩ | ⟨hw, -, -⟩
    · rw [hw] at hgrund
      have hsym : pos'.symbol = pos.symbol := congrArg Prod.fst (Option.some.inj hgrund)
      obtain rfl := List.inj_on_of_nodup_map (benannte_nodup hl) hpos' hpos hsym
      exact hnil
    · rw [hw] at hgrund
      cases hgrund
  · intro h
    rcases beineFuer_cases digest z l pos with ⟨grund, hw, -⟩ | ⟨-, hne, -⟩
    · refine List.mem_map.mpr ⟨(pos.symbol, grund), List.mem_filterMap.mpr ⟨pos, hpos, ?_⟩, rfl⟩
      rw [hw]
    · exact absurd h hne

/-! ## A position with at most one stop for each leg -/

theorem vorhandene_subset {v : LiegendeOrder}
    (h : v ∈ vorhandene l.existingStops l.sessionDate l.existingSessionDate) :
    v ∈ l.existingStops := by
  unfold vorhandene at h
  split at h
  next =>
    split at h
    next => exact List.mem_of_mem_filter h
    next => exact h
  next => exact h

/-- All that is held is to be covered when only own stops bind it. -/
theorem menge_of_nurEigene {pos : Position} (h : 0 < pos.qty) (heigene : l.NurEigene z pos) :
    menge z pos l.existingStops = pos.qty := by
  cases hroh : pos.qtyAvailable with
  | none => simp [menge, hroh, abs_of_pos h]
  | some roh =>
      rw [menge_eq_gebunden z hroh h.ne', abs_of_pos h]
      exact min_eq_right ((heigene roh hroh).trans (add_le_add_left (le_abs_self roh) _))

/-! ## When every position is covered -/

theorem gehalten_of_mem (hl : (l.positions.map (·.symbol)).Nodup) {pos : Position}
    (hpos : pos ∈ l.positions) : l.gehalten pos.symbol = pos.qty := by
  have hfind : l.positions.find? (fun p => p.symbol = pos.symbol) = some pos :=
    (find?_key_iff hl).mpr ⟨hpos, rfl⟩
  rw [Lage.gehalten, hfind]
  rfl

theorem liegtNachher_pos (hl : Gueltig z l) {pos : Position} (hpos : pos ∈ l.benannte)
    (h : l.beineFuer digest z pos ≠ []) (hnichts : l.liegt pos.symbol ≤ 0) :
    0 < l.liegtNachher digest z pos.symbol := by
  have hleer : ∀ v ∈ l.existingStops, v.symbol = pos.symbol → v.qty = 0 := fun v hv hsym =>
    le_antisymm ((le_sumOver hl.mengen hv (by simp [hsym])).trans hnichts) (hl.mengen v hv)
  have hfrei : ∀ s ∈ l.beineFuer digest z pos, l.gedeckt s = false := by
    intro s hs
    obtain ⟨hsym, hmin⟩ := of_mem_beineFuer hs
    refine List.any_eq_false.mpr fun v hv hp => ?_
    have hnull := hleer v (vorhandene_subset hv) ((symbol_of_passt hp).trans hsym)
    simp only [passt, Bool.and_eq_true, decide_eq_true_eq, hnull, zero_sub, abs_neg] at hp
    have hle := (le_abs_self s.qty).trans hp.1.2
    norm_num [minBrokerQty, epsilon] at hmin hle
    linarith
  obtain ⟨s, hs⟩ := List.exists_mem_of_ne_nil _ h
  have hneu : s.qty ≤ sumOver (fun s => s.symbol = pos.symbol) (·.qty)
      (planBrokerStops digest z l).toPlace := by
    rw [sumOver_toPlace, alleGewuenschten_filter hl.verschieden hpos]
    refine le_sumOver (fun t ht => ?_) hs (by simp [hfrei s hs])
    exact minBrokerQty_pos.le.trans (of_mem_beineFuer ht).2
  have hrest : 0 ≤ sumOver (fun v => v.symbol = pos.symbol && !l.entfernt digest z v) (·.qty)
      l.existingStops := sumOver_nonneg hl.mengen
  have hmin := (of_mem_beineFuer hs).2
  have hpositiv := minBrokerQty_pos
  rw [Lage.liegtNachher]
  linarith

/-- Every position is covered and no share twice after the plan when on every
position with wanted stops the surplus is tolerable. -/
theorem abgedeckt_iff (hl : Gueltig z l) :
    Abgedeckt digest z l ↔ ∀ pos ∈ l.positions, pos.symbol ≠ "" →
      l.beineFuer digest z pos ≠ [] → Tragbar digest z l pos := by
  have hbenannt {pos : Position} (hpos : pos ∈ l.positions) (hsym : pos.symbol ≠ "") :
      pos ∈ l.benannte := List.mem_filter.mpr ⟨hpos, by simp [hsym]⟩
  constructor
  · intro h pos hpos hsym hne
    have hmem := hbenannt hpos hsym
    have hgehalten := gehalten_of_mem hl.verschieden hpos
    have hoben := h.hoechstens pos.symbol
    have hlang : 0 < pos.qty := by
      by_contra hkurz
      have hnull : max 0 (l.gehalten pos.symbol) = 0 := by
        rw [hgehalten]
        exact max_eq_left (not_lt.mp hkurz)
      have hliegt := hl.summe pos.symbol
      rw [hnull] at hoben hliegt
      exact absurd (liegtNachher_pos hl hmem hne hliegt) (not_lt.mpr hoben)
    have heq := liegtNachher_eq hl hmem hne
    rw [hgehalten, max_eq_right hlang.le, heq] at hoben
    refine ⟨hlang, by linarith, fun heigene => ?_⟩
    have hunten := h.mindestens pos hpos hsym hlang
      (mt (mem_unprotected_iff hl.verschieden hmem).mp hne) heigene
    rw [heq] at hunten
    linarith
  · intro h
    refine ⟨fun symbol => ?_, fun pos hpos hsym hlang hschutz heigene => ?_⟩
    · by_cases hmem : symbol ∈ l.benannte.map (·.symbol)
      · obtain ⟨pos, hpos, rfl⟩ := List.mem_map.mp hmem
        by_cases hne : l.beineFuer digest z pos = []
        · rw [liegtNachher_of_nil hl hpos hne]
          exact hl.summe _
        · obtain ⟨hin, hsym⟩ := List.mem_filter.mp hpos
          have htragbar := h pos hin (by simpa using hsym) hne
          rw [liegtNachher_eq hl hpos hne, gehalten_of_mem hl.verschieden hin]
          exact le_max_of_le_right (by linarith [htragbar.platz])
      · exact (liegtNachher_le_of_notMem hl hmem).trans (hl.summe symbol)
    · have hmem := hbenannt hpos hsym
      have hne := mt (mem_unprotected_iff hl.verschieden hmem).mpr hschutz
      have hluecke := (h pos hpos hsym hne).luecke heigene
      rw [liegtNachher_eq hl hmem hne]
      linarith

/-! ## A day after, with the stop for the day still there -/

section Beispiel

def position : Position where
  symbol := "AAPL"
  qty := 21 / 2
  qtyAvailable := some 0
  avgEntryPrice := 100

/-- The stop for the ten whole shares, and the one for the fraction placed on
September 18. -/
def existingStops : List LiegendeOrder :=
  [⟨some "1", "AAPL", some "stop-0-stop-AAPL", 10, 95, "gtc"⟩,
    ⟨some "2", "AAPL", some "stop-0-stop-AAPL-2026-09-18", 1 / 2, 95, "day"⟩]

def september18 : Date := (Date.ofYmd 2026 9 18).get rfl

def september19 : Date := (Date.ofYmd 2026 9 19).get rfl

/-- The position and its stops on a day, with the day of the last plan. -/
def lage (sessionDate existingSessionDate : Date) : Lage where
  positions := [position]
  stopLossPct := 5
  existingStops := existingStops
  sessionDate := some sessionDate
  existingSessionDate := some existingSessionDate

theorem lage_gueltig (d e : Date) : Gueltig Idempotenz.asciiZiffern (lage d e) where
  verschieden := List.nodup_singleton _
  verfuegbar := by
    intro pos hpos roh hroh
    obtain rfl := List.mem_singleton.mp hpos
    obtain rfl := Option.some.inj hroh
    norm_num [position]
  eigene := by
    have hall : existingStops.all (istEigenerStop Idempotenz.asciiZiffern) = true := by
      decide +kernel
    exact List.all_eq_true.mp hall
  mengen := by
    have hall : existingStops.all (fun v => decide (0 ≤ v.qty)) = true := by decide +kernel
    exact fun v hv => of_decide_eq_true (List.all_eq_true.mp hall v hv)
  summe := by
    intro symbol
    by_cases hsym : symbol = "AAPL"
    · subst hsym
      have hliegt : (lage d e).liegt "AAPL" = 21 / 2 := by
        simp only [Lage.liegt, lage]
        decide +kernel
      have hgehalten : (lage d e).gehalten "AAPL" = 21 / 2 := rfl
      rw [hliegt, hgehalten]
      exact le_max_right _ _
    · have hliegt : (lage d e).liegt symbol = 0 := by
        refine sumOver_eq_zero fun v hv => ?_
        have hv' : v.symbol = "AAPL" := by
          have hall : existingStops.all (fun v => decide (v.symbol = "AAPL")) = true := by decide
          exact of_decide_eq_true (List.all_eq_true.mp hall v hv)
        rw [hv']
        exact decide_eq_false (Ne.symm hsym)
      rw [hliegt]
      exact le_max_left _ _
  kennungen := by
    have hids : (lage d e).existingStops.filterMap (·.kennung) = ["1", "2"] := rfl
    rw [hids]
    decide

/-- On the day the stops were placed the position is covered. -/
theorem lage_abgedeckt :
    Abgedeckt sha256 Idempotenz.asciiZiffern (lage september18 september18) := by
  refine (abgedeckt_iff (lage_gueltig _ _)).mpr fun pos hpos _ _ => ?_
  obtain rfl := List.mem_singleton.mp hpos
  refine ⟨by decide +kernel, by decide +kernel, fun _ => by decide +kernel⟩

/-- On the next day the stop for the fraction rests twice. -/
theorem lage_doppelt : Gueltig Idempotenz.asciiZiffern (lage september19 september18) ∧
    (lage september19 september18).liegtNachher sha256 Idempotenz.asciiZiffern "AAPL" = 11 ∧
    (lage september19 september18).gehalten "AAPL" = 21 / 2 ∧
    ¬Abgedeckt sha256 Idempotenz.asciiZiffern (lage september19 september18) := by
  have hliegt : (lage september19 september18).liegtNachher sha256 Idempotenz.asciiZiffern
      "AAPL" = 11 := by decide +kernel
  have hgehalten : (lage september19 september18).gehalten "AAPL" = 21 / 2 := rfl
  refine ⟨lage_gueltig _ _, hliegt, hgehalten, fun h => ?_⟩
  have hoben := h.hoechstens "AAPL"
  rw [hliegt, hgehalten] at hoben
  norm_num at hoben

end Beispiel

end Stops
