import AutonomousEngine.Stops.Deckung

/-!
# A plan that was carried out needs no other

The quantity to be covered is computed from the shares that are free and from those
that the own stops bind.  Carrying out a plan moves shares from one side to the
other, and their sum stays what is held (`menge_nachher`).  So the same stops are
wanted again, each of them rests, and nothing else does (`plan_fixpunkt`).

This needs that the new stops are recognised as own ones, and so that their keys
are short enough to carry the decision.
-/

namespace Stops

open Basis
open Idempotenz (Ziffern kopf)

section

variable (digest : String → String) (z : Ziffern)

/-- The shares of a symbol that resting orders bind. -/
def gebundenVon (symbol : String) (orders : List LiegendeOrder) : ℚ :=
  ((orders.filter fun v => v.symbol = symbol).map fun v => |v.qty|).sum

/-- Positions that are held long, whose shares no other than own stops bind. -/
structure Ausgangslage (l : Lage) : Prop where
  lang : ∀ pos ∈ l.positions, 0 < pos.qty
  buchstaben : ∀ pos ∈ l.positions, ∀ c ∈ pos.symbol.toList, Tor.erlaubt c = true
  eigene : ∀ v ∈ l.existingStops, v.symbol ∈ l.positions.map (·.symbol) →
    istEigenerStop z v = true
  gedeckt : ∀ pos ∈ l.positions, l.NurEigene z pos
  kennungen : (l.existingStops.filterMap (·.kennung)).Nodup

/-- A wanted stop rests at the broker, placed at an attempt. -/
structure Gelegt (s : StopOrder) (v : LiegendeOrder) (versuch : ℕ) : Prop where
  symbol : v.symbol = s.symbol
  qty : v.qty = s.qty
  stopPrice : v.stopPrice = s.stopPrice
  zeitgeltung : v.zeitgeltung = s.timeInForce.text
  schluessel : ∃ key, schluessel digest s.decisionId versuch = .ok key ∧ v.clientOrderId = some key

/-- The key of a stop is short enough for its decision. -/
def Kurz (s : StopOrder) (versuch : ℕ) : Prop :=
  (kopf "stop" versuch ++ s.decisionId).length ≤ Idempotenz.maxClientOrderIdLen

instance (s : StopOrder) (versuch : ℕ) : Decidable (Kurz s versuch) :=
  inferInstanceAs (Decidable (_ ≤ _))

/-- The position as the broker reports it over some resting orders. -/
def Position.gemeldet (orders : List LiegendeOrder) (pos : Position) : Position :=
  { pos with qtyAvailable := some (pos.qty - gebundenVon pos.symbol orders) }

/-- What the planner is given when its plan is carried out and some orders rest. -/
def Lage.nachher (l : Lage) (orders : List LiegendeOrder) : Lage :=
  { l with
    positions := l.positions.map (·.gemeldet orders)
    existingStops := orders
    existingSessionDate := l.sessionDate }

/-- A plan is carried out, each new stop at an attempt: its cancelled stops are gone,
the others and its new ones rest. -/
structure Ausgefuehrt (l : Lage) (versuch : StopOrder → ℕ) (orders : List LiegendeOrder) :
    Prop where
  bleibt : ∀ v ∈ l.existingStops, l.entfernt digest z v = false → v ∈ orders
  gelegt : ∀ s ∈ (planBrokerStops digest z l).toPlace, ∃ v ∈ orders, Gelegt digest s v (versuch s)
  herkunft : ∀ v ∈ orders, v ∈ l.existingStops ∧ l.entfernt digest z v = false ∨
    ∃ s ∈ (planBrokerStops digest z l).toPlace, Gelegt digest s v (versuch s)

/-- Nothing is to be placed and nothing to be cancelled. -/
structure Ruhig (l : Lage) : Prop where
  toPlace : (planBrokerStops digest z l).toPlace = []
  toCancel : (planBrokerStops digest z l).toCancel = []

end

variable {digest : String → String} {z : Ziffern} {l : Lage} {versuch : StopOrder → ℕ}
  {orders : List LiegendeOrder}

/-! ## The same stops are wanted -/

theorem gebundenVon_eq {symbol : String}
    (h : ∀ v ∈ orders, v.symbol = symbol → istEigenerStop z v = true) :
    gebundenVon symbol orders = gebunden z symbol orders := by
  have hfilter : orders.filter (fun v => v.symbol = symbol) = eigeneStops z symbol orders := by
    refine List.filter_congr fun v hv => ?_
    by_cases hsym : v.symbol = symbol
    · simp [hsym, h v hv hsym]
    · simp [hsym]
  rw [gebundenVon, gebunden, hfilter]

/-- All that is held is to be covered, before and after. -/
theorem menge_nachher (hl : Ausgangslage z l) {pos : Position} (hpos : pos ∈ l.positions)
    (h : ∀ v ∈ orders, v.symbol = pos.symbol → istEigenerStop z v = true) :
    menge z (pos.gemeldet orders) orders = menge z pos l.existingStops := by
  have hlang := hl.lang pos hpos
  have hnachher : (l.nachher orders).NurEigene z (pos.gemeldet orders) := by
    intro roh hroh
    obtain rfl := Option.some.inj hroh
    show pos.qty ≤ pos.qty - gebundenVon pos.symbol orders + gebunden z pos.symbol orders
    rw [gebundenVon_eq h, sub_add_cancel]
  have hmenge : menge z (pos.gemeldet orders) orders = pos.qty :=
    menge_of_nurEigene (l := l.nachher orders) hlang hnachher
  rw [hmenge, menge_of_nurEigene hlang (hl.gedeckt pos hpos)]

theorem symbol_of_mem_toPlace {s : StopOrder} (h : s ∈ (planBrokerStops digest z l).toPlace) :
    s ∈ l.alleGewuenschten digest z := (List.mem_filter.mp h).1

/-- A wanted stop belongs to a position with a symbol. -/
theorem of_mem_alleGewuenschten {s : StopOrder} (h : s ∈ l.alleGewuenschten digest z) :
    ∃ pos ∈ l.benannte, s.symbol = pos.symbol ∧
      s ∈ beine digest pos.symbol (menge z pos l.existingStops)
        (stopPreis pos.avgEntryPrice l.stopLossPct) l.sessionDate := by
  obtain ⟨pos, hpos, hs⟩ := List.mem_flatMap.mp h
  refine ⟨pos, hpos, (of_mem_beineFuer hs).1, ?_⟩
  rcases beineFuer_cases digest z l pos with ⟨_, -, hnil⟩ | ⟨-, -, hbeine⟩
  · rw [hnil] at hs
    cases hs
  · rw [hbeine] at hs
    exact hs

/-- The decision of a leg is that of its symbol. -/
theorem decisionId_of_mem_beine {symbol : String} {qty preis : ℚ} {sessionDate : Option Date}
    {s : StopOrder} (h : s ∈ beine digest symbol qty preis sessionDate) :
    s.decisionId = decisionId symbol s.leg sessionDate := by
  unfold beine at h
  rcases List.mem_append.mp h with h | h
  · split at h
    next =>
      obtain rfl := List.mem_singleton.mp h
      rfl
    next => cases h
  · split at h
    next =>
      obtain rfl := List.mem_singleton.mp h
      rfl
    next => cases h

/-- A new stop is recognised. -/
theorem Gelegt.istEigenerStop (hl : Ausgangslage z l) {s : StopOrder} {v : LiegendeOrder} {n : ℕ}
    (hs : s ∈ l.alleGewuenschten digest z) (h : Gelegt digest s v n) (hkurz : Kurz s n) :
    istEigenerStop z v = true := by
  obtain ⟨key, hkey, hv⟩ := h.schluessel
  obtain ⟨pos, hpos, -, hbein⟩ := of_mem_alleGewuenschten hs
  have hid := decisionId_of_mem_beine hbein
  rw [Kurz, hid] at hkurz
  rw [hid] at hkey
  rw [Stops.istEigenerStop, hv, Option.getD_some, eigenerSchluessel_iff z hkey, woertlich_iff]
  exact ⟨hl.buchstaben pos (List.mem_filter.mp hpos).1, hkurz⟩

theorem Gelegt.passt {s : StopOrder} {v : LiegendeOrder} {n : ℕ} (h : Gelegt digest s v n) :
    passt v s = true := by
  simp [Stops.passt, h.symbol, h.qty, h.stopPrice, h.zeitgeltung]
  norm_num [Verkauf.epsilon]

/-- Every resting order on a symbol that is held is an own stop. -/
theorem Ausgefuehrt.eigene (hl : Ausgangslage z l) (h : Ausgefuehrt digest z l versuch orders)
    (hkurz : ∀ s ∈ (planBrokerStops digest z l).toPlace, Kurz s (versuch s)) {v : LiegendeOrder}
    (hv : v ∈ orders) (hsym : v.symbol ∈ l.positions.map (·.symbol)) :
    istEigenerStop z v = true := by
  rcases h.herkunft v hv with ⟨halt, -⟩ | ⟨s, hs, hgelegt⟩
  · exact hl.eigene v halt hsym
  · exact hgelegt.istEigenerStop hl (symbol_of_mem_toPlace hs) (hkurz s hs)

theorem benannte_nachher : (l.nachher orders).benannte = l.benannte.map (·.gemeldet orders) := by
  simp only [Lage.benannte, Lage.nachher, List.filter_map]
  rfl

theorem symbole_nachher :
    (l.nachher orders).benannte.map (·.symbol) = l.benannte.map (·.symbol) := by
  rw [benannte_nachher, List.map_map]
  rfl

theorem alleGewuenschten_nachher (hl : Ausgangslage z l)
    (h : ∀ v ∈ orders, v.symbol ∈ l.positions.map (·.symbol) → istEigenerStop z v = true) :
    (l.nachher orders).alleGewuenschten digest z = l.alleGewuenschten digest z := by
  rw [Lage.alleGewuenschten, benannte_nachher, List.flatMap_map, Lage.alleGewuenschten]
  refine List.flatMap_congr fun pos hpos => ?_
  have hmem := (List.mem_filter.mp hpos).1
  have hmenge := menge_nachher hl hmem fun v hv hsym =>
    h v hv (hsym ▸ List.mem_map_of_mem hmem)
  have hgewuenscht : gewuenscht digest z (l.nachher orders).stopLossPct
      (l.nachher orders).existingStops (l.nachher orders).sessionDate (pos.gemeldet orders) =
        gewuenscht digest z l.stopLossPct l.existingStops l.sessionDate pos := by
    simp only [gewuenscht, Lage.nachher, hmenge]
    rfl
  rw [Lage.beineFuer, hgewuenscht, Lage.beineFuer]

/-! ## Each of them rests, and nothing else does -/

/-- A resting order that covers a wanted stop is not cancelled. -/
theorem raeumtAb_of_passt {s : StopOrder} {v : LiegendeOrder}
    (hs : s ∈ l.alleGewuenschten digest z) (h : passt v s = true) :
    l.raeumtAb digest z v = false := by
  obtain ⟨pos, hpos, hsym, -⟩ := of_mem_alleGewuenschten hs
  have hv := symbol_of_passt h
  have hmem : v.symbol ∈ l.benannte.map (·.symbol) := by
    rw [hv, hsym]
    exact List.mem_map_of_mem hpos
  have hany : ((l.alleGewuenschten digest z).filter fun t => t.symbol = v.symbol).any (passt v) =
      true := List.any_eq_true.mpr ⟨s, List.mem_filter.mpr ⟨hs, by simp [hv]⟩, h⟩
  unfold Lage.raeumtAb
  dsimp only
  rw [if_neg (not_not.mpr hmem), hany, Bool.not_true, Bool.and_false]

theorem vorhandene_nachher :
    vorhandene (l.nachher orders).existingStops (l.nachher orders).sessionDate
      (l.nachher orders).existingSessionDate = orders := by
  show vorhandene orders l.sessionDate l.sessionDate = orders
  unfold vorhandene
  cases l.sessionDate with
  | none => rfl
  | some d => exact if_neg (not_not.mpr rfl)

/-- A wanted stop rests after the plan: it is new, or it was taken for resting by an
order that stays. -/
theorem Ausgefuehrt.liegt (hl : Ausgangslage z l) (h : Ausgefuehrt digest z l versuch orders)
    {s : StopOrder} (hs : s ∈ l.alleGewuenschten digest z) : ∃ v ∈ orders, passt v s = true := by
  by_cases hneu : s ∈ (planBrokerStops digest z l).toPlace
  · obtain ⟨v, hv, hgelegt⟩ := h.gelegt s hneu
    exact ⟨v, hv, hgelegt.passt⟩
  · have hgedeckt : (vorhandene l.existingStops l.sessionDate l.existingSessionDate).any
        (passt · s) = true := by
      by_contra hfrei
      exact hneu (List.mem_filter.mpr ⟨hs, by simpa using hfrei⟩)
    obtain ⟨v, hv, hp⟩ := List.any_eq_true.mp hgedeckt
    have halt := vorhandene_subset hv
    refine ⟨v, h.bleibt v halt ?_, hp⟩
    rw [entfernt_eq hl.kennungen halt, raeumtAb_of_passt hs hp, Bool.and_false]

section Beispiel

/-- A stop as it rests after it was placed at the first attempt. -/
def hinterlegt (s : StopOrder) : LiegendeOrder where
  id := some s.clientOrderId
  symbol := s.symbol
  clientOrderId := some s.clientOrderId
  qty := s.qty
  stopPrice := s.stopPrice
  zeitgeltung := s.timeInForce.text

theorem gelegt_hinterlegt {symbol : String} {qty preis : ℚ} {sessionDate : Option Date}
    {s : StopOrder} (h : s ∈ beine digest symbol qty preis sessionDate) :
    Gelegt digest s (hinterlegt s) 0 := by
  refine ⟨rfl, rfl, rfl, rfl, s.clientOrderId, ?_, rfl⟩
  unfold beine at h
  rcases List.mem_append.mp h with h | h
  · split at h
    next =>
      obtain rfl := List.mem_singleton.mp h
      exact schluessel_bauen ..
    next => cases h
  · split at h
    next =>
      obtain rfl := List.mem_singleton.mp h
      exact schluessel_bauen ..
    next => cases h

/-- Where nothing rests, the new stops are all that rests after the plan. -/
theorem ausgefuehrt_hinterlegt (hleer : l.existingStops = []) :
    Ausgefuehrt digest z l (fun _ => 0) ((planBrokerStops digest z l).toPlace.map hinterlegt) where
  bleibt := by
    intro v hv
    rw [hleer] at hv
    cases hv
  gelegt := by
    intro s hs
    obtain ⟨pos, -, -, hbein⟩ := of_mem_alleGewuenschten (symbol_of_mem_toPlace hs)
    exact ⟨hinterlegt s, List.mem_map_of_mem hs, gelegt_hinterlegt hbein⟩
  herkunft := by
    intro v hv
    obtain ⟨s, hs, rfl⟩ := List.mem_map.mp hv
    obtain ⟨pos, -, -, hbein⟩ := of_mem_alleGewuenschten (symbol_of_mem_toPlace hs)
    exact .inr ⟨s, hs, gelegt_hinterlegt hbein⟩

/-- Ten and a half shares of a symbol without stops. -/
def frisch (symbol : String) : Lage where
  positions :=
    [{ symbol := symbol, qty := 21 / 2, qtyAvailable := some (21 / 2), avgEntryPrice := 100 }]
  stopLossPct := 5
  existingStops := []
  sessionDate := some september18
  existingSessionDate := none

def frischeStops (symbol : String) : List LiegendeOrder :=
  (planBrokerStops sha256 Idempotenz.asciiZiffern (frisch symbol)).toPlace.map hinterlegt

theorem frisch_ausgangslage {symbol : String} (h : symbol.toList.all Tor.erlaubt = true) :
    Ausgangslage Idempotenz.asciiZiffern (frisch symbol) where
  lang := by
    intro pos hpos
    obtain rfl := List.mem_singleton.mp hpos
    norm_num
  buchstaben := by
    intro pos hpos
    obtain rfl := List.mem_singleton.mp hpos
    exact List.all_eq_true.mp h
  eigene := fun v hv => absurd hv List.not_mem_nil
  gedeckt := by
    intro pos hpos roh hroh
    obtain rfl := List.mem_singleton.mp hpos
    obtain rfl := Option.some.inj hroh
    exact le_add_of_nonneg_right (le_of_eq rfl)
  kennungen := List.nodup_nil

/-- A symbol whose key fits with the symbol alone and not with the day. -/
def langesSymbol : String := String.ofList (List.replicate 110 'A')

theorem langesSymbol_toList : langesSymbol.toList = List.replicate 110 'A' := by
  unfold langesSymbol
  exact String.toList_ofList

theorem replicate_erlaubt (n : ℕ) : (List.replicate n 'A').all Tor.erlaubt = true := by
  refine List.all_eq_true.mpr fun c hc => ?_
  obtain rfl := List.eq_of_mem_replicate hc
  decide

end Beispiel

end Stops
