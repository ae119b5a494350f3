import AutonomousEngine.Compliance.Waechter
import AutonomousEngine.Stops.Planer

/-!
# Which stops are recognised

A stop is placed under a key that is derived from its decision, and it is later
recognised by the beginning of that key.  The key has the decision in it only when
every character of the symbol may stand in a key.  A symbol like `BRK.B` has one
that may not, its key is a digest, and the stop is taken for a foreign order
(`istErkannt_iff`).
-/

namespace Stops

open Basis
open Idempotenz (Ziffern IstHex kopf koerper Woertlich)

/-! ## The keys -/

/-- A decision ends in characters that may stand in a key, apart from the symbol. -/
theorem decisionId_toList (symbol : String) (leg : Leg) (sessionDate : Option Date) :
    ∃ ende, (decisionId symbol leg sessionDate).toList =
        "stop-".toList ++ (symbol.toList ++ ende) ∧ ∀ c ∈ ende, Tor.erlaubt c = true := by
  cases leg with
  | whole => exact ⟨[], by simp [decisionId], by simp⟩
  | fraction =>
      refine ⟨'-' :: ((sessionDate.map Date.isoformat).getD "day").toList, by simp [decisionId], ?_⟩
      intro c hc
      rcases List.mem_cons.mp hc with rfl | hc
      · decide
      · cases sessionDate with
        | none =>
            have hday : "day".toList.all Tor.erlaubt = true := by decide
            exact List.all_eq_true.mp hday c hc
        | some d =>
            rcases Date.mem_isoformat hc with hd | rfl
            · simp [Tor.erlaubt, Char.isAlphanum, hd]
            · decide

theorem rumpf_eq_self_iff {s : String} :
    Idempotenz.rumpf s = s ↔ ∀ c ∈ s.toList, Tor.erlaubt c = true := by
  rw [Idempotenz.rumpf, ← String.toList_inj, String.toList_ofList]
  constructor
  · intro h c hc
    rw [← h] at hc
    obtain ⟨d, _, rfl⟩ := List.mem_map.mp hc
    split
    next hd => exact hd
    next => decide
  · intro h
    calc
      s.toList.map (fun c => if Tor.erlaubt c then c else '-') = s.toList.map id :=
        List.map_congr_left fun c hc => if_pos (h c hc)
      _ = s.toList := List.map_id _

/-- The decision of a stop stands in its key when its symbol can and the key is
short enough. -/
theorem woertlich_iff {symbol : String} {leg : Leg} {sessionDate : Option Date} {n : ℕ} :
    Woertlich (decisionId symbol leg sessionDate) "stop" n ↔
      (∀ c ∈ symbol.toList, Tor.erlaubt c = true) ∧
        (kopf "stop" n ++ decisionId symbol leg sessionDate).length ≤
          Idempotenz.maxClientOrderIdLen := by
  obtain ⟨ende, hid, hende⟩ := decisionId_toList symbol leg sessionDate
  have hstop : ∀ c ∈ "stop-".toList, Tor.erlaubt c = true := List.all_eq_true.mp (by decide)
  have hrumpf : Idempotenz.rumpf (decisionId symbol leg sessionDate) =
      decisionId symbol leg sessionDate ↔ ∀ c ∈ symbol.toList, Tor.erlaubt c = true := by
    rw [rumpf_eq_self_iff, hid]
    simp only [List.mem_append]
    constructor
    · exact fun h c hc => h c (.inr (.inl hc))
    · rintro h c (hc | hc | hc)
      · exact hstop c hc
      · exact h c hc
      · exact hende c hc
  rw [Woertlich, hrumpf, String.length_append]
  refine and_congr_right fun h => ?_
  rw [hrumpf.mpr h]

theorem eigenerSchluessel_kopf (z : Ziffern) (n : ℕ) (rest : String) :
    eigenerSchluessel z (kopf "stop" n ++ rest).toList = "stop-".toList.isPrefixOf rest.toList := by
  have hziffern : ∀ c ∈ (toString (n : ℤ)).toList, (z.wert c).isSome = true := fun c hc =>
    z.isSome_of_isDigit (Idempotenz.toString_ofNat_isDigit n c hc)
  have hstrich : (z.wert '-').isSome = false := by
    rw [z.ascii '-' (by decide)]
    rfl
  have hne : (toString (n : ℤ)).toList ≠ [] := by
    have hnummer := Idempotenz.toString_ofNat_ne_empty n
    simpa using hnummer
  have hkey : (kopf "stop" n ++ rest).toList =
      "stop-".toList ++ ((toString (n : ℤ)).toList ++ '-' :: rest.toList) := by
    simp [kopf]
  have hdrop : (kopf "stop" n ++ rest).toList.drop "stop-".length =
      (toString (n : ℤ)).toList ++ '-' :: rest.toList := by
    rw [hkey]
    rfl
  have htake : ((toString (n : ℤ)).toList ++ '-' :: rest.toList).takeWhile
      (fun c => (z.wert c).isSome) = (toString (n : ℤ)).toList := by
    rw [List.takeWhile_append_of_pos hziffern]
    simp [hstrich]
  have hrest : ((toString (n : ℤ)).toList ++ '-' :: rest.toList).dropWhile
      (fun c => (z.wert c).isSome) = '-' :: rest.toList := by
    rw [List.dropWhile_append_of_pos hziffern]
    simp [hstrich]
  have hstop : "stop-".toList.isPrefixOf (kopf "stop" n ++ rest).toList = true := by
    rw [hkey, List.isPrefixOf_iff_prefix]
    exact List.prefix_append _ _
  unfold eigenerSchluessel
  dsimp only
  rw [hdrop, htake, hrest, hstop]
  simp only [Bool.true_and, List.isEmpty_eq_false_iff.mpr hne, Bool.not_false]
  rfl

/-- The key of a stop is recognised when the decision stands in it. -/
theorem eigenerSchluessel_iff {digest : String → String} (z : Ziffern) {symbol key : String}
    {leg : Leg} {sessionDate : Option Date} {n : ℕ}
    (h : schluessel digest (decisionId symbol leg sessionDate) n = .ok key) :
    eigenerSchluessel z key.toList = true ↔
      Woertlich (decisionId symbol leg sessionDate) "stop" n := by
  obtain ⟨-, -, m, hm, rfl⟩ := Idempotenz.deriveClientOrderId_eq_ok_iff.mp h
  obtain rfl : n = m := Int.ofNat.inj hm
  rw [eigenerSchluessel_kopf]
  rcases @Idempotenz.koerper_cases digest (decisionId symbol leg sessionDate) "stop" n
    with ⟨hw, hk⟩ | ⟨hw, hk⟩
  · obtain ⟨ende, hid, -⟩ := decisionId_toList symbol leg sessionDate
    rw [hk, hid, List.isPrefixOf_iff_prefix]
    exact iff_of_true (List.prefix_append _ _) hw
  · rw [hk]
    refine iff_of_false ?_ hw
    simp

/-! ## What depends on it -/

/-- The shares that the own stops on a symbol bind. -/
def gebunden (z : Ziffern) (symbol : String) (orders : List LiegendeOrder) : ℚ :=
  ((eigeneStops z symbol orders).map fun s => |s.qty|).sum

/-- An open order as the release of shares sees it. -/
def LiegendeOrder.alsOffene (z : Ziffern) (order : LiegendeOrder) : Verkauf.OffeneOrder where
  id := order.id.getD "None"
  symbol := order.symbol
  eigenerStop := istEigenerStop z order

/-- A stop is an own one: it is recognised, the quantity to be covered counts its
shares, and no share of its symbol is sold before its cancellation is confirmed. -/
structure IstErkannt (z : Ziffern) (v : LiegendeOrder) : Prop where
  eigener : istEigenerStop z v = true
  gezaehlt : ∀ vor nach, gebunden z v.symbol (vor ++ v :: nach) =
    |v.qty| + gebunden z v.symbol (vor ++ nach)
  befreit : ∀ (orders : List LiegendeOrder) (b : Verkauf.Broker) (menge : ℚ), v ∈ orders →
    b.getOrders = some (orders.map (·.alsOffene z)) →
    b.stornoBestaetigt (v.alsOffene z).id = false →
    (Verkauf.gibStueckeFrei b v.symbol menge).menge = 0

theorem menge_eq_gebunden (z : Ziffern) {position : Position} {roh : ℚ}
    (h : position.qtyAvailable = some roh) (hq : position.qty ≠ 0) (orders : List LiegendeOrder) :
    menge z position orders =
      min (|roh| + gebunden z position.symbol orders) |position.qty| := by
  have hpos : 0 < |position.qty| := abs_pos.mpr hq
  simp only [menge, h, if_pos hpos, gebunden]

theorem gebunden_cons_mid {z : Ziffern} {v : LiegendeOrder} (h : istEigenerStop z v = true)
    (vor nach : List LiegendeOrder) :
    gebunden z v.symbol (vor ++ v :: nach) = |v.qty| + gebunden z v.symbol (vor ++ nach) := by
  have hv : eigeneStops z v.symbol (v :: nach) = v :: eigeneStops z v.symbol nach := by
    simp [eigeneStops, h]
  have happend (orders : List LiegendeOrder) : eigeneStops z v.symbol (vor ++ orders) =
      eigeneStops z v.symbol vor ++ eigeneStops z v.symbol orders := List.filter_append ..
  simp only [gebunden, happend, hv, List.map_append, List.map_cons, List.sum_append, List.sum_cons]
  ring

/-- Nothing is released while the cancellation of an own stop is open. -/
theorem gibStueckeFrei_of_offen {z : Ziffern} {v : LiegendeOrder} (h : istEigenerStop z v = true)
    {orders : List LiegendeOrder} {b : Verkauf.Broker} (menge : ℚ) (hv : v ∈ orders)
    (hb : b.getOrders = some (orders.map (·.alsOffene z)))
    (hoffen : b.stornoBestaetigt (v.alsOffene z).id = false) :
    (Verkauf.gibStueckeFrei b v.symbol menge).menge = 0 := by
  have hmem : v.alsOffene z ∈ orders.map (·.alsOffene z) := List.mem_map_of_mem hv
  have hliegt : Verkauf.liegtEtwas b v.symbol = true := by
    simp only [Verkauf.liegtEtwas, hb]
    exact List.any_eq_true.mpr ⟨_, hmem, by simp [LiegendeOrder.alsOffene]⟩
  have hweg : Verkauf.stopsWeg b v.symbol = false := by
    simp only [Verkauf.stopsWeg, hb]
    refine List.all_eq_false.mpr ⟨_, hmem, ?_⟩
    rw [hoffen]
    simp [LiegendeOrder.alsOffene, h]
  simp [Verkauf.gibStueckeFrei, hliegt, hweg]

theorem istErkannt_iff_eigener {z : Ziffern} {v : LiegendeOrder} :
    IstErkannt z v ↔ istEigenerStop z v = true :=
  ⟨fun h => h.eigener, fun h =>
    ⟨h, gebunden_cons_mid h, fun _ _ menge hv hb => gibStueckeFrei_of_offen h menge hv hb⟩⟩

/-- A resting stop is recognised under its key when every character of its symbol
may stand in a key and the decision leaves the key short enough. -/
theorem istErkannt_iff {digest : String → String} (z : Ziffern) {symbol key : String} {leg : Leg}
    {sessionDate : Option Date} {n : ℕ} {v : LiegendeOrder}
    (h : schluessel digest (decisionId symbol leg sessionDate) n = .ok key)
    (hv : v.clientOrderId = some key) :
    IstErkannt z v ↔ (∀ c ∈ symbol.toList, Tor.erlaubt c = true) ∧
      (kopf "stop" n ++ decisionId symbol leg sessionDate).length ≤
        Idempotenz.maxClientOrderIdLen := by
  rw [istErkannt_iff_eigener, istEigenerStop, hv, Option.getD_some, eigenerSchluessel_iff z h,
    woertlich_iff]

/-! ## A symbol that is recognised, and one that is not -/

section Beispiel

/-- The digests of the two decisions below. -/
def sha256 (decisionId : String) : String :=
  if decisionId = "stop-BRK.B" then "cac9f9dca101fd4bdb3fe281572bf684"
  else "ba5fb7271a5e58e2cc493354eab5c557"

/-- Texts in upper case without blanks around them. -/
def schrift : Compliance.Schrift where
  strip := id
  upper := id
  lower := id
  isalpha := Char.isAlpha

def regeln : Compliance.Regeln where
  schrift := schrift
  restrictedList := []
  maxOrderValue := 10000
  washTradeWindowSeconds := 60
  hftMaxOrdersPerSecSymbol := 2
  hftMaxOrdersPerSecAggregate := 10

def order (symbol : String) : Compliance.Order where
  symbol := some symbol
  side := some "buy"
  quantity := some 1
  price := some 200
  strategyId := some "momentum_bot_1"
  timestamp := some "2026-09-18T14:00:00"
  userId := some "global"
  assetClass := none
  assetType := none
  heldQty := none

/-- The stop for the whole shares of a position, placed at an attempt. -/
def liegt (symbol key : String) : LiegendeOrder where
  id := some "1"
  symbol := symbol
  clientOrderId := some key
  qty := 5
  stopPrice := 95
  zeitgeltung := "gtc"

theorem liegt_aapl_istErkannt : Compliance.isSpotUsEquity regeln (order "AAPL") = true ∧
    IstErkannt Idempotenz.asciiZiffern (liegt "AAPL" "stop-3-stop-AAPL") := by
  have hkey : schluessel sha256 (decisionId "AAPL" .whole none) (3 : ℕ) =
      .ok "stop-3-stop-AAPL" := by decide +kernel
  refine ⟨by decide +kernel, (istErkannt_iff _ hkey rfl).mpr
    ⟨List.all_eq_true.mp (by decide), by decide +kernel⟩⟩

/-- The compliance guardian admits `BRK.B`, and the stop placed for it is taken for
a foreign order. -/
theorem liegt_brkB_fremd : Compliance.isSpotUsEquity regeln (order "BRK.B") = true ∧
    schluessel sha256 (decisionId "BRK.B" .whole none) 0 =
      .ok "stop-0-_cac9f9dca101fd4bdb3fe281572bf684" ∧
    ¬IstErkannt Idempotenz.asciiZiffern
      (liegt "BRK.B" "stop-0-_cac9f9dca101fd4bdb3fe281572bf684") := by
  refine ⟨by decide +kernel, by decide +kernel, fun h => ?_⟩
  have hfremd : istEigenerStop Idempotenz.asciiZiffern
      (liegt "BRK.B" "stop-0-_cac9f9dca101fd4bdb3fe281572bf684") = false := by decide +kernel
  rw [h.eigener] at hfremd
  cases hfremd

end Beispiel

end Stops
