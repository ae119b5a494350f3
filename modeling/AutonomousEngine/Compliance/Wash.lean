import AutonomousEngine.Compliance.Waechter
import Mathlib.Algebra.Order.AbsoluteValue.Basic
import Mathlib.Tactic.Linarith

/-!
# Opposite orders within the window

No two orders of one user for one symbol on opposite sides should be approved
with timestamps closer than the wash trade window.

A call looks at the buffer first and joins it last.  Two calls that both look
before either joins do not see each other, and both are approved.  When no call
joins while an opposite one stands between its look and its own joining, and the
clock never goes back, opposite orders are a window apart in every run.

The buffer forgets trades, but only those a window old, and the timestamp of an
order that does not find them any more is taken later still.
-/

namespace Compliance

open Basis

/-- Two trades of one user in one symbol, one bought and one sold. -/
structure Gegenteil (r r' : TradeRecord) : Prop where
  symbol : r.symbol = r'.symbol
  userId : r.userId = r'.userId
  side : r.side = some "buy" ∧ r'.side = some "sell" ∨ r.side = some "sell" ∧ r'.side = some "buy"

theorem Gegenteil.symm {r r' : TradeRecord} (h : Gegenteil r r') : Gegenteil r' r :=
  ⟨h.symbol.symm, h.userId.symm, h.side.elim (fun h => .inr h.symm) (fun h => .inl h.symm)⟩

theorem not_gegenteil_self (r : TradeRecord) : ¬Gegenteil r r := by
  rintro ⟨-, -, h | h⟩
  · simp [h.1] at h
  · simp [h.1] at h

theorem Gegenteil.oppositeSide {r : TradeRecord} {order : Order} {now : ℚ}
    (h : Gegenteil r (order.record now)) : r.side = some (oppositeSide order.side) := by
  rcases h.side with ⟨hr, ho⟩ | ⟨hr, ho⟩
  · simp_all [Compliance.oppositeSide, Order.record]
  · simp_all [Compliance.oppositeSide, Order.record]

/-- Opposite approved orders are at least `w` apart. -/
def Getrennt (w : ℚ) (l : List (Done Order Urteil)) : Prop :=
  ∀ r ∈ genehmigte l, ∀ r' ∈ genehmigte l, Gegenteil r r' → w ≤ |r.timestamp - r'.timestamp|

/-- A call that has its snapshot and is not recorded yet, with an order opposite
to a trade. -/
def Punkt.Offen (r : TradeRecord) : Punkt → Prop
  | .hftUhr order => Gegenteil r (order.record 0)
  | .hftAbschnitt record => Gegenteil r record
  | .merken record => Gegenteil r record
  | _ => False

/-- A trade is recorded while no opposite call is open, and the clock does not go
back. -/
structure Ungestoert (p : Pool Waechter Order Punkt Urteil) (a : PoolAct Order) (s' : Waechter) :
    Prop where
  allein : ∀ i c n r, a = .access i → p.jobs i = some ⟨c, n, .merken r⟩ →
    ∀ i' j, p.jobs i' = some j → ¬j.point.Offen r
  uhr : a = .idle → p.store.jetzt ≤ s'.jetzt

/-! ## One contact -/

/-- Every approved trade is in the buffer or a window old. -/
def Gemerkt (w : ℚ) (s : Waechter) (l : List (Done Order Urteil)) : Prop :=
  ∀ r ∈ genehmigte l, r ∈ s.recentTrades ∨ r.timestamp + w ≤ s.jetzt

/-- What holds of a call at a point: the opposite approved trades are a window
before now, and then a window before its own timestamp. -/
def Punkt.Gilt (w : ℚ) (s : Waechter) (l : List (Done Order Urteil)) : Punkt → Prop
  | .beginn _ => True
  | .washSnapshot _ now => now ≤ s.jetzt
  | .hftUhr order => ∀ r ∈ genehmigte l, Gegenteil r (order.record 0) → r.timestamp + w ≤ s.jetzt
  | .hftAbschnitt record =>
      ∀ r ∈ genehmigte l, Gegenteil r record → r.timestamp + w ≤ record.timestamp
  | .merken record => ∀ r ∈ genehmigte l, Gegenteil r record → r.timestamp + w ≤ record.timestamp

section Schritt

variable {R : Regeln} {s s' : Waechter} {l : List (Done Order Urteil)} {q : Punkt}

theorem Zugriff.jetzt {r : Punkt ⊕ Urteil} (h : Zugriff R s q s' r) : s'.jetzt = s.jetzt := by
  cases h <;> rfl

theorem Zugriff.genehmigt {record : TradeRecord} (h : Zugriff R s q s' (.inr (.genehmigt record))) :
    q = .merken record ∧ s' = recordRecentTrade R s record := by
  generalize hr : (Sum.inr (.genehmigt record) : Punkt ⊕ Urteil) = r at h
  cases h with
  | @beginn order =>
      cases hv : vorpruefung R order with
      | some code => simp [nachVorpruefung, hv] at hr
      | none => simp [nachVorpruefung, hv] at hr
  | @washSnapshot order now =>
      cases hw : detectWashTrade R now s.recentTrades order with
      | true => simp [nachSnapshot, hw] at hr
      | false => cases hl : checkRiskLimits R order <;> simp [nachSnapshot, hw, hl] at hr
  | merken =>
      cases hr
      exact ⟨rfl, rfl⟩
  | _ => cases hr

/-- A record is in the buffer after the clean-up, or a window old. -/
theorem gemerkt_recordRecentTrade {t record : TradeRecord}
    (ht : t ∈ s.recentTrades ++ [record]) :
    t ∈ (recordRecentTrade R s record).recentTrades ∨
      t.timestamp + R.washTradeWindowSeconds ≤ s.jetzt := by
  by_cases hjung : s.jetzt - t.timestamp < R.washTradeWindowSeconds
  · refine .inl ?_
    simp only [recordRecentTrade, cleanupRecentTrades, List.mem_filter, decide_eq_true_eq]
    exact ⟨ht, hjung⟩
  · exact .inr (by linarith)

/-- No contact forgets an approved trade within the window. -/
theorem Gemerkt.zugriff {r : Punkt ⊕ Urteil} (hm : Gemerkt R.washTradeWindowSeconds s l)
    (h : Zugriff R s q s' r) : Gemerkt R.washTradeWindowSeconds s' l := by
  intro t ht
  rcases hm t ht with hin | halt
  · cases h with
    | merken => exact gemerkt_recordRecentTrade (List.mem_append_left _ hin)
    | merkenFehler => exact .inl (List.mem_append_left _ hin)
    | _ => exact .inl hin
  · exact .inr (h.jetzt ▸ halt)

/-- A snapshot without a wash trade: the opposite approved trades are a window
old. -/
theorem alt_of_detectWashTrade {order : Order} {now : ℚ}
    (hm : Gemerkt R.washTradeWindowSeconds s l) (hnow : now ≤ s.jetzt)
    (hw : detectWashTrade R now s.recentTrades order = false) {r : TradeRecord}
    (hr : r ∈ genehmigte l) (hg : Gegenteil r (order.record 0)) :
    r.timestamp + R.washTradeWindowSeconds ≤ s.jetzt := by
  rcases hm r hr with hin | halt
  · have hall := List.any_eq_false.mp hw r hin
    have hsym : r.symbol = order.symbol := hg.symbol
    have huser : r.userId = order.userId := hg.userId
    have hzeit : ¬now - r.timestamp < R.washTradeWindowSeconds := by
      simpa [hsym, huser, hg.oppositeSide] using hall
    linarith
  · exact halt

/-- A contact that goes on leads to what holds at the next point. -/
theorem Punkt.Gilt.zugriff {q' : Punkt} (hg : q.Gilt R.washTradeWindowSeconds s l)
    (hm : Gemerkt R.washTradeWindowSeconds s l) (h : Zugriff R s q s' (.inl q')) :
    q'.Gilt R.washTradeWindowSeconds s' l := by
  generalize hr : (Sum.inl q' : Punkt ⊕ Urteil) = r at h
  cases h with
  | @beginn order =>
      cases hv : vorpruefung R order with
      | some code => simp [nachVorpruefung, hv] at hr
      | none =>
          obtain rfl : q' = .washSnapshot order s.jetzt := by simpa [nachVorpruefung, hv] using hr
          exact le_rfl
  | @washSnapshot order now =>
      cases hw : detectWashTrade R now s.recentTrades order with
      | true => simp [nachSnapshot, hw] at hr
      | false =>
          cases hl : checkRiskLimits R order with
          | false => simp [nachSnapshot, hw, hl] at hr
          | true =>
              obtain rfl : q' = .hftUhr order := by simpa [nachSnapshot, hw, hl] using hr
              exact fun r hr hgeg => alt_of_detectWashTrade hm hg hw hr hgeg
  | hftUhr =>
      obtain rfl := Sum.inl.inj hr
      exact fun r hr hgeg => hg r hr ⟨hgeg.symbol, hgeg.userId, hgeg.side⟩
  | hftErlaubt =>
      obtain rfl := Sum.inl.inj hr
      exact hg
  | hftGedrosselt => cases hr
  | merken => cases hr
  | fehler => cases hr
  | merkenFehler => cases hr

/-- What holds of a call goes on to hold while others are approved, none of them
opposite to it once it has its snapshot, and the clock goes on. -/
theorem Punkt.Gilt.bleibt {w : ℚ} {l' : List (Done Order Urteil)} (hg : q.Gilt w s l)
    (huhr : s.jetzt ≤ s'.jetzt) (hl : ∀ r ∈ genehmigte l', ¬q.Offen r) :
    q.Gilt w s' (l ++ l') := by
  have hmem : ∀ r ∈ genehmigte (l ++ l'), q.Offen r → r ∈ genehmigte l := by
    intro r hr ho
    rw [genehmigte_append, List.mem_append] at hr
    exact hr.resolve_right fun h => hl r h ho
  cases q with
  | beginn => trivial
  | washSnapshot order now => exact le_trans hg huhr
  | hftUhr order => exact fun r hr hgeg => le_trans (hg r (hmem r hr hgeg) hgeg) huhr
  | hftAbschnitt record => exact fun r hr hgeg => hg r (hmem r hr hgeg) hgeg
  | merken record => exact fun r hr hgeg => hg r (hmem r hr hgeg) hgeg

/-- An approval is a window after the opposite ones before it. -/
theorem Getrennt.concat {w : ℚ} {d : Done Order Urteil} (hl : Getrennt w l)
    (hd : ∀ r', d.answer = .genehmigt r' → ∀ r ∈ genehmigte l, Gegenteil r r' →
      r.timestamp + w ≤ r'.timestamp) : Getrennt w (l ++ [d]) := by
  have hneu : ∀ r' ∈ genehmigte [d], d.answer = .genehmigt r' := by
    simp [mem_genehmigte]
  intro r hr r' hr' hg
  rw [genehmigte_append, List.mem_append] at hr hr'
  rcases hr with hr | hr
  · rcases hr' with hr' | hr'
    · exact hl r hr r' hr' hg
    · have h := hd r' (hneu r' hr') r hr hg
      rw [abs_sub_comm]
      exact le_trans (by linarith) (le_abs_self _)
  · rcases hr' with hr' | hr'
    · have h := hd r (hneu r hr) r' hr' hg.symm
      exact le_trans (by linarith) (le_abs_self _)
    · have h : d.answer = .genehmigt r' := hneu r' hr'
      rw [hneu r hr] at h
      cases h
      exact absurd hg (not_gegenteil_self r)

end Schritt

/-! ## All runs -/

/-- The buffer remembers, and opposite approved orders are a window apart. -/
structure Stand (w : ℚ) (s : Waechter) (l : List (Done Order Urteil)) : Prop where
  gemerkt : Gemerkt w s l
  getrennt : Getrennt w l

/-- Under the condition every contact keeps the others' assertions. -/
theorem checkOrder_outline (R : Regeln) :
    Outline (checkOrder R) Ungestoert (Stand R.washTradeWindowSeconds)
      fun s l j => j.point.Gilt R.washTradeWindowSeconds s l where
  enter _ _ := trivial
  access := by
    intro p i c n q s q' _ hs hg _ ha
    have hm : Gemerkt R.washTradeWindowSeconds s p.log := hs.gemerkt.zugriff ha
    refine ⟨⟨hm, hs.getrennt⟩, hg.zugriff hs.gemerkt ha, fun i' j _ _ hj => ?_⟩
    have hb : j.point.Gilt R.washTradeWindowSeconds s (p.log ++ []) :=
      hj.bleibt (Zugriff.jetzt ha).ge (by simp [genehmigte])
    simpa using hb
  answer := by
    intro p i c n q s a hG hs hg hi ha
    have hurteil : ∀ r, a = .genehmigt r → q = .merken r ∧ s = recordRecentTrade R p.store r := by
      rintro r rfl
      exact Zugriff.genehmigt ha
    have hneu : ∀ r ∈ genehmigte [(⟨i, c, n, a⟩ : Done Order Urteil)], a = .genehmigt r := by
      simp [mem_genehmigte]
    refine ⟨⟨fun r hr => ?_, hs.getrennt.concat fun r' hr' r hr hgeg => ?_⟩,
      fun i' j _ hj hjg => ?_⟩
    · rw [genehmigte_append, List.mem_append] at hr
      rcases hr with hr | hr
      · exact hs.gemerkt.zugriff ha r hr
      · obtain ⟨-, rfl⟩ := hurteil r (hneu r hr)
        exact gemerkt_recordRecentTrade (by simp)
    · obtain ⟨rfl, -⟩ := hurteil r' hr'
      exact hg r hr hgeg
    · refine hjg.bleibt (Zugriff.jetzt ha).ge fun r hr => ?_
      obtain ⟨rfl, -⟩ := hurteil r (hneu r hr)
      exact hG.allein i c n r rfl hi i' j hj
  idle := by
    intro p s' hG hs hi
    obtain ⟨jetzt, rfl⟩ := hi
    have huhr : p.store.jetzt ≤ jetzt := hG.uhr rfl
    refine ⟨⟨fun r hr => ?_, hs.getrennt⟩, fun _ j _ hj => ?_⟩
    · exact (hs.gemerkt r hr).imp_right fun h => le_trans h huhr
    · have hb : j.point.Gilt R.washTradeWindowSeconds { p.store with jetzt := jetzt }
          (p.log ++ []) := hj.bleibt huhr (by simp [genehmigte])
      simpa using hb

/-- When no trade is recorded while an opposite call is open, and the clock does
not go back, opposite approved orders are a window apart. -/
theorem washTrade_getrennt (R : Regeln) {p : Pool Waechter Order Punkt Urteil}
    (h : ((system R).restrict (guarded Ungestoert)).Reach p) :
    Getrennt R.washTradeWindowSeconds p.log := by
  refine ((checkOrder R).outline_sound (checkOrder_outline R) (fun s _ => ?_) h).1.getrennt
  exact ⟨by simp [Gemerkt, genehmigte], by simp [Getrennt, genehmigte]⟩

/-! ## A run under the condition, and two orders that do not see each other -/

section Beispiel

/-- On the texts of the example none of the three changes anything. -/
def schrift : Schrift where
  strip := id
  upper := id
  lower := id
  isalpha := Char.isAlpha

def regeln : Regeln where
  schrift := schrift
  restrictedList := []
  maxOrderValue := 10000
  washTradeWindowSeconds := 60
  hftMaxOrdersPerSecSymbol := 2
  hftMaxOrdersPerSecAggregate := 10

def order (side : String) : Order where
  symbol := some "AAPL"
  side := some side
  quantity := some 1
  price := some 200
  strategyId := some "momentum_bot_1"
  timestamp := some "2026-09-18T14:00:00"
  userId := some "global"
  assetClass := none
  assetType := none
  heldQty := none

def frisch : Waechter := ⟨[], [], [], 0⟩

theorem frisch_start : (system regeln).start ⟨frisch, fun _ => none, []⟩ :=
  ⟨⟨rfl, rfl, rfl⟩, fun _ => rfl, rfl⟩

theorem vorpruefung_order (side : String) : vorpruefung regeln (order side) = none := by
  simp [vorpruefung, isSpotUsEquity, assetClassOk, checkMifidFields, order, regeln, schrift]

theorem checkRiskLimits_order (side : String) : checkRiskLimits regeln (order side) = true := by
  simp [checkRiskLimits, order, regeln]
  norm_num

/-- The guardian after a record that the throttle let pass. -/
def nachOrder (s : Waechter) (side : String) : Waechter :=
  recordRecentTrade regeln
    { s with
      hftRecentOrders :=
        hftHousekeep s ((order side).record s.jetzt) ++ [(order side).record s.jetzt] }
    ((order side).record s.jetzt)

/-- A call as far as its snapshot, which shows no wash trade. -/
theorem solo_snapshot (side : String) {s : Waechter}
    (hw : detectWashTrade regeln s.jetzt s.recentTrades (order side) = false) :
    (checkOrder regeln).Solo (fun _ _ => True) s (.beginn (order side)) s
      (.inl (.hftUhr (order side))) := by
  have hvor : nachVorpruefung regeln (order side) s.jetzt =
      .inl (.washSnapshot (order side) s.jetzt) := by
    simp [nachVorpruefung, vorpruefung_order]
  have hsnap : nachSnapshot regeln s.jetzt s.recentTrades (order side) =
      .inl (.hftUhr (order side)) := by
    simp [nachSnapshot, hw, checkRiskLimits_order]
  have hbeginn : Zugriff regeln s (.beginn (order side)) s
      (.inl (.washSnapshot (order side) s.jetzt)) := hvor ▸ .beginn
  have hwash : Zugriff regeln s (.washSnapshot (order side) s.jetzt) s
      (.inl (.hftUhr (order side))) := hsnap ▸ .washSnapshot
  exact .next trivial hbeginn (.next trivial hwash .stop)

theorem solo_rest {s : Waechter} {side : String}
    (hh : hftErlaubt regeln s ((order side).record s.jetzt) = true) :
    (checkOrder regeln).Solo (fun _ _ => True) s (.hftUhr (order side)) (nachOrder s side)
      (.inr (.genehmigt ((order side).record s.jetzt))) :=
  .next trivial .hftUhr (.next trivial (.hftErlaubt hh) (.answer trivial .merken))

def nachMinute : Waechter := { nachOrder frisch "buy" with jetzt := 60 }

theorem hftErlaubt_frisch (side : String) :
    hftErlaubt regeln frisch ((order side).record frisch.jetzt) = true := by
  simp [hftErlaubt, hftHousekeep, frisch, regeln]

theorem detectWashTrade_nachMinute :
    detectWashTrade regeln nachMinute.jetzt nachMinute.recentTrades (order "sell") = false := by
  simp [detectWashTrade, nachMinute, nachOrder, recordRecentTrade, cleanupRecentTrades, frisch,
    Order.record, regeln]

theorem hftErlaubt_nachMinute :
    hftErlaubt regeln nachMinute ((order "sell").record nachMinute.jetzt) = true := by
  simp [hftErlaubt, hftHousekeep, nachMinute, nachOrder, recordRecentTrade, frisch,
    Order.record, regeln]

theorem hftErlaubt_nachKauf : hftErlaubt regeln (nachOrder frisch "buy")
    ((order "sell").record (nachOrder frisch "buy").jetzt) = true := by
  simp [hftErlaubt, hftHousekeep, nachOrder, recordRecentTrade, frisch, Order.record, order, regeln]

/-- A buy, and a sale a minute later. -/
theorem washTrade_getrennt_nacheinander :
    ∃ p, ((system regeln).restrict (guarded Ungestoert)).Reach p ∧
      genehmigte p.log = [(order "buy").record 0, (order "sell").record 60] ∧
      Getrennt 60 p.log := by
  have hG : ∀ c (l : List (Done Order Urteil)) s q s',
      Ungestoert ⟨s, Function.update (fun _ => none) 0 (some ⟨c, l.length, q⟩), l⟩ (.access 0) s' := by
    refine fun c l s q s' => ⟨?_, by simp⟩
    rintro _ c' n' r ⟨⟩ hr i' j hj
    obtain ⟨-, -, rfl⟩ : c = c' ∧ l.length = n' ∧ q = .merken r := by simpa using hr
    by_cases hi : i' = 0
    · obtain rfl : ⟨c, l.length, .merken r⟩ = j := by simpa [hi] using hj
      exact not_gegenteil_self r
    · simp [hi] at hj
  have henter : ∀ p c s, Ungestoert p (.enter 0 c) s := fun p c s => ⟨by simp, by simp⟩
  have hkauf := alone_reach (M := checkOrder regeln) (.start frisch_start)
    ((solo_snapshot _ rfl).trans rfl (solo_rest (hftErlaubt_frisch "buy")))
    (henter _ _ _) fun s q s' _ => hG _ _ s q s'
  have hminute : ((system regeln).restrict (guarded Ungestoert)).Reach
      ⟨nachMinute, fun _ => none, [⟨0, order "buy", 0, .genehmigt ((order "buy").record 0)⟩]⟩ :=
    .step hkauf ⟨.idle ⟨60, rfl⟩, ⟨by simp, fun _ => by norm_num [nachMinute, nachOrder,
      recordRecentTrade, frisch]⟩⟩
  have hverkauf := alone_reach (M := checkOrder regeln) hminute
    ((solo_snapshot _ detectWashTrade_nachMinute).trans rfl (solo_rest hftErlaubt_nachMinute))
    (henter _ _ _) fun s q s' _ => hG _ _ s q s'
  exact ⟨_, hverkauf, rfl, washTrade_getrennt regeln hverkauf⟩

/-- Both calls take their snapshot before either records. -/
theorem washTrade_nicht_getrennt :
    ∃ p, (system regeln).Reach p ∧ ¬Getrennt regeln.washTradeWindowSeconds p.log := by
  have hstart : ((system regeln).restrict (guarded fun _ _ _ => True)).Reach
      ⟨frisch, fun _ => none, []⟩ := .start frisch_start
  have hkauf := call_reach (i := 0) hstart rfl (solo_snapshot "buy" rfl) trivial
    fun _ _ _ _ => trivial
  have hverkauf := call_reach (i := 1) hkauf rfl (solo_snapshot "sell" rfl) trivial
    fun _ _ _ _ => trivial
  have hkauf' := solo_reach (i := 0) hverkauf rfl (solo_rest (hftErlaubt_frisch "buy"))
    fun _ _ _ _ => trivial
  have hverkauf' := solo_reach (i := 1) hkauf' rfl (solo_rest hftErlaubt_nachKauf)
    fun _ _ _ _ => trivial
  refine ⟨_, hverkauf'.of_restrict, fun h => ?_⟩
  have hw := h ((order "buy").record 0)
    (mem_genehmigte.mpr ⟨⟨0, order "buy", 0, _⟩, by simp [Pool.after, frisch], rfl⟩)
    ((order "sell").record 0)
    (mem_genehmigte.mpr ⟨⟨1, order "sell", 0, _⟩,
      by simp [Pool.after, nachOrder, recordRecentTrade, frisch], rfl⟩)
    ⟨rfl, rfl, .inl ⟨rfl, rfl⟩⟩
  norm_num [regeln, Order.record] at hw

end Beispiel

end Compliance
