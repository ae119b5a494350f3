import AutonomousEngine.Bemessung.Groesse

/-!
# The orders of a cycle

The orders of a cycle are sized from one reading of the cash, each with its own stock,
conviction and mode.  Each is paid by its slot, up to the rounding of the size, and there
are no more orders than slots: together they are paid by the cash (`zyklus_ohne_hebel`).
-/

namespace Bemessung

open Basis

/-- A purchase, with the configuration and the state under which it is sized. -/
structure Kauf where
  cfg : Konfig
  rm : RiskManager
  auftrag : Auftrag

def Kauf.wert (k : Kauf) : ℚ :=
  calculatePositionSize k.cfg k.rm k.auftrag * k.auftrag.currentPrice

/-- A purchase of a cycle: leverage is forbidden, and cash, buffer, slots and Kelly fraction
are those of the cycle. -/
structure ImZyklus (cash buffer : ℚ) (n : ℤ) (kelly : Option ℚ) (k : Kauf) : Prop where
  forbid : k.cfg.riskForbidLeverage = true
  buffer : k.cfg.riskCashBufferUsd = buffer
  cash : k.auftrag.accountCash = cash
  stocks : k.auftrag.numStocksInStrategy = n
  kelly : k.cfg.kellyFractionCap = kelly

/-- The factor by which a Kelly fraction above one lifts what the cash allows. -/
def hebel (kelly : Option ℚ) : ℚ := max 1 (kelly.getD 1)

/-- What the rounding may add to the cost of a purchase. -/
def Kauf.rundung (k : Kauf) : ℚ := max 0 k.auftrag.currentPrice * (1 / 2 / 10 ^ 6)

variable {cash buffer : ℚ} {n : ℤ} {kelly : Option ℚ} {k : Kauf}

theorem one_le_hebel (kelly : Option ℚ) : 1 ≤ hebel kelly := le_max_left _ _

theorem le_hebel {fraction : ℚ} (h : kelly = some fraction) : fraction ≤ hebel kelly := by
  rw [hebel, h]
  exact le_max_right _ _

theorem Kauf.rundung_nonneg (k : Kauf) : 0 ≤ k.rundung :=
  mul_nonneg (le_max_left _ _) (by norm_num)

/-! ## One purchase -/

/-- Behind the cash only a Kelly fraction above one lifts a size. -/
theorem nachCash_le {cfg : Konfig} {rm : RiskManager} {a : Auftrag} {atr c f x : ℚ} (hc : 0 ≤ c)
    (hx : x ≤ c) (hf : 1 ≤ f)
    (hkelly : ∀ fraction, cfg.kellyFractionCap = some fraction → fraction ≤ f) :
    nachCash cfg rm a atr x ≤ c * f := by
  have hcf : 0 ≤ c * f := mul_nonneg hc (zero_le_one.trans hf)
  have hexposure : stepTotalExposureCap cfg rm a.currentPrice x ≤ c :=
    (shrinks_stepTotalExposureCap x).trans (max_le hc hx)
  have hlift : stepKelly cfg (stepTotalExposureCap cfg rm a.currentPrice x) ≤ c * f :=
    (stepKelly_le hkelly hf).trans
      (max_le hcf (mul_le_mul_of_nonneg_right hexposure (zero_le_one.trans hf)))
  have hloss : stepMaxLossPerTrade rm a.currentPrice atr a.stopLossAtrMultiplier
      (stepKelly cfg (stepTotalExposureCap cfg rm a.currentPrice x)) ≤ c * f :=
    (shrinks_stepMaxLossPerTrade _ _ _).trans (max_le hcf hlift)
  exact (shrinks_stepComplianceOrderValue _).trans (max_le hcf hloss)

/-- What a slot holds, as far as a Kelly fraction does not lift it. -/
def fach (cash buffer : ℚ) (n : ℤ) (kelly : Option ℚ) : ℚ :=
  max 0 (cash - buffer) / slots n * hebel kelly

theorem fach_nonneg : 0 ≤ fach cash buffer n kelly :=
  mul_nonneg (slot_nonneg _ _) (zero_le_one.trans (one_le_hebel kelly))

/-- A size behind the caps is paid by its slot. -/
theorem ImZyklus.cappedSize_le (h : ImZyklus cash buffer n kelly k)
    (hprice : 0 < k.auftrag.currentPrice) (atr : ℚ) (target : Option ℚ) (numShares : ℚ) :
    cappedSize k.cfg k.rm k.auftrag atr target numShares ≤
      fach cash buffer n kelly / k.auftrag.currentPrice := by
  have hslot : 0 ≤ max 0 (cash - buffer) / slots n / k.auftrag.currentPrice :=
    div_nonneg (slot_nonneg _ _) hprice.le
  have hcash : stepCash k.cfg k.rm k.auftrag.currentPrice k.auftrag.accountCash
      k.auftrag.numStocksInStrategy target
        (stepPositionCap k.cfg k.rm k.auftrag.currentPrice numShares) ≤
      max 0 (cash - buffer) / slots n / k.auftrag.currentPrice := by
    have hcaps := @caps_stepCash k.cfg k.rm _ hprice h.forbid k.auftrag.accountCash
      k.auftrag.numStocksInStrategy target
      (stepPositionCap k.cfg k.rm k.auftrag.currentPrice numShares)
    rw [h.cash, h.buffer, h.stocks, max_eq_right hslot] at hcaps
    rw [h.cash, h.stocks]
    exact hcaps
  rw [fach, mul_div_right_comm]
  exact nachCash_le hslot hcash (one_le_hebel kelly)
    fun fraction hfraction => le_hebel (h.kelly.symm.trans hfraction)

/-- A purchase costs no more than its slot, up to the rounding. -/
theorem ImZyklus.wert_le (h : ImZyklus cash buffer n kelly k) :
    k.wert ≤ fach cash buffer n kelly + k.rundung := by
  have hbound : 0 ≤ fach cash buffer n kelly + k.rundung :=
    add_nonneg fach_nonneg k.rundung_nonneg
  rw [Kauf.wert]
  rcases calculatePositionSize_cases k.cfg k.rm k.auftrag with
    hzero | ⟨atr, target, numShares, -, -, hround⟩
  · rw [hzero, zero_mul]
    exact hbound
  · rcases le_or_gt k.auftrag.currentPrice 0 with hprice | hprice
    · exact (mul_nonpos_of_nonneg_of_nonpos hround.nonneg hprice).trans hbound
    · have hsize := h.cappedSize_le hprice atr target numShares
      have hfach : 0 ≤ fach cash buffer n kelly / k.auftrag.currentPrice :=
        div_nonneg fach_nonneg hprice.le
      have hq := hround.le.trans (add_le_add_left (max_le hfach hsize) _)
      calc calculatePositionSize k.cfg k.rm k.auftrag * k.auftrag.currentPrice
          ≤ (fach cash buffer n kelly / k.auftrag.currentPrice + 1 / 2 / 10 ^ 6) *
              k.auftrag.currentPrice := mul_le_mul_of_nonneg_right hq hprice.le
        _ = fach cash buffer n kelly + k.rundung := by
            rw [add_mul, div_mul_cancel₀ _ hprice.ne', Kauf.rundung, max_eq_right hprice.le,
              mul_comm (1 / 2 / 10 ^ 6)]

/-- With no cash above the buffer there is no purchase. -/
theorem ImZyklus.wert_nonpos (h : ImZyklus cash buffer n kelly k) (hcash : cash ≤ buffer) :
    k.wert ≤ 0 := by
  have hfach : fach cash buffer n kelly = 0 := by
    rw [fach, max_eq_left (sub_nonpos.mpr hcash), zero_div, zero_mul]
  rw [Kauf.wert]
  rcases calculatePositionSize_cases k.cfg k.rm k.auftrag with
    hzero | ⟨atr, target, numShares, -, -, hround⟩
  · rw [hzero, zero_mul]
  · rcases le_or_gt k.auftrag.currentPrice 0 with hprice | hprice
    · exact mul_nonpos_of_nonneg_of_nonpos hround.nonneg hprice
    · have hsize := h.cappedSize_le hprice atr target numShares
      rw [hfach, zero_div] at hsize
      rw [hround.zero_or_pos.resolve_right (not_lt.mpr hsize), zero_mul]

/-! ## The purchases of a cycle -/

theorem sum_wert_le {orders : List Kauf} (h : ∀ k ∈ orders, ImZyklus cash buffer n kelly k) :
    (orders.map Kauf.wert).sum ≤
      orders.length * fach cash buffer n kelly + (orders.map Kauf.rundung).sum := by
  induction orders with
  | nil => simp
  | cons k orders ih =>
      have hk := (h k List.mem_cons_self).wert_le
      have htail := ih fun k' hk' => h k' (List.mem_cons_of_mem _ hk')
      simp only [List.map_cons, List.sum_cons, List.length_cons, Nat.cast_add, Nat.cast_one]
      linarith

theorem sum_wert_nonpos {orders : List Kauf} (h : ∀ k ∈ orders, ImZyklus cash buffer n kelly k)
    (hcash : cash ≤ buffer) : (orders.map Kauf.wert).sum ≤ 0 := by
  induction orders with
  | nil => simp
  | cons k orders ih =>
      have hk := (h k List.mem_cons_self).wert_nonpos hcash
      have htail := ih fun k' hk' => h k' (List.mem_cons_of_mem _ hk')
      simp only [List.map_cons, List.sum_cons]
      linarith

/-- As many slots as there are hold no more than the cash. -/
theorem mul_fach_le {m : ℕ} (hm : (m : ℤ) ≤ n) :
    m * fach cash buffer n kelly ≤ hebel kelly * max 0 (cash - buffer) := by
  have hcash : 0 ≤ max 0 (cash - buffer) := le_max_left _ _
  have hhebel : 0 ≤ hebel kelly := zero_le_one.trans (one_le_hebel kelly)
  rcases Nat.eq_zero_or_pos m with rfl | hpos
  · rw [Nat.cast_zero, zero_mul]
    exact mul_nonneg hhebel hcash
  · have hn : 1 ≤ n := by omega
    have hnq : (0 : ℚ) < n := by exact_mod_cast hn
    have hmq : (m : ℚ) ≤ n := by exact_mod_cast hm
    calc (m : ℚ) * fach cash buffer n kelly
        ≤ n * fach cash buffer n kelly := mul_le_mul_of_nonneg_right hmq fach_nonneg
      _ = hebel kelly * max 0 (cash - buffer) := by
          rw [fach, slots_of_pos hn, ← mul_assoc, mul_div_cancel₀ _ hnq.ne', mul_comm]

/-- The orders of a cycle are paid by the cash above the buffer, up to the rounding of each
size and to a Kelly fraction above one; without cash above the buffer nothing is bought. -/
theorem zyklus_ohne_hebel {orders : List Kauf}
    (h : ∀ k ∈ orders, ImZyklus cash buffer n kelly k) (hlen : (orders.length : ℤ) ≤ n) :
    (orders.map Kauf.wert).sum ≤
        hebel kelly * max 0 (cash - buffer) + (orders.map Kauf.rundung).sum ∧
      (cash ≤ buffer → (orders.map Kauf.wert).sum ≤ 0) :=
  ⟨(sum_wert_le h).trans (add_le_add_left (mul_fach_le hlen) _), sum_wert_nonpos h⟩

/-- Two purchases of a cycle with two slots, at different prices. -/
def zweiKaeufe : List Kauf :=
  [{ cfg := standard, rm := konto, auftrag := { siebenDollar with numStocksInStrategy := 2 } },
    { cfg := standard, rm := konto,
      auftrag := { siebenDollar with numStocksInStrategy := 2, currentPrice := 11 } }]

theorem zweiKaeufe_ohne_hebel :
    0 < (zweiKaeufe.map Kauf.wert).sum ∧
      (zweiKaeufe.map Kauf.wert).sum ≤
        hebel (some 1) * max 0 (1000 - 1) + (zweiKaeufe.map Kauf.rundung).sum ∧
      ((1000 : ℚ) ≤ 1 → (zweiKaeufe.map Kauf.wert).sum ≤ 0) := by
  have hcycle : ∀ k ∈ zweiKaeufe, ImZyklus 1000 1 2 (some 1) k := by
    intro k hk
    rcases List.mem_pair.mp hk with rfl | rfl
    · exact ⟨rfl, rfl, rfl, rfl, rfl⟩
    · exact ⟨rfl, rfl, rfl, rfl, rfl⟩
  exact ⟨by decide +kernel, zyklus_ohne_hebel hcycle le_rfl⟩

/-! ## A cycle above its cash -/

/-- The only purchase of a cycle with one slot. -/
def einKauf : Kauf := { cfg := standard, rm := konto, auftrag := siebenDollar }

theorem einKauf_im_zyklus : ∀ k ∈ [einKauf], ImZyklus 1000 1 1 (some 1) k := by
  intro k hk
  rw [List.mem_singleton] at hk
  subst hk
  exact ⟨rfl, rfl, rfl, rfl, rfl⟩

/-- One purchase in one slot costs more than the cash above the buffer. -/
theorem einKauf_ueber_cash : (∀ k ∈ [einKauf], ImZyklus 1000 1 1 (some 1) k) ∧
    max 0 (1000 - 1) < ([einKauf].map Kauf.wert).sum := by
  refine ⟨einKauf_im_zyklus, ?_⟩
  have hsize : calculatePositionSize einKauf.cfg einKauf.rm einKauf.auftrag =
      142714286 / 1000000 := calculatePositionSize_siebenDollar
  rw [List.map_singleton, List.sum_singleton, Kauf.wert, hsize]
  decide +kernel

end Bemessung
