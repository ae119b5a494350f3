import AutonomousEngine.PerfMetrics.ChainLink
import Mathlib.Data.Sign.Basic
import Mathlib.Tactic.FieldSimp
import Mathlib.Tactic.LinearCombination
import Mathlib.Tactic.Ring

/-!
# The sign of the money and of the percentage

Beside the percentage the walk of the console gives the profit in money.  The one multiplies
ratios and the other adds differences, over the same days.  The two have one sign as long as
each day starts from the value at which the day before ended: a flow taken out of a day moves
the base of the next day, and then a loss of much money may be less than a gain of little
(`einig_festeBasis`).
-/

namespace PerfMetrics

open Basis

/-- The profit in money has the sign of the last percentage. -/
def Einig (points : List TwrPoint) : Prop :=
  ∀ pct, (chainLink points).pctSeries.getLast? = some pct →
    SignType.sign (chainLink points).marketPnl = SignType.sign pct

/-- The value of a day without the flow that is taken out of it. -/
def Walk.market (w : Walk) (p : TwrPoint) : ℚ :=
  marketEquity w.prev p.eur (p.cashflow.getD 0 + w.carry)

/-- A measured day keeps the base: the next day starts from its value, which is positive, or
there is no gain and no loss so far. -/
def Walk.Haelt (w : Walk) (p : TwrPoint) : Prop :=
  0 < w.prev → 0 < w.market p ∧ w.market p = p.eur ∨ w.growth * (w.market p / w.prev) = 1

def FesteBasis (first : TwrPoint) (rest : List TwrPoint) : Prop :=
  Along Walk.next Walk.Haelt (Walk.init first.eur) rest

/-- Days behind a walk that are not measured, for want of a positive base. -/
def Unmessbar (w : Walk) (points : List TwrPoint) : Prop :=
  Along Walk.next (fun w _ => w.prev ≤ 0) w points

/-! ## One day -/

/-- The profit of a walk has the sign of its percentage. -/
def Walk.Einig (w : Walk) : Prop :=
  SignType.sign w.marketPnl = SignType.sign ((w.growth - 1) * 100)

theorem Walk.einig_iff (w : Walk) :
    w.Einig ↔ SignType.sign w.marketPnl = SignType.sign (w.growth - 1) := by
  have hsign : SignType.sign ((w.growth - 1) * 100) = SignType.sign (w.growth - 1) := by
    rw [sign_mul, sign_pos (by norm_num : (0 : ℚ) < 100), mul_one]
  rw [Walk.Einig, hsign]

theorem einig_cons_iff (first : TwrPoint) (rest : List TwrPoint) :
    Einig (first :: rest) ↔ (feed Walk.next (Walk.init first.eur) rest).1.Einig := by
  rw [Einig, chainLink_getLast]
  constructor
  · intro h
    exact h _ rfl
  · intro h pct hpct
    rw [← Option.some.inj hpct]
    exact h

section

variable {w : Walk} {p : TwrPoint}

theorem next_market (h : 0 < w.prev) : (w.next p).1 =
    { prev := p.eur
      growth := w.growth * (w.market p / w.prev)
      carry := carried w.prev p.eur (p.cashflow.getD 0 + w.carry)
      marketPnl := w.marketPnl + (w.market p - w.prev) } := next_of_pos h

/-- The profit in money is what the growth makes of the base: either nothing was gained or
lost, or the base of the next day has grown as much. -/
def Walk.Gleich (w : Walk) : Prop :=
  w.growth = 1 ∧ w.marketPnl = 0 ∨
    0 < w.prev ∧ 0 < w.growth ∧ w.marketPnl * w.growth = w.prev * (w.growth - 1)

theorem gleich_init (eur : ℚ) : (Walk.init eur).Gleich := .inl ⟨rfl, rfl⟩

theorem Walk.Gleich.pnl (h : w.Gleich) :
    0 < w.growth ∧ w.marketPnl * w.growth = w.prev * (w.growth - 1) := by
  rcases h with ⟨hgrowth, hpnl⟩ | ⟨-, hgrowth, hpnl⟩
  · rw [hgrowth, hpnl]
    exact ⟨zero_lt_one, by ring⟩
  · exact ⟨hgrowth, hpnl⟩

theorem Walk.Gleich.of_not (h : w.Gleich) (hprev : ¬0 < w.prev) :
    w.growth = 1 ∧ w.marketPnl = 0 := by
  rcases h with h | ⟨hpos, -⟩
  · exact h
  · exact absurd hpos hprev

theorem Walk.Gleich.pnl_next (h : w.Gleich) (hprev : 0 < w.prev) :
    (w.next p).1.marketPnl * w.growth = w.prev * ((w.next p).1.growth - 1) := by
  obtain ⟨-, hpnl⟩ := h.pnl
  rw [next_market hprev]
  have hratio : w.prev * (w.growth * (w.market p / w.prev)) = w.growth * w.market p := by
    field_simp
  linear_combination hpnl - hratio

/-- Whatever the next day brings, profit and percentage have one sign. -/
theorem Walk.Gleich.einig_next (h : w.Gleich) : (w.next p).1.Einig := by
  rw [Walk.einig_iff]
  by_cases hprev : 0 < w.prev
  · obtain ⟨hgrowth, -⟩ := h.pnl
    have hsign := congrArg SignType.sign (h.pnl_next (p := p) hprev)
    rwa [sign_mul, sign_mul, sign_pos hgrowth, sign_pos hprev, mul_one, one_mul] at hsign
  · obtain ⟨hgrowth, hpnl⟩ := h.of_not hprev
    rw [next_of_not hprev, hgrowth, hpnl, sub_self]

/-- The day keeps the base exactly when the next one can start from it. -/
theorem Walk.Gleich.next_iff (h : w.Gleich) : (w.next p).1.Gleich ↔ w.Haelt p := by
  by_cases hprev : 0 < w.prev
  · obtain ⟨hgrowth, -⟩ := h.pnl
    have hpnl := h.pnl_next (p := p) hprev
    have hgrow : (w.next p).1.growth = w.growth * (w.market p / w.prev) := by
      rw [next_market hprev]
    have hbase : (w.next p).1.prev = p.eur := by rw [next_market hprev]
    have hmarket : (w.next p).1.marketPnl * (w.next p).1.growth =
        w.market p * ((w.next p).1.growth - 1) := by
      have hscaled : (w.next p).1.marketPnl * (w.growth * (w.market p / w.prev)) =
          w.prev * ((w.next p).1.growth - 1) * (w.market p / w.prev) := by
        rw [← mul_assoc, hpnl]
      rw [← hgrow] at hscaled
      rw [hscaled, mul_right_comm, mul_div_cancel₀ _ hprev.ne']
    rw [Walk.Gleich, hbase]
    constructor
    · rintro (⟨hone, -⟩ | ⟨heur, -, hgleich⟩) -
      · exact .inr (hgrow ▸ hone)
      · have hzero : (w.market p - p.eur) * ((w.next p).1.growth - 1) = 0 := by
          linear_combination hgleich - hmarket
        rcases mul_eq_zero.mp hzero with hsame | hone
        · have heq : w.market p = p.eur := sub_eq_zero.mp hsame
          exact .inl ⟨heq ▸ heur, heq⟩
        · exact .inr (hgrow ▸ sub_eq_zero.mp hone)
    · intro hkeeps
      rcases hkeeps hprev with ⟨hvalue, heq⟩ | hone
      · refine .inr ⟨heq ▸ hvalue, ?_, ?_⟩
        · rw [hgrow]
          exact mul_pos hgrowth (div_pos hvalue hprev)
        · rw [← heq]
          exact hmarket
      · have hgrown : (w.next p).1.growth = 1 := hgrow.trans hone
        rw [hgrown, sub_self, mul_zero, mul_eq_zero] at hpnl
        exact .inl ⟨hgrown, hpnl.resolve_right hgrowth.ne'⟩
  · refine iff_of_true ?_ fun hpos => absurd hpos hprev
    rw [next_of_not hprev]
    exact .inl (h.of_not hprev)

/-! ## Further days -/

/-- A day that takes the flow carried to it back, and ends at a value. -/
def tagZu (w : Walk) (eur : ℚ) : TwrPoint := ⟨eur, some (-w.carry)⟩

theorem market_tagZu (eur : ℚ) : w.market (tagZu w eur) = eur := by
  have hflow : (tagZu w eur).cashflow.getD 0 + w.carry = 0 := neg_add_cancel _
  have hstays : ¬Lags w.prev eur 0 := fun h => h.1 rfl
  rw [Walk.market, hflow, marketEquity]
  exact (if_neg hstays).trans (sub_zero eur)

/-- When profit and percentage have one sign wherever a measured day ends, the profit is what
the growth makes of the base. -/
theorem gleich_of_einig (hprev : 0 < w.prev) (h : ∀ p, (w.next p).1.Einig) :
    0 < w.growth ∧ w.marketPnl * w.growth = w.prev * (w.growth - 1) := by
  have hsign (x : ℚ) : SignType.sign (w.marketPnl + (x - w.prev)) =
      SignType.sign (w.growth * (x / w.prev) - 1) := by
    have hday := (Walk.einig_iff _).mp (h (tagZu w x))
    rw [next_market hprev, market_tagZu] at hday
    exact hday
  have hgrowth : 0 < w.growth := by
    by_contra hneg
    have hx : 0 < max 0 (w.prev - w.marketPnl) + 1 := by positivity
    have hhigh := hsign (max 0 (w.prev - w.marketPnl) + 1)
    have hprofit : 0 < w.marketPnl + (max 0 (w.prev - w.marketPnl) + 1 - w.prev) := by
      linarith [le_max_right 0 (w.prev - w.marketPnl)]
    have hloss : w.growth * ((max 0 (w.prev - w.marketPnl) + 1) / w.prev) - 1 < 0 := by
      have hnonpos := mul_nonpos_of_nonpos_of_nonneg (not_lt.mp hneg) (div_pos hx hprev).le
      linarith
    rw [sign_pos hprofit, sign_neg hloss] at hhigh
    cases hhigh
  refine ⟨hgrowth, ?_⟩
  have heven := hsign (w.prev - w.marketPnl)
  have hnull : w.marketPnl + (w.prev - w.marketPnl - w.prev) = 0 := by ring
  rw [hnull, sign_zero, eq_comm, sign_eq_zero_iff] at heven
  have hvalue : w.growth * (w.prev - w.marketPnl) = w.prev := by
    field_simp at heven
    linarith
  linear_combination -hvalue

end

/-- A walk stands even exactly when profit and percentage have one sign behind it, however
many days are not measured and whatever the day after them brings. -/
theorem Walk.gleich_iff (w : Walk) : w.Gleich ↔
    ∀ weiter p, Unmessbar w weiter → (feed Walk.next w (weiter ++ [p])).1.Einig := by
  constructor
  · intro h weiter p hweiter
    have hstill : (feed Walk.next w weiter).1.Gleich :=
      feed_invariant (fun w p hw hprev => hw.next_iff.mpr fun hpos => absurd hpos hprev.not_gt)
        h hweiter
    rw [feed_append]
    exact hstill.einig_next
  · intro h
    by_cases hprev : 0 < w.prev
    · obtain ⟨hgrowth, hpnl⟩ := gleich_of_einig hprev fun p => h [] p trivial
      exact .inr ⟨hprev, hgrowth, hpnl⟩
    · have hbase (x : ℚ) (hx : 0 < x) : w.marketPnl * w.growth = x * (w.growth - 1) ∧
          0 < w.growth := by
        have hskip : ((w.next ⟨x, none⟩).1 : Walk) = { w with prev := x } := next_of_not hprev
        have hnext (p : TwrPoint) : (({ w with prev := x } : Walk).next p).1.Einig := by
          rw [← hskip]
          exact h [⟨x, none⟩] p ⟨not_lt.mp hprev, trivial⟩
        obtain ⟨hgrowth, hpnl⟩ := gleich_of_einig (w := { w with prev := x }) hx hnext
        exact ⟨hpnl, hgrowth⟩
      obtain ⟨hone, hgrowth⟩ := hbase 1 zero_lt_one
      obtain ⟨htwo, -⟩ := hbase 2 zero_lt_two
      have hgrown : w.growth = 1 := by linarith
      rw [hgrown, sub_self, mul_zero, mul_one] at hone
      exact .inl ⟨hgrown, hone⟩

/-- From an even walk the days keep the base exactly when it stands even behind each. -/
theorem along_haelt_iff {w : Walk} (h : w.Gleich) (rest : List TwrPoint) :
    Along Walk.next Walk.Haelt w rest ↔
      ∀ vor nach, rest = vor ++ nach → (feed Walk.next w vor).1.Gleich := by
  induction rest generalizing w with
  | nil =>
      refine iff_of_true trivial fun vor nach hnil => ?_
      rw [(List.append_eq_nil_iff.mp hnil.symm).1]
      exact h
  | cons p rest ih =>
      rw [along_cons, ← h.next_iff]
      constructor
      · rintro ⟨hfirst, hrest⟩ vor nach hsplit
        cases vor with
        | nil => exact h
        | cons p' vor =>
            obtain ⟨rfl, htail⟩ := List.cons.inj hsplit
            exact (ih hfirst).mp hrest vor nach htail
      · intro hall
        have hfirst : (w.next p).1.Gleich := hall [p] rest rfl
        refine ⟨hfirst, (ih hfirst).mpr fun vor nach hsplit => ?_⟩
        exact hall (p :: vor) nach (by rw [hsplit, List.cons_append])

/-! ## Charts -/

/-- The profit of a chart has the sign of its percentage when all days but the last keep the
base.  And all days keep it exactly when the signs are one on each of them, however many
days behind it are not measured and whatever the next one brings. -/
theorem einig_festeBasis (first : TwrPoint) (rest : List TwrPoint) :
    (FesteBasis first rest.dropLast → Einig (first :: rest)) ∧
      (FesteBasis first rest ↔ ∀ vor nach, rest = vor ++ nach → ∀ weiter p,
        Unmessbar (feed Walk.next (Walk.init first.eur) vor).1 weiter →
          Einig (first :: (vor ++ (weiter ++ [p])))) := by
  have hall (rest : List TwrPoint) :
      FesteBasis first rest ↔ ∀ vor nach, rest = vor ++ nach → ∀ weiter p,
        Unmessbar (feed Walk.next (Walk.init first.eur) vor).1 weiter →
          Einig (first :: (vor ++ (weiter ++ [p]))) := by
    rw [FesteBasis, along_haelt_iff (gleich_init first.eur)]
    refine forall_congr' fun vor => forall_congr' fun nach => imp_congr_right fun _ => ?_
    rw [Walk.gleich_iff]
    refine forall_congr' fun weiter => forall_congr' fun p => imp_congr_right fun _ => ?_
    rw [einig_cons_iff, feed_append _ _ vor]
  refine ⟨fun h => ?_, hall rest⟩
  rcases List.eq_nil_or_concat rest with rfl | ⟨vor, p, rfl⟩
  · rw [einig_cons_iff, feed_nil, Walk.einig_iff, Walk.init, sub_self]
  · rw [List.concat_eq_append, List.dropLast_concat] at h
    rw [List.concat_eq_append]
    exact (hall vor).mp h vor [] (List.append_nil vor).symm [] p trivial

/-- A deposit on a day without a gain, and a gain and a loss behind it. -/
theorem einig_festeBasis_einzahlung :
    Einig [⟨100, none⟩, ⟨1100, some 1000⟩, ⟨1210, none⟩, ⟨1089, none⟩] := by
  refine (einig_festeBasis ⟨100, none⟩ [⟨1100, some 1000⟩, ⟨1210, none⟩, ⟨1089, none⟩]).1 ?_
  exact ⟨fun _ => .inr (by decide +kernel), fun _ => .inl (by decide +kernel), trivial⟩

/-- A gain of ten on a hundred, a deposit of ten thousand, and a loss of 110 on that. -/
def einzahlung : List TwrPoint :=
  [⟨100, none⟩, ⟨110, none⟩, ⟨10110, some 10000⟩, ⟨10000, none⟩]

/-- The money is a loss of a hundred, and the percentage a gain. -/
theorem einzahlung_uneinig : ¬Einig einzahlung := by
  have hlinked : (chainLink einzahlung).marketPnl = -100 := by decide +kernel
  have hlast : (chainLink einzahlung).pctSeries.getLast? = some (8900 / 1011) := by
    decide +kernel
  intro h
  have hsign := h _ hlast
  rw [hlinked, sign_neg (by norm_num), sign_pos (by norm_num)] at hsign
  cases hsign

end PerfMetrics
