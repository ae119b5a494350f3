import Mathlib.Algebra.Order.Ring.Int
import Mathlib.Data.List.Dedup
import Mathlib.Data.List.Sort
import Mathlib.Tactic.Ring

/-!
# The clock of a simulated run

A run replays the same window on each of several trading days.  `advance` steps by the
cadence, and behind the window it goes on to the start of the window of the next day, if
there is one.

So the clock is on each of the days it was given once, in their order, and for the same
number of steps (`uhr_lauf`): the clock is open for all of them, and after the last one it
is closed for good.

Times are seconds of the market's wall clock, by which aware times of one zone are added
and compared; a day is a number of days.
-/

namespace Sim

def tag : ℤ := 86400

def combine (day : ℤ) (time : ℤ) : ℤ := day * tag + time

/-- `SimClock`. -/
structure SimClock where
  cadence : ℤ
  window : ℤ × ℤ
  startTime : ℤ
  endTime : ℤ
  currentTime : ℤ
  firstDay : ℤ
  days : List ℤ
  daysCompleted : ℕ
  nDays : ℕ
deriving DecidableEq, Repr

namespace SimClock

/-- `SimClock(...)` for a day. -/
def neu (day : ℤ) (window : ℤ × ℤ) (cadence : ℤ) : SimClock where
  cadence := cadence
  window := window
  startTime := combine day window.1
  endTime := combine day window.2
  currentTime := combine day window.1
  firstDay := day
  days := []
  daysCompleted := 1
  nDays := 1

/-- `set_trading_days`; `none` for days that are no dates. -/
def setTradingDays (c : SimClock) (days : Option (List ℤ)) : SimClock :=
  match days with
  | none => c
  | some days =>
      match days.dedup.insertionSort (· ≤ ·) with
      | [] => c
      | first :: rest =>
          let c := if first ≠ c.firstDay then
              { c with
                firstDay := first
                startTime := combine first c.window.1
                endTime := combine first c.window.2
                currentTime := combine first c.window.1 }
            else c
          { c with days := rest, daysCompleted := 1, nDays := 1 + rest.length }

/-- `advance`, and whether a new day has begun. -/
def advance (c : SimClock) : SimClock × Bool :=
  let c := { c with currentTime := c.currentTime + c.cadence }
  if c.currentTime ≤ c.endTime then (c, false)
  else
    match c.days with
    | [] => (c, false)
    | nextDay :: rest =>
        ({ c with
            days := rest
            startTime := combine nextDay c.window.1
            endTime := combine nextDay c.window.2
            currentTime := combine nextDay c.window.1
            daysCompleted := c.daysCompleted + 1 }, true)

def isOpen (c : SimClock) : Bool :=
  decide (c.startTime ≤ c.currentTime) && decide (c.currentTime ≤ c.endTime)

def nach (c : SimClock) (k : ℕ) : SimClock := (fun c => c.advance.1)^[k] c

end SimClock

/-! ## Runs of the clock -/

/-- How often the clock is read in a window: at its start and after each step in it. -/
def takte (window : ℤ × ℤ) (cadence : ℤ) : ℕ := ((window.2 - window.1) / cadence).toNat + 1

section

variable {c : SimClock} {day next : ℤ} {days rest : List ℤ} {window : ℤ × ℤ} {cadence : ℤ}
  {k r done : ℕ}

theorem advance_bleibt (h : c.currentTime + c.cadence ≤ c.endTime ∨ c.days = []) :
    c.advance = ({ c with currentTime := c.currentTime + c.cadence }, false) := by
  rw [SimClock.advance]
  split
  next => rfl
  next hbehind =>
    have hdays := h.resolve_left hbehind
    simp [hdays]

theorem advance_neuerTag (h : c.endTime < c.currentTime + c.cadence)
    (hdays : c.days = next :: rest) :
    c.advance = ({ c with
      days := rest
      startTime := combine next c.window.1
      endTime := combine next c.window.2
      currentTime := combine next c.window.1
      daysCompleted := c.daysCompleted + 1 }, true) := by
  rw [SimClock.advance]
  simp only
  rw [if_neg (not_le.mpr h)]
  simp [hdays]

/-- The clock stands on a day, `r` steps into its window, with days to come. -/
structure Steht (c : SimClock) (window : ℤ × ℤ) (cadence day : ℤ) (r : ℕ) (days : List ℤ)
    (done : ℕ) : Prop where
  fenster : c.window = window
  schritt : c.cadence = cadence
  start : c.startTime = combine day window.1
  ende : c.endTime = combine day window.2
  jetzt : c.currentTime = combine day window.1 + r * cadence
  tage : c.days = days
  fertig : c.daysCompleted = done

theorem Steht.naechste (h : Steht c window cadence day r days done) :
    c.currentTime + c.cadence = combine day window.1 + (r + 1 : ℕ) * cadence := by
  rw [h.jetzt, h.schritt]
  push_cast
  ring

/-- A step in the window, or on the last day. -/
theorem Steht.weiter (h : Steht c window cadence day r days done)
    (hstep : (r + 1 : ℕ) * cadence ≤ window.2 - window.1 ∨ days = []) :
    Steht c.advance.1 window cadence day (r + 1) days done ∧ c.advance.2 = false := by
  rw [advance_bleibt]
  · exact ⟨⟨h.fenster, h.schritt, h.start, h.ende, h.naechste, h.tage, h.fertig⟩, rfl⟩
  · refine hstep.imp (fun hle => ?_) fun hnil => h.tage.trans hnil
    rw [h.naechste, h.ende, combine, combine]
    omega

/-- The step behind the window goes to the next day. -/
theorem Steht.neuerTag (h : Steht c window cadence day r (next :: rest) done)
    (hstep : window.2 - window.1 < (r + 1 : ℕ) * cadence) :
    Steht c.advance.1 window cadence next 0 rest (done + 1) ∧ c.advance.2 = true := by
  rw [advance_neuerTag _ h.tage]
  · refine ⟨⟨h.fenster, h.schritt, ?_, ?_, ?_, rfl, ?_⟩, rfl⟩
    · rw [← h.fenster]
    · rw [← h.fenster]
    · simp [h.fenster]
    · rw [← h.fertig]
  · rw [h.naechste, h.ende, combine, combine]
    omega

theorem mul_le_iff_lt_takte (hcadence : 0 < cadence) (hwindow : window.1 ≤ window.2) (n : ℕ) :
    n * cadence ≤ window.2 - window.1 ↔ n < takte window cadence := by
  have hquot : 0 ≤ (window.2 - window.1) / cadence := Int.ediv_nonneg (by omega) hcadence.le
  rw [← Int.le_ediv_iff_mul_le hcadence, takte]
  omega

theorem Steht.isOpen_iff (h : Steht c window cadence day r days done) (hcadence : 0 < cadence)
    (hwindow : window.1 ≤ window.2) : c.isOpen = true ↔ r < takte window cadence := by
  rw [SimClock.isOpen, h.start, h.ende, h.jetzt, Bool.and_eq_true, decide_eq_true_eq,
    decide_eq_true_eq, combine, combine, ← mul_le_iff_lt_takte hcadence hwindow]
  have hpos : 0 ≤ (r : ℤ) * cadence := mul_nonneg (by omega) hcadence.le
  omega

end

/-! ## The run over the days -/

section

variable {c : SimClock} {day : ℤ} {days rest : List ℤ} {window : ℤ × ℤ} {cadence : ℤ} {k done : ℕ}

theorem SimClock.nach_succ (c : SimClock) (k : ℕ) : c.nach (k + 1) = (c.nach k).advance.1 :=
  Function.iterate_succ_apply' _ k c

theorem SimClock.nach_add (c : SimClock) (k l : ℕ) : c.nach (k + l) = (c.nach k).nach l := by
  rw [SimClock.nach, SimClock.nach, SimClock.nach, ← Function.iterate_add_apply, add_comm]

theorem Steht.tag (h : Steht c window cadence day 0 days done) (hcadence : 0 < cadence)
    (hwindow : window.1 ≤ window.2) (hk : k < takte window cadence) :
    Steht (c.nach k) window cadence day k days done := by
  induction k with
  | zero => exact h
  | succ k ih =>
      rw [SimClock.nach_succ]
      exact ((ih (by omega)).weiter (.inl ((mul_le_iff_lt_takte hcadence hwindow _).mpr hk))).1

theorem Steht.letzter (h : Steht c window cadence day 0 [] done) (k : ℕ) :
    Steht (c.nach k) window cadence day k [] done := by
  induction k with
  | zero => exact h
  | succ k ih =>
      rw [SimClock.nach_succ]
      exact (ih.weiter (.inr rfl)).1

/-- After a whole day of steps the clock is at the start of the next one. -/
theorem Steht.naechsterTag {next : ℤ} (h : Steht c window cadence day 0 (next :: rest) done)
    (hcadence : 0 < cadence) (hwindow : window.1 ≤ window.2) :
    Steht (c.nach (takte window cadence)) window cadence next 0 rest (done + 1) := by
  have hlast := h.tag hcadence hwindow (k := takte window cadence - 1) (by rw [takte]; omega)
  have hsucc : takte window cadence = takte window cadence - 1 + 1 := by rw [takte]; omega
  rw [hsucc, SimClock.nach_succ]
  refine (hlast.neuerTag ?_).1
  rw [← hsucc, ← not_le, mul_le_iff_lt_takte hcadence hwindow]
  exact lt_irrefl _

/-- From the start of a day the clock is on the `k / m`-th of the days from it on, `k % m`
steps into the window, `m` steps a day. -/
theorem Steht.lauf (h : Steht c window cadence day 0 rest done) (hcadence : 0 < cadence)
    (hwindow : window.1 ≤ window.2) {i : ℕ} {d : ℤ} (hd : (day :: rest)[i]? = some d)
    (hk : k < takte window cadence ∨ i = rest.length) :
    Steht (c.nach (i * takte window cadence + k)) window cadence d k (rest.drop i) (done + i) := by
  induction i generalizing c day rest done with
  | zero =>
      obtain rfl : day = d := Option.some.inj hd
      rw [Nat.zero_mul, Nat.zero_add]
      rcases hk with hk | hlast
      · exact h.tag hcadence hwindow hk
      · obtain rfl := List.length_eq_zero_iff.mp hlast.symm
        exact h.letzter k
  | succ i ih =>
      cases rest with
      | nil => simp at hd
      | cons next rest =>
          have hnext := ih (h.naechsterTag hcadence hwindow) (by simpa using hd)
            (hk.imp id fun heq => by simpa using heq)
          rw [← SimClock.nach_add] at hnext
          have hsum : takte window cadence + (i * takte window cadence + k) =
              (i + 1) * takte window cadence + k := by ring
          rw [hsum] at hnext
          have hdone : done + 1 + i = done + (i + 1) := by omega
          rw [hdone] at hnext
          exact hnext

/-- The days a clock replays, in their order. -/
def replayDays (days : List ℤ) : List ℤ := days.dedup.insertionSort (· ≤ ·)

/-- A clock that was given days stands at the start of the first one. -/
theorem steht_setTradingDays (start : ℤ) {first : ℤ} (hdays : replayDays days = first :: rest) :
    Steht ((SimClock.neu start window cadence).setTradingDays (some days)) window cadence first 0
      rest 1 := by
  have hstep : (SimClock.neu start window cadence).setTradingDays (some days) =
      { SimClock.neu first window cadence with days := rest, nDays := 1 + rest.length } := by
    rw [SimClock.setTradingDays]
    show (match replayDays days with | [] => _ | first :: rest => _) = _
    rw [hdays]
    by_cases hfirst : first = start
    · simp [SimClock.neu, hfirst]
    · simp [SimClock.neu, hfirst]
  rw [hstep]
  exact ⟨rfl, rfl, rfl, rfl, by simp [SimClock.neu], rfl, rfl⟩

theorem replayDays_ne_nil (hdays : days ≠ []) : replayDays days ≠ [] := by
  intro hnil
  have hperm := List.perm_insertionSort (· ≤ ·) days.dedup
  rw [show days.dedup.insertionSort (· ≤ ·) = [] from hnil] at hperm
  exact hdays ((List.dedup_eq_nil days).mp hperm.symm.eq_nil)

/-- Where a clock stands after `k` steps: on the `i`-th of its days, `r` steps into the
window, and only on the last day past its end. -/
theorem steht_nach (start : ℤ) (days : List ℤ) (k : ℕ) (hdays : days ≠ []) (hcadence : 0 < cadence)
    (hwindow : window.1 ≤ window.2) :
    ∃ i d r, i = min (k / takte window cadence) ((replayDays days).length - 1) ∧
      i < (replayDays days).length ∧ (replayDays days)[i]? = some d ∧
      k = i * takte window cadence + r ∧
      (r < takte window cadence ∨ i + 1 = (replayDays days).length) ∧
      Steht (((SimClock.neu start window cadence).setTradingDays (some days)).nach k) window
        cadence d r ((replayDays days).drop (i + 1)) (1 + i) := by
  have hm : 0 < takte window cadence := Nat.succ_pos _
  cases hreplay : replayDays days with
  | nil => exact absurd hreplay (replayDays_ne_nil hdays)
  | cons first rest =>
      obtain ⟨i, hi⟩ : ∃ i, i = min (k / takte window cadence) rest.length := ⟨_, rfl⟩
      have hilt : i < (first :: rest).length := by
        rw [List.length_cons]
        omega
      have hdiv : k / takte window cadence * takte window cadence ≤ k := Nat.div_mul_le_self _ _
      have hmod : k < (k / takte window cadence + 1) * takte window cadence :=
        Nat.lt_mul_of_div_lt (Nat.lt_succ_self _) hm
      obtain ⟨r, hr⟩ := Nat.exists_eq_add_of_le
        ((Nat.mul_le_mul_right (takte window cadence) (by omega)).trans hdiv :
          i * takte window cadence ≤ k)
      have hcase : r < takte window cadence ∨ i = rest.length := by
        rcases le_total (k / takte window cadence) rest.length with hle | hge
        · left
          have hik : i = k / takte window cadence := by omega
          rw [← hik, Nat.add_one_mul] at hmod
          omega
        · right
          omega
      have hlauf := (steht_setTradingDays start hreplay).lauf hcadence hwindow
        (List.getElem?_eq_getElem hilt) hcase
      rw [← hr] at hlauf
      exact ⟨i, _, r, hi, hilt, List.getElem?_eq_getElem hilt, hr,
        hcase.imp id fun h => by rw [h, List.length_cons], hlauf⟩

/-- A new day is announced by the step behind the end of a window that is not the last. -/
theorem Steht.advance_iff (h : Steht c window cadence day k rest done) (hcadence : 0 < cadence)
    (hwindow : window.1 ≤ window.2) (hk : k < takte window cadence ∨ rest = []) :
    c.advance.2 = true ↔ k + 1 = takte window cadence ∧ rest ≠ [] := by
  cases rest with
  | nil => simp [(h.weiter (.inr rfl)).2]
  | cons next rest =>
      have hlt := hk.resolve_right (List.cons_ne_nil next rest)
      by_cases hin : k + 1 < takte window cadence
      · rw [(h.weiter (.inl ((mul_le_iff_lt_takte hcadence hwindow _).mpr hin))).2]
        exact iff_of_false Bool.false_ne_true fun hlast => by omega
      · have hbehind : window.2 - window.1 < (k + 1 : ℕ) * cadence := by
          rw [← not_le, mul_le_iff_lt_takte hcadence hwindow]
          exact hin
        exact iff_of_true (h.neuerTag hbehind).2 ⟨by omega, List.cons_ne_nil next rest⟩

/-- A clock that was given days is on each of them once, in their order and for the same
number of steps, and announces each but the first; it is open until the last window is over
and closed from then on. -/
theorem uhr_lauf (start : ℤ) (days : List ℤ) (k : ℕ) (hdays : days ≠ []) (hcadence : 0 < cadence)
    (hwindow : window.1 ≤ window.2) :
    let c := ((SimClock.neu start window cadence).setTradingDays (some days)).nach k
    let m := takte window cadence
    let i := min (k / m) ((replayDays days).length - 1)
    (∃ d, (replayDays days)[i]? = some d ∧
        c.currentTime = combine d window.1 + (k - i * m : ℕ) * cadence) ∧
      c.daysCompleted = i + 1 ∧
      (c.isOpen = true ↔ k < (replayDays days).length * m) ∧
      (c.advance.2 = true ↔ m ∣ k + 1 ∧ k + 1 < (replayDays days).length * m) := by
  intro c m i
  obtain ⟨i', d, r, hi, hilt, hd, hr, hcase, hsteht⟩ :=
    steht_nach start days k hdays hcadence hwindow
  obtain rfl : i' = i := hi
  replace hr : k = i * m + r := hr
  replace hcase : r < m ∨ i + 1 = (replayDays days).length := hcase
  have hle : (i + 1) * m ≤ (replayDays days).length * m := Nat.mul_le_mul_right m hilt
  rw [Nat.add_one_mul] at hle
  refine ⟨⟨d, hd, ?_⟩, ?_, ?_, ?_⟩
  · rw [hsteht.jetzt, show k - i * m = r by omega]
  · rw [hsteht.fertig, add_comm]
  · rw [hsteht.isOpen_iff hcadence hwindow]
    show r < m ↔ _
    constructor
    · intro hlt
      omega
    · intro hlt
      rcases hcase with hrm | hlast
      · exact hrm
      · rw [← hlast, Nat.add_one_mul] at hlt
        omega
  · have hmore : (replayDays days).drop (i + 1) ≠ [] ↔ i + 1 < (replayDays days).length := by
      rw [ne_eq, List.drop_eq_nil_iff, not_le]
    rw [hsteht.advance_iff hcadence hwindow
      (hcase.imp id fun h => List.drop_eq_nil_of_le h.ge), hmore]
    have hdvd : m ∣ k + 1 ↔ m ∣ r + 1 := by
      rw [hr, add_assoc]
      exact Nat.dvd_add_right (Nat.dvd_mul_left m i)
    rw [hdvd]
    constructor
    · rintro ⟨hrm, hlt⟩
      have hnext : (i + 1 + 1) * m ≤ (replayDays days).length * m := Nat.mul_le_mul_right m hlt
      rw [Nat.add_one_mul (i + 1), Nat.add_one_mul i] at hnext
      replace hrm : r + 1 = m := hrm
      exact ⟨by rw [hrm], by have hm : 0 < m := Nat.succ_pos _; omega⟩
    · rintro ⟨hdiv, hlt⟩
      rcases hcase with hrm | hlast
      · refine ⟨le_antisymm hrm (Nat.le_of_dvd (Nat.succ_pos r) hdiv), ?_⟩
        by_contra hge
        have hlen : i + 1 = (replayDays days).length := by omega
        rw [← hlen, Nat.add_one_mul] at hlt
        have hmr := Nat.le_of_dvd (Nat.succ_pos r) hdiv
        omega
      · rw [← hlast, Nat.add_one_mul] at hlt
        have hmr := Nat.le_of_dvd (Nat.succ_pos r) hdiv
        omega

/-- Two days of three readings each, given out of order and one of them twice. -/
theorem uhr_lauf_zwei :
    let c := ((SimClock.neu 9 (0, 120) 60).setTradingDays (some [5, 4, 5])).nach 4
    (∃ d, (replayDays [5, 4, 5])[1]? = some d ∧ c.currentTime = combine d 0 + 1 * 60) ∧
      c.daysCompleted = 2 ∧ c.isOpen = true := by
  obtain ⟨hday, hdone, hopen, -⟩ := @uhr_lauf (0, 120) 60 9 [5, 4, 5] 4
    (by decide) (by decide) (by decide)
  exact ⟨hday, hdone, hopen.mpr (by decide)⟩

end

end Sim
