import AutonomousEngine.Basis.Calendar
import AutonomousEngine.Basis.Claims
import AutonomousEngine.Basis.Mealy
import Mathlib.Data.List.Sort
import Mathlib.Data.String.Basic

/-!
# Which jump a flow is

A deposit reaches the equity days after it was booked.  So the engine looks near its date for
the point whose step is closest to it, and what one flow claims of a step is not there for the
next one.

What is left of a step may change its sign, for a flow may be twice as large.  Then a flow of
the other sign may claim the rest, and it lands on a step that goes against it.  Nothing else
goes wrong (`settled_iff`).
-/

namespace PerfMetrics

open Basis

/-- A point of the curve. -/
structure EquityPoint where
  date : String
  equity : ℚ

/-- An item of `cf_by_date`. -/
structure Cashflow where
  date : String
  amount : ℚ
deriving DecidableEq

def flowJumpLagDays : ℕ := 4

def flowJumpMinStepFraction : ℚ := 1 / 2

/-- `str(v)[:10]`. -/
def datePart (v : String) : String := String.ofList (v.toList.take 10)

/-- The flows in the order in which they claim. -/
def activityOrder (flows : List Cashflow) : List Cashflow :=
  flows.insertionSort fun f g => datePart f.date ≤ datePart g.date

/-- `out` and `remaining`, by the index of the point. -/
structure Alignment where
  out : ℕ → ℚ
  remaining : ℕ → ℚ

-- What `date.fromisoformat` reads beside `yyyy-mm-dd` differs between the releases of Python.
variable (fromisoformat : String → Option Date) (points : List EquityPoint) (lagDays : ℕ)

def iso (v : String) : Option Date := fromisoformat (datePart v)

def equityAt (i : ℕ) : ℚ := (points[i]?.map EquityPoint.equity).getD 0

/-- The equity step to a point; there is none to the first. -/
def step : ℕ → ℚ
  | 0 => 0
  | i + 1 => equityAt points (i + 1) - equityAt points i

/-- The date of a point lies within the days allowed around a flow. -/
def Nearby (f : Cashflow) (i : ℕ) : Prop :=
  ∃ p ∈ points[i]?.bind fun p => iso fromisoformat p.date, ∃ d ∈ iso fromisoformat f.date,
    ((p.toordinal : ℤ) - d.toordinal).natAbs ≤ lagDays

instance (f : Cashflow) (i : ℕ) : Decidable (Nearby fromisoformat points lagDays f i) :=
  inferInstanceAs (Decidable (∃ p ∈ points[i]?.bind fun p => iso fromisoformat p.date,
    ∃ d ∈ iso fromisoformat f.date, ((p.toordinal : ℤ) - d.toordinal).natAbs ≤ lagDays))

/-- A point with enough left of its step for a flow. -/
def Candidate (s : Alignment) (f : Cashflow) (i : ℕ) : Prop :=
  Nearby fromisoformat points lagDays f i ∧ (0 < f.amount ↔ 0 < s.remaining i) ∧
    flowJumpMinStepFraction * |f.amount| ≤ |s.remaining i|

instance (s : Alignment) (f : Cashflow) (i : ℕ) :
    Decidable (Candidate fromisoformat points lagDays s f i) :=
  inferInstanceAs (Decidable (_ ∧ _ ∧ _))

/-- The candidate whose step is closest to the flow, the earliest one of several. -/
def best (s : Alignment) (f : Cashflow) : Option ℕ :=
  ((List.range' 1 (points.length - 1)).filter fun i =>
    Candidate fromisoformat points lagDays s f i).argmin fun i => |s.remaining i - f.amount|

def Alignment.attach (s : Alignment) (f : Cashflow) (i : ℕ) : Alignment where
  out := Function.update s.out i (s.out i + f.amount)
  remaining := Function.update s.remaining i (s.remaining i - f.amount)

/-- The turn of a flow.  It answers with the point that the flow lands on. -/
def turn (s : Alignment) (f : Cashflow) : Alignment × Option ℕ :=
  if f.amount = 0 ∨ iso fromisoformat f.date = none then (s, none)
  else
    match best fromisoformat points lagDays s f with
    | none => (s, none)
    | some i => (s.attach f i, some i)

def Alignment.init : Alignment where
  out := 0
  remaining := step points

/-- The flows in their order, each with the point that it lands on. -/
def attachments (flows : List Cashflow) : List (Cashflow × Option ℕ) :=
  transcript (turn fromisoformat points lagDays) (.init points) (activityOrder flows)

def alignCashflowsToPoints (flows : List Cashflow) : List ℚ :=
  (List.range points.length).map
    (feed (turn fromisoformat points lagDays) (.init points) (activityOrder flows)).1.out

/-! ## What it is for -/

/-- No two flows have the same calendar date. -/
def DistinctDates (flows : List Cashflow) : Prop :=
  (flows.filterMap fun f => iso fromisoformat f.date).Nodup

/-- Every flow lands on a jump that may be its own, as long as there is one. -/
structure Settled (flows : List Cashflow) : Prop where
  /-- The points carry what lands on them, and each flow lands once at most. -/
  out : alignCashflowsToPoints fromisoformat points lagDays flows =
    (List.range points.length).map
      (taken Cashflow.amount (attachments fromisoformat points lagDays flows))
  once : ((attachments fromisoformat points lagDays flows).map Prod.fst).Perm flows
  place : ∀ f i, (f, some i) ∈ attachments fromisoformat points lagDays flows →
    f.amount ≠ 0 ∧ 1 ≤ i ∧ i < points.length ∧ Nearby fromisoformat points lagDays f i
  sign : ∀ f i, (f, some i) ∈ attachments fromisoformat points lagDays flows →
    0 < f.amount * step points i
  bound : ∀ i, sumOver (fun z => z.2 = some i) (fun z => |z.1.amount|)
    (attachments fromisoformat points lagDays flows) ≤ 2 * |step points i|
  /-- A flow that lands nowhere had no point with enough left of its step. -/
  dropped : ∀ vor f nach, attachments fromisoformat points lagDays flows =
    vor ++ (f, none) :: nach → f.amount ≠ 0 → ∀ i, 1 ≤ i → i < points.length →
      Nearby fromisoformat points lagDays f i →
        ¬Fits f.amount (step points i - taken Cashflow.amount vor i)
  /-- The order of the map does not matter. -/
  order : DistinctDates fromisoformat flows → ∀ flows', flows'.Perm flows →
    alignCashflowsToPoints fromisoformat points lagDays flows' =
      alignCashflowsToPoints fromisoformat points lagDays flows

/-- The flows before have claimed more than a step, and its rest has the other sign. -/
def Overdrawn (s : Alignment) (i : ℕ) : Prop := s.remaining i * step points i < 0

/-- A candidate that no other one is closer than, and none before it as close. -/
def Closest (s : Alignment) (f : Cashflow) (i : ℕ) : Prop :=
  1 ≤ i ∧ i < points.length ∧ Candidate fromisoformat points lagDays s f i ∧
    ∀ j, 1 ≤ j → j < points.length → Candidate fromisoformat points lagDays s f j →
      |s.remaining i - f.amount| < |s.remaining j - f.amount| ∨
        |s.remaining i - f.amount| = |s.remaining j - f.amount| ∧ i ≤ j

/-- At its turn no flow finds an overdrawn step the closest. -/
def NoneOverdrawn (flows : List Cashflow) : Prop :=
  Along (turn fromisoformat points lagDays)
    (fun s f => f.amount ≠ 0 → ∀ i, Closest fromisoformat points lagDays s f i →
      ¬Overdrawn points s i)
    (.init points) (activityOrder flows)

/-! ## One turn -/

section

variable {fromisoformat : String → Option Date} {points : List EquityPoint} {lagDays : ℕ}
  {s : Alignment} {f : Cashflow} {i : ℕ}

theorem Nearby.dated (h : Nearby fromisoformat points lagDays f i) :
    iso fromisoformat f.date ≠ none := by
  obtain ⟨-, -, d, hd, -⟩ := h
  exact Option.ne_none_iff_exists'.mpr ⟨d, hd⟩

theorem candidate_iff (hf : f.amount ≠ 0) : Candidate fromisoformat points lagDays s f i ↔
    Nearby fromisoformat points lagDays f i ∧ Fits f.amount (s.remaining i) := by
  refine and_congr_right fun _ => ?_
  rw [flowJumpMinStepFraction]
  constructor
  · rintro ⟨hsign, hsize⟩
    rcases hf.lt_or_gt with hneg | hpos
    · have hrest : s.remaining i ≤ 0 := not_lt.mp fun h => (hsign.mpr h).not_gt hneg
      rw [abs_of_neg hneg, abs_of_nonpos hrest] at hsize
      exact .inr ⟨hneg, by linarith⟩
    · rw [abs_of_pos hpos, abs_of_pos (hsign.mp hpos)] at hsize
      exact .inl ⟨hpos, by linarith⟩
  · rintro (⟨hpos, hle⟩ | ⟨hneg, hle⟩)
    · have hrest : 0 < s.remaining i := by linarith
      rw [abs_of_pos hpos, abs_of_pos hrest]
      exact ⟨iff_of_true hpos hrest, by linarith⟩
    · have hrest : s.remaining i < 0 := by linarith
      rw [abs_of_neg hneg, abs_of_neg hrest]
      exact ⟨iff_of_false hneg.not_gt hrest.not_gt, by linarith⟩

/-- In a list that increases, what stands first is smaller. -/
theorem idxOf_le_idxOf_iff {l : List ℕ} (h : l.Pairwise (· < ·)) {a b : ℕ} (ha : a ∈ l)
    (hb : b ∈ l) : l.idxOf a ≤ l.idxOf b ↔ a ≤ b := by
  have hlt {a b : ℕ} (hb : b ∈ l) (hab : l.idxOf a < l.idxOf b) : a < b := by
    have hbound := List.idxOf_lt_length_of_mem hb
    have hget := List.pairwise_iff_getElem.mp h _ _ (hab.trans hbound) hbound hab
    rwa [List.getElem_idxOf, List.getElem_idxOf] at hget
  constructor
  · intro hle
    rcases hle.lt_or_eq with hidx | hidx
    · exact (hlt hb hidx).le
    · exact ((List.idxOf_inj ha).mp hidx).le
  · exact fun hle => not_lt.mp fun hidx => (hlt ha hidx).not_ge hle

theorem best_eq_some_iff :
    best fromisoformat points lagDays s f = some i ↔
      Closest fromisoformat points lagDays s f i := by
  have hmem (j : ℕ) : (j ∈ (List.range' 1 (points.length - 1)).filter fun i =>
      decide (Candidate fromisoformat points lagDays s f i)) ↔
        1 ≤ j ∧ j < points.length ∧ Candidate fromisoformat points lagDays s f j := by
    rw [List.mem_filter, List.mem_range'_1, decide_eq_true_iff, ← and_assoc]
    exact and_congr_left fun _ => by omega
  have hsorted : ((List.range' 1 (points.length - 1)).filter fun i =>
      decide (Candidate fromisoformat points lagDays s f i)).Pairwise (· < ·) :=
    (List.pairwise_lt_range' 1 Nat.one_pos).filter _
  rw [best, List.argmin_eq_some_iff]
  constructor
  · rintro ⟨hi, hmin, hfirst⟩
    obtain ⟨hpos, hlt, hcand⟩ := (hmem i).mp hi
    refine ⟨hpos, hlt, hcand, fun j hj hjn hjc => ?_⟩
    have hjm := (hmem j).mpr ⟨hj, hjn, hjc⟩
    rcases (hmin j hjm).lt_or_eq with hless | heq
    · exact .inl hless
    · exact .inr ⟨heq, (idxOf_le_idxOf_iff hsorted hi hjm).mp (hfirst j hjm heq.ge)⟩
  · rintro ⟨hpos, hlt, hcand, hclosest⟩
    have hi := (hmem i).mpr ⟨hpos, hlt, hcand⟩
    refine ⟨hi, fun j hjm => ?_, fun j hjm hle => ?_⟩
    · obtain ⟨hj, hjn, hjc⟩ := (hmem j).mp hjm
      rcases hclosest j hj hjn hjc with hless | ⟨heq, -⟩
      · exact hless.le
      · exact heq.le
    · obtain ⟨hj, hjn, hjc⟩ := (hmem j).mp hjm
      rcases hclosest j hj hjn hjc with hless | ⟨-, hij⟩
      · exact absurd hle hless.not_ge
      · exact (idxOf_le_idxOf_iff hsorted hi hjm).mpr hij

theorem turn_eq_some_iff : (turn fromisoformat points lagDays s f).2 = some i ↔
    f.amount ≠ 0 ∧ Closest fromisoformat points lagDays s f i := by
  rw [← best_eq_some_iff, turn]
  split
  next hskip =>
    refine iff_of_false (by simp) ?_
    rintro ⟨hf, hbest⟩
    obtain ⟨-, -, hcand, -⟩ := best_eq_some_iff.mp hbest
    exact hskip.elim hf hcand.1.dated
  next hturn =>
    rw [not_or] at hturn
    rw [and_iff_right hturn.1]
    cases best fromisoformat points lagDays s f with
    | none => rfl
    | some j => rfl

/-- A flow lands nowhere when no point near it has enough left. -/
theorem not_fits_of_turn (h : (turn fromisoformat points lagDays s f).2 = none)
    (hf : f.amount ≠ 0) (hi : 1 ≤ i) (hin : i < points.length)
    (hnear : Nearby fromisoformat points lagDays f i) : ¬Fits f.amount (s.remaining i) := by
  intro hfits
  have hturn : ¬(f.amount = 0 ∨ iso fromisoformat f.date = none) :=
    not_or.mpr ⟨hf, hnear.dated⟩
  have hbest : best fromisoformat points lagDays s f = none := by
    rw [turn, if_neg hturn] at h
    cases hbest : best fromisoformat points lagDays s f with
    | none => rfl
    | some j => rw [hbest] at h; cases h
  rw [best, List.argmin_eq_none, List.filter_eq_nil_iff] at hbest
  refine hbest i (List.mem_range'_1.mpr (by omega)) ?_
  exact decide_eq_true ((candidate_iff hf).mpr ⟨hnear, hfits⟩)

theorem turn_fst : (turn fromisoformat points lagDays s f).1 =
    ((turn fromisoformat points lagDays s f).2.map (s.attach f)).getD s := by
  rw [turn]
  split
  next => rfl
  next => cases best fromisoformat points lagDays s f <;> rfl

theorem turn_out (i : ℕ) : (turn fromisoformat points lagDays s f).1.out i = s.out i +
    if (turn fromisoformat points lagDays s f).2 = some i then f.amount else 0 := by
  rw [turn_fst]
  cases (turn fromisoformat points lagDays s f).2 with
  | none => simp
  | some j =>
      rcases eq_or_ne j i with rfl | hne
      · simp [Alignment.attach]
      · simp [Alignment.attach, hne, hne.symm]

theorem turn_remaining (i : ℕ) :
    (turn fromisoformat points lagDays s f).1.remaining i = s.remaining i -
      if (turn fromisoformat points lagDays s f).2 = some i then f.amount else 0 := by
  rw [turn_fst]
  cases (turn fromisoformat points lagDays s f).2 with
  | none => simp
  | some j =>
      rcases eq_or_ne j i with rfl | hne
      · simp [Alignment.attach]
      · simp [Alignment.attach, hne, hne.symm]

/-! ## A run -/

theorem feed_alignment (fs : List Cashflow) (i : ℕ) :
    (feed (turn fromisoformat points lagDays) s fs).1.out i = s.out i +
        taken Cashflow.amount (transcript (turn fromisoformat points lagDays) s fs) i ∧
      (feed (turn fromisoformat points lagDays) s fs).1.remaining i = s.remaining i -
        taken Cashflow.amount (transcript (turn fromisoformat points lagDays) s fs) i := by
  induction fs generalizing s with
  | nil => simp
  | cons f fs ih =>
      obtain ⟨hout, hrest⟩ := ih (s := (turn fromisoformat points lagDays s f).1)
      rw [feed_cons, transcript_cons, taken_cons]
      constructor
      · rw [hout, turn_out, add_assoc]
      · rw [hrest, turn_remaining, sub_sub]

theorem init_out (fs : List Cashflow) (i : ℕ) :
    (feed (turn fromisoformat points lagDays) (.init points) fs).1.out i =
      taken Cashflow.amount (transcript (turn fromisoformat points lagDays) (.init points) fs) i := by
  rw [(feed_alignment fs i).1]
  exact zero_add _

theorem init_remaining (fs : List Cashflow) (i : ℕ) :
    (feed (turn fromisoformat points lagDays) (.init points) fs).1.remaining i = step points i -
      taken Cashflow.amount (transcript (turn fromisoformat points lagDays) (.init points) fs) i :=
  (feed_alignment fs i).2

theorem allFit_transcript (fs : List Cashflow) : AllFit Cashflow.amount (step points)
    (transcript (turn fromisoformat points lagDays) (.init points) fs) := by
  intro vor f i nach hsplit
  obtain ⟨before, after, rfl, rfl, hturn⟩ := transcript_eq_append _ _ hsplit
  obtain ⟨hf, -, -, hcand, -⟩ := turn_eq_some_iff.mp hturn.symm
  rw [← init_remaining]
  exact ((candidate_iff hf).mp hcand).2

theorem mem_attachments {flows : List Cashflow} :
    (f, some i) ∈ attachments fromisoformat points lagDays flows ↔
      ∃ before after, activityOrder flows = before ++ f :: after ∧ f.amount ≠ 0 ∧
        Closest fromisoformat points lagDays
          (feed (turn fromisoformat points lagDays) (.init points) before).1 f i := by
  constructor
  · intro hmem
    obtain ⟨vor, nach, hsplit⟩ := List.append_of_mem hmem
    obtain ⟨before, after, horder, -, hturn⟩ := transcript_eq_append _ _ hsplit
    exact ⟨before, after, horder, turn_eq_some_iff.mp hturn.symm⟩
  · rintro ⟨before, after, horder, hclosest⟩
    rw [attachments, horder, transcript_append, transcript_cons,
      turn_eq_some_iff.mpr hclosest]
    exact List.mem_append_right _ (.head _)

/-- A flow lands on a step of its sign when the step is not overdrawn. -/
theorem Closest.sign_iff {before : List Cashflow} (hf : f.amount ≠ 0)
    (h : Closest fromisoformat points lagDays
      (feed (turn fromisoformat points lagDays) (.init points) before).1 f i) :
    0 < f.amount * step points i ↔
      ¬Overdrawn points (feed (turn fromisoformat points lagDays) (.init points) before).1 i := by
  have hsize : |(feed (turn fromisoformat points lagDays) (.init points) before).1.remaining i| ≤
      |step points i| := by
    rw [init_remaining]
    exact (allFit_transcript before).abs_left_le i
  exact ((candidate_iff hf).mp h.2.2.1).2.pos_mul_iff hsize

/-- Every flow lands on a step of its sign exactly when none finds an overdrawn one. -/
theorem sign_iff (flows : List Cashflow) :
    (∀ f i, (f, some i) ∈ attachments fromisoformat points lagDays flows →
      0 < f.amount * step points i) ↔
      NoneOverdrawn fromisoformat points lagDays flows := by
  rw [NoneOverdrawn, along_iff_append]
  constructor
  · intro h vor f nach horder hf i hclosest
    exact (hclosest.sign_iff hf).mp (h f i (mem_attachments.mpr ⟨vor, nach, horder, hf, hclosest⟩))
  · intro h f i hmem
    obtain ⟨before, after, horder, hf, hclosest⟩ := mem_attachments.mp hmem
    exact (hclosest.sign_iff hf).mpr (h before f after horder hf i hclosest)

/-! ## The order of the map -/

instance : Std.Total fun f g : Cashflow => datePart f.date ≤ datePart g.date where
  total _ _ := le_total _ _

instance : IsTrans Cashflow fun f g => datePart f.date ≤ datePart g.date where
  trans _ _ _ := le_trans

/-- Flows with distinct dates claim in one order, wherever they stand in the map. -/
theorem activityOrder_dated {flows flows' : List Cashflow}
    (h : DistinctDates fromisoformat flows) (hperm : flows'.Perm flows) :
    (activityOrder flows').filter (fun f => (iso fromisoformat f.date).isSome) =
      (activityOrder flows).filter fun f => (iso fromisoformat f.date).isSome := by
  have hflows : (activityOrder flows').Perm (activityOrder flows) :=
    ((List.perm_insertionSort _ _).trans hperm).trans (List.perm_insertionSort _ _).symm
  refine List.Perm.eq_of_pairwise ?_ ((List.pairwise_insertionSort _ flows').filter _)
    ((List.pairwise_insertionSort _ flows).filter _) (hflows.filter _)
  intro f g hf hg hfg hgf
  obtain ⟨hf, hdated⟩ := List.mem_filter.mp hf
  obtain ⟨hg, -⟩ := List.mem_filter.mp hg
  obtain ⟨d, hd⟩ := Option.isSome_iff_exists.mp hdated
  have hpart : datePart g.date = datePart f.date := le_antisymm hgf hfg
  have hsame : iso fromisoformat g.date = some d := by
    rw [← hd, iso, iso, hpart]
  have hmem {x : Cashflow} (hx : x ∈ activityOrder flows) : x ∈ flows :=
    (List.perm_insertionSort _ _).subset hx
  exact eq_of_nodup_filterMap h (hmem (hflows.subset hf)) (hmem hg) hd hsame

theorem turn_undated (h : (iso fromisoformat f.date).isSome = false) :
    (turn fromisoformat points lagDays s f).1 = s := by
  have hnone : iso fromisoformat f.date = none := Option.not_isSome_iff_eq_none.mp (by simp [h])
  rw [turn, if_pos (.inr hnone)]

theorem align_perm {flows flows' : List Cashflow} (h : DistinctDates fromisoformat flows)
    (hperm : flows'.Perm flows) :
    alignCashflowsToPoints fromisoformat points lagDays flows' =
      alignCashflowsToPoints fromisoformat points lagDays flows := by
  have hskip (fs : List Cashflow) :
      (feed (turn fromisoformat points lagDays) (.init points)
        (fs.filter fun f => (iso fromisoformat f.date).isSome)).1 =
          (feed (turn fromisoformat points lagDays) (.init points) fs).1 :=
    feed_filter (fun _ _ => turn_undated) fs
  rw [alignCashflowsToPoints, alignCashflowsToPoints, ← hskip, activityOrder_dated h hperm, hskip]

end

/-- The flows land as they should exactly when, at its turn, none finds an overdrawn step the
closest. -/
theorem settled_iff (flows : List Cashflow) :
    Settled fromisoformat points lagDays flows ↔
      NoneOverdrawn fromisoformat points lagDays flows := by
  rw [← sign_iff]
  refine ⟨Settled.sign, fun hsign => ?_⟩
  constructor
  case out =>
    exact List.map_congr_left fun i _ => init_out _ i
  case once =>
    rw [attachments, map_fst_transcript]
    exact List.perm_insertionSort _ _
  case place =>
    intro f i hmem
    obtain ⟨_, _, -, hf, hpos, hlt, hcand, -⟩ := mem_attachments.mp hmem
    exact ⟨hf, hpos, hlt, hcand.1⟩
  case sign => exact hsign
  case bound =>
    intro i
    refine (allFit_transcript _).sum_abs_le fun z hz hplace => ?_
    refine hsign z.1 i ?_
    rw [← hplace]
    exact hz
  case dropped =>
    intro vor f nach hsplit hf i hi hin hnear
    obtain ⟨before, after, -, rfl, hturn⟩ := transcript_eq_append _ _ hsplit
    have hnot := not_fits_of_turn hturn.symm hf hi hin hnear
    rwa [init_remaining] at hnot
  case order => exact fun h flows' => align_perm h

/-! A curve that rises by 100 once, a deposit of 150 and a withdrawal of 60 the day after. -/

def oneJump : List EquityPoint := [⟨"2026-08-24", 1000⟩, ⟨"2026-08-25", 1100⟩]

def depositThenWithdrawal : List Cashflow := [⟨"2026-08-24", 150⟩, ⟨"2026-08-25", -60⟩]

theorem attachments_depositThenWithdrawal :
    (⟨"2026-08-25", -60⟩, some 1) ∈
      attachments Date.fromisoformat oneJump flowJumpLagDays depositThenWithdrawal := by
  decide +kernel

/-- The withdrawal lands on the rise. -/
theorem not_settled_depositThenWithdrawal :
    ¬Settled Date.fromisoformat oneJump flowJumpLagDays depositThenWithdrawal := by
  intro h
  have hsign := h.sign _ _ attachments_depositThenWithdrawal
  have hstep : step oneJump 1 = 100 := by norm_num [step, equityAt, oneJump]
  rw [hstep] at hsign
  norm_num at hsign

end PerfMetrics
