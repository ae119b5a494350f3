import AutonomousEngine.RoundTable.Konsens

/-!
# Aggregating the same votes again

The votes are objects, and after the consensus is formed they are logged, reviewed and
written to the audit.  Without the regime conditioner `aggregate` halves the weights of
the momentum votes in them when the regime is bearish, so whoever reads them afterwards
reads other weights, and aggregating them again halves once more.
-/

namespace RoundTable

open Basis

/-- `aggregate` with its effect: the consensus, and the votes after it. -/
def aggregiert (c : KonsensCfg) (votes : List Vote) : ExtRat × List Vote :=
  (aggregate c votes, konditioniert c votes)

/-- The votes after so many aggregations. -/
def nach (c : KonsensCfg) (n : ℕ) (votes : List Vote) : List Vote :=
  (fun votes => (aggregiert c votes).2)^[n] votes

/-- However often the votes are aggregated, they are what they were, and so is the
consensus. -/
def Unverbraucht (c : KonsensCfg) (votes : List Vote) : Prop :=
  ∀ n, nach c n votes = votes ∧ (aggregiert c (nach c n votes)).1 = (aggregiert c votes).1

/-- A validated momentum vote whose weight is a number. -/
def Gewogen (c : KonsensCfg) (v : Vote) : Prop :=
  v.vetoed = false ∧ validateVote c v = true ∧ v.agentName = "MomentumAgent" ∧
    ∃ w, v.weight = .of w

section

variable {c : KonsensCfg} {votes : List Vote}

theorem map_eq_self_iff {α : Type} {f : α → α} {l : List α} :
    l.map f = l ↔ ∀ a ∈ l, f a = a := by
  induction l with
  | nil => simp
  | cons a l ih => rw [List.map_cons, List.cons.injEq, ih, List.forall_mem_cons]

/-- Half a weight is the weight only beside the numbers. -/
theorem mul_half_eq_self_iff {w : ExtRat} (h : w ≠ 0) :
    w * .of (1 / 2) = w ↔ ∀ q, w ≠ .of q := by
  have hsign : (ExtRat.of (1 / 2)).sign = 1 := sign_pos (by norm_num)
  cases w with
  | nan => simp
  | negInf =>
      refine iff_of_true ?_ (by simp)
      show ExtRat.infOfSign (ExtRat.negInf.sign * (ExtRat.of (1 / 2)).sign) = .negInf
      rw [hsign]
      rfl
  | posInf =>
      refine iff_of_true ?_ (by simp)
      show ExtRat.infOfSign (ExtRat.posInf.sign * (ExtRat.of (1 / 2)).sign) = .posInf
      rw [hsign]
      rfl
  | of q =>
      refine iff_of_false ?_ fun hne => hne q rfl
      rw [ExtRat.of_mul_of, ExtRat.of.injEq]
      intro heq
      have hq : q = 0 := by linarith
      exact h (by rw [hq]; rfl)

theorem weight_ne_zero {v : Vote} (hv : v.vetoed = false) (h : validateVote c v = true) :
    v.weight ≠ 0 := by
  intro hw
  unfold validateVote at h
  cases hm : v.meinung with
  | score s =>
      rw [hm] at h
      simp only [if_pos (And.intro hw hv)] at h
      cases h
  | enthalten r =>
      rw [hm] at h
      cases h

theorem halbiert_eq_self_iff {v : Vote} : v.halbiert c = v ↔ ¬Gewogen c v := by
  unfold Vote.halbiert
  split
  next h =>
    simp only [Bool.and_eq_true, Bool.not_eq_true', beq_iff_eq] at h
    obtain ⟨⟨hveto, hvalid⟩, hname⟩ := h
    have hweight : { v with weight := v.weight * .of (1 / 2) } = v ↔
        v.weight * .of (1 / 2) = v.weight := by
      constructor
      · exact congrArg Vote.weight
      · intro heq
        rw [heq]
    rw [hweight, mul_half_eq_self_iff (weight_ne_zero hveto hvalid)]
    constructor
    · rintro hne ⟨-, -, -, w, hw⟩
      exact hne w hw
    · intro hnot q hq
      exact hnot ⟨hveto, hvalid, hname, q, hq⟩
  next h =>
    refine iff_of_true rfl fun hg => h ?_
    obtain ⟨hveto, hvalid, hname, -⟩ := hg
    simp [hveto, hvalid, hname]

theorem konditioniert_eq_self_iff : konditioniert c votes = votes ↔
    momentumHalbiert c votes = false ∨ ∀ v ∈ votes, ¬Gewogen c v := by
  unfold konditioniert
  cases h : momentumHalbiert c votes with
  | false => simp
  | true => simp [map_eq_self_iff, halbiert_eq_self_iff]

/-- Votes are not used up exactly when the conditioner is on, no vote says that the regime
is bearish, or no momentum vote that counts has a number for its weight. -/
theorem unverbraucht_iff (c : KonsensCfg) (votes : List Vote) : Unverbraucht c votes ↔
    c.regimeConditionerEnabled = true ∨
      (∀ r, regimeVote c votes = some r → ¬r.score < .of (45 / 100)) ∨
      ∀ v ∈ votes, ¬Gewogen c v := by
  have hflag : momentumHalbiert c votes = false ↔ c.regimeConditionerEnabled = true ∨
      ∀ r, regimeVote c votes = some r → ¬r.score < .of (45 / 100) := by
    unfold momentumHalbiert
    rw [Bool.and_eq_false_iff, Bool.not_eq_false']
    cases regimeVote c votes with
    | none => simp
    | some r => simp
  have hfest : Unverbraucht c votes ↔ konditioniert c votes = votes := by
    constructor
    · intro h
      exact (h 1).1
    · intro h n
      have hn : nach c n votes = votes := Function.iterate_fixed h n
      exact ⟨hn, by rw [hn]⟩
  rw [hfest, konditioniert_eq_self_iff, hflag, or_assoc]

end

/-- The configuration without the conditioner. -/
def ohneKonditionierer : KonsensCfg where
  validator := none
  regimeConditionerEnabled := false
  regimeRiskoffDampMax := .of (1 / 2)
  impliedVolForecastEnabled := false

/-- A bearish regime, a momentum vote and another one. -/
def baerenmarkt : List Vote :=
  [⟨"RegimeDetectionAgent", .score (.of (1 / 5)), .of 1, false, ""⟩,
    ⟨"MomentumAgent", .score (.of (9 / 10)), .of 1, false, ""⟩,
    ⟨"NewsAgent", .score (.of (1 / 10)), .of 1, false, ""⟩]

/-- The second consensus of the same votes is another one. -/
theorem not_unverbraucht_baerenmarkt :
    ¬∀ (c : KonsensCfg) (votes : List Vote), Unverbraucht c votes := by
  intro h
  have hzweimal := (h ohneKonditionierer baerenmarkt 1).2
  have handers : (aggregiert ohneKonditionierer (nach ohneKonditionierer 1 baerenmarkt)).1 ≠
      (aggregiert ohneKonditionierer baerenmarkt).1 := by decide +kernel
  exact handers hzweimal

end RoundTable
