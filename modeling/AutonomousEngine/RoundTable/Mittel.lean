import AutonomousEngine.RoundTable.Konsens
import AutonomousEngine.Basis.Means

/-!
# The mean of the votes

What the consensus owes the votes when the regime conditioner is on.  Before damping
it is the weighted mean of the votes that count (`mittel`), which lies between the
smallest and the largest of their scores, does not depend on the order of the votes
and sees no other vote.  The damping moves a consensus to buy towards the middle, the
more so the worse the regime is (`schwere`).

Of several votes of the regime agent the first one damps, so the consensus depends on
the order of votes of which two are of the regime agent.
-/

namespace RoundTable

open Basis

/-! ## Before damping -/

def mittel (c : KonsensCfg) (votes : List Vote) : ExtRat :=
  ((activeVotes c votes).map fun v => v.score * v.weight).sum /
    ((activeVotes c votes).map (·.weight)).sum

def schwere (c : KonsensCfg) (votes : List Vote) : ExtRat :=
  match regimeVote c votes with
  | some r => ExtRat.pyMax 0 (ExtRat.pyMin (.of 1) ((.of (1 / 2) - r.score) / .of (1 / 2)))
  | none => 0

/-- Whether a vote is in the mean when the conditioner is on. -/
def zaehlt (c : KonsensCfg) (v : Vote) : Bool := !v.vetoed && validateVote c v && imMittel c v

def daempft (c : KonsensCfg) (v : Vote) : Bool :=
  !v.vetoed && validateVote c v && v.agentName == "RegimeDetectionAgent"

section

variable {c : KonsensCfg}

theorem activeVotes_filter (h : c.regimeConditionerEnabled = true) (votes : List Vote) :
    activeVotes c votes = votes.filter (zaehlt c) := by
  have hhalf : momentumHalbiert c votes = false := by
    rw [momentumHalbiert, h]
    rfl
  rw [activeVotes_eq, hhalf, validatedVotes, List.filter_filter]
  exact List.filter_congr fun v _ => Bool.and_comm _ _

theorem regimeVote_eq_find (votes : List Vote) :
    regimeVote c votes = votes.find? (daempft c) := by
  rw [regimeVote, validatedVotes, List.find?_filter]
  refine congrArg votes.find? (funext fun v => ?_)
  rw [daempft, Bool.decide_and, Bool.decide_eq_true, Bool.decide_eq_true]

/-! ## Numbers -/

def zahl : ExtRat → ℚ
  | .of q => q
  | _ => 0

/-- A vote in exact arithmetic. -/
structure Vote.Genau (v : Vote) : Prop where
  weight : ∃ w, v.weight = .of w
  score : ∃ s, v.score = .of s

def Vote.paar (v : Vote) : ℚ × ℚ := (zahl v.score, zahl v.weight)

theorem Vote.Genau.score_eq {v : Vote} (h : v.Genau) : v.score = .of v.paar.1 := by
  obtain ⟨s, hs⟩ := h.score
  rw [Vote.paar, hs]
  rfl

theorem Vote.Genau.weight_eq {v : Vote} (h : v.Genau) : v.weight = .of v.paar.2 := by
  obtain ⟨w, hw⟩ := h.weight
  rw [Vote.paar, hw]
  rfl

theorem sum_map_of {f : Vote → ExtRat} {g : Vote → ℚ} {votes : List Vote}
    (h : ∀ v ∈ votes, f v = .of (g v)) : (votes.map f).sum = .of (votes.map g).sum := by
  induction votes with
  | nil => rfl
  | cons v votes ih =>
      rw [List.map_cons, List.sum_cons, List.map_cons, List.sum_cons, h v (.head _),
        ih fun u hu => h u (.tail _ hu), ExtRat.of_add_of]

theorem sum_scores {votes : List Vote} (h : ∀ v ∈ votes, v.Genau) :
    (votes.map fun v => v.score * v.weight).sum = .of (weightedSum (votes.map Vote.paar)) := by
  rw [weightedSum, List.map_map]
  refine sum_map_of fun v hv => ?_
  rw [(h v hv).score_eq, (h v hv).weight_eq, ExtRat.of_mul_of]
  rfl

theorem sum_weights {votes : List Vote} (h : ∀ v ∈ votes, v.Genau) :
    (votes.map (·.weight)).sum = .of (weightSum (votes.map Vote.paar)) := by
  rw [weightSum, List.map_map]
  exact sum_map_of fun v hv => (h v hv).weight_eq

variable {votes : List Vote}

theorem genau_active (hc : c.regimeConditionerEnabled = true) (h : ∀ v ∈ votes, v.Genau) :
    ∀ v ∈ activeVotes c votes, v.Genau := by
  intro v hv
  rw [activeVotes_filter hc] at hv
  exact h v (List.mem_of_mem_filter hv)

theorem weight_pos_of_active (hc : c.regimeConditionerEnabled = true)
    (h : ∀ v ∈ votes, v.Genau) : ∀ p ∈ (activeVotes c votes).map Vote.paar, 0 < p.2 := by
  intro p hp
  obtain ⟨v, hv, rfl⟩ := List.mem_map.mp hp
  have hgenau := genau_active hc h v hv
  rw [activeVotes_filter hc] at hv
  have hzaehlt := (List.mem_filter.mp hv).2
  rw [zaehlt, imMittel, Bool.and_eq_true, Bool.and_eq_true, Bool.and_eq_true,
    decide_eq_true_eq, hgenau.weight_eq, ExtRat.zero_lt_of] at hzaehlt
  exact hzaehlt.2.2

/-- The mean of the active votes, as a number. -/
def mittelwert (c : KonsensCfg) (votes : List Vote) : ℚ :=
  weightedMean ((activeVotes c votes).map Vote.paar)

theorem mittel_eq (hc : c.regimeConditionerEnabled = true) (h : ∀ v ∈ votes, v.Genau) :
    mittel c votes = .of (mittelwert c votes) := by
  have hgenau := genau_active hc h
  rw [mittel, sum_scores hgenau, sum_weights hgenau, ExtRat.of_div_of]
  rfl

/-! ## After damping -/

theorem mem_of_regimeVote {r : Vote} (h : regimeVote c votes = some r) : r ∈ votes := by
  rw [regimeVote_eq_find] at h
  exact List.mem_of_find?_eq_some h

/-- The severity is a number between zero and one. -/
theorem exists_schwere (h : ∀ v ∈ votes, v.Genau) :
    ∃ s : ℚ, schwere c votes = .of s ∧ 0 ≤ s ∧ s ≤ 1 := by
  cases hr : regimeVote c votes with
  | none =>
      refine ⟨0, ?_, le_rfl, zero_le_one⟩
      rw [schwere, hr]
      rfl
  | some r =>
      refine ⟨max 0 (min 1 ((1 / 2 - r.paar.1) / (1 / 2))), ?_, le_max_left _ _,
        max_le zero_le_one (min_le_left _ _)⟩
      rw [schwere, hr]
      dsimp only
      rw [(h r (mem_of_regimeVote hr)).score_eq, ExtRat.of_sub_of, ExtRat.of_div_of,
        ExtRat.pyMin_of_of, ExtRat.zero_def, ExtRat.pyMax_of_of]

theorem dampFactor_eq (hc : c.regimeConditionerEnabled = true) (votes : List Vote) :
    dampFactor c votes = if 0 < schwere c votes then
      some (.of 1 - c.regimeRiskoffDampMax * schwere c votes) else none := by
  rw [dampFactor, if_pos hc, schwere]
  cases regimeVote c votes with
  | none => rfl
  | some r => rfl

/-- The consensus is the mean, shrunk. -/
theorem aggregate_eq {d s : ℚ} (hc : c.regimeConditionerEnabled = true)
    (hd : c.regimeRiskoffDampMax = .of d) (h : ∀ v ∈ votes, v.Genau)
    (hne : activeVotes c votes ≠ []) (hs : schwere c votes = .of s) (hs0 : 0 ≤ s) :
    aggregate c votes = .of (shrink (1 / 2) (1 - d * s) (mittelwert c votes)) := by
  have hpos : 0 < weightSum ((activeVotes c votes).map Vote.paar) :=
    weightSum_pos (weight_pos_of_active hc h) fun hnil => hne (List.map_eq_nil_iff.mp hnil)
  have hweights := sum_weights (genau_active hc h)
  have hmean := mittel_eq hc h
  rw [mittel] at hmean
  rw [aggregate, if_neg (by rw [List.isEmpty_iff]; exact hne), if_neg, dampFactor_eq hc, hs, hd]
  · dsimp only
    rw [hmean]
    rcases hs0.eq_or_lt with rfl | hlt
    · rw [if_neg (by rw [ExtRat.zero_lt_of]; exact lt_irrefl _), mul_zero, sub_zero, shrink_one]
    · rw [if_pos (ExtRat.zero_lt_of.mpr hlt)]
      dsimp only
      rw [ExtRat.of_mul_of, ExtRat.of_sub_of, ExtRat.of_sub_of, ExtRat.of_mul_of, ExtRat.of_add_of,
        shrink]
      split
      next hmid => rw [if_pos (ExtRat.of_lt_of.mp hmid)]
      next hmid => rw [if_neg fun hlt => hmid (ExtRat.of_lt_of.mpr hlt)]
  · rw [hweights, ExtRat.of_le_zero]
    exact not_le.mpr hpos

/-! ## What the consensus depends on -/

/-- The consensus sees the active votes, in no order, and the severity. -/
theorem aggregate_congr {votes' : List Vote} (hc : c.regimeConditionerEnabled = true)
    (h : (activeVotes c votes).Perm (activeVotes c votes'))
    (hs : schwere c votes = schwere c votes') : aggregate c votes = aggregate c votes' := by
  rw [aggregate, aggregate, h.isEmpty_eq, (h.map _).sum_eq, (h.map _).sum_eq, dampFactor_eq hc,
    dampFactor_eq hc, hs]

theorem mittel_congr {votes' : List Vote} (h : (activeVotes c votes).Perm (activeVotes c votes')) :
    mittel c votes = mittel c votes' := by
  rw [mittel, mittel, (h.map _).sum_eq, (h.map _).sum_eq]

theorem activeVotes_perm {votes' : List Vote} (hc : c.regimeConditionerEnabled = true)
    (h : votes.Perm votes') : (activeVotes c votes).Perm (activeVotes c votes') := by
  rw [activeVotes_filter hc, activeVotes_filter hc]
  exact h.filter _

theorem schwere_congr {votes' : List Vote}
    (h : (regimeVote c votes).map Vote.score = (regimeVote c votes').map Vote.score) :
    schwere c votes = schwere c votes' := by
  rw [schwere, schwere]
  cases hr : regimeVote c votes with
  | none =>
      rw [hr, Option.map_none] at h
      rw [Option.map_eq_none_iff.mp h.symm]
  | some r =>
      rw [hr, Option.map_some] at h
      obtain ⟨r', hr', hscore⟩ := Option.map_eq_some_iff.mp h.symm
      rw [hr']
      dsimp only
      rw [hscore]

/-- The order does not matter to the severity when the votes that damp agree. -/
theorem schwere_perm {votes' : List Vote} (h : votes.Perm votes')
    (hsame : ∀ v ∈ votes, ∀ w ∈ votes, daempft c v = true → daempft c w = true →
      v.score = w.score) : schwere c votes = schwere c votes' := by
  refine schwere_congr ?_
  rw [regimeVote_eq_find, regimeVote_eq_find]
  cases hr : votes.find? (daempft c) with
  | none =>
      have hnone : votes'.find? (daempft c) = none := by
        rw [List.find?_eq_none] at hr ⊢
        exact fun v hv => hr v (h.mem_iff.mpr hv)
      rw [hnone]
  | some r =>
      cases hr' : votes'.find? (daempft c) with
      | none =>
          rw [List.find?_eq_none] at hr'
          exact absurd (List.find?_some hr)
            (hr' r (h.mem_iff.mp (List.mem_of_find?_eq_some hr)))
      | some r' =>
          have hscore := hsame r (List.mem_of_find?_eq_some hr) r'
            (h.mem_iff.mpr (List.mem_of_find?_eq_some hr')) (List.find?_some hr)
            (List.find?_some hr')
          rw [Option.map_some, Option.map_some, hscore]

theorem activeVotes_ohne {v : Vote} (hc : c.regimeConditionerEnabled = true)
    (hv : zaehlt c v = false) (vor nach : List Vote) :
    activeVotes c (vor ++ v :: nach) = activeVotes c (vor ++ nach) := by
  rw [activeVotes_filter hc, activeVotes_filter hc, List.filter_append, List.filter_append,
    List.filter_cons_of_neg (by rw [hv]; exact Bool.false_ne_true)]

theorem regimeVote_ohne {v : Vote} (hv : daempft c v = false) (vor nach : List Vote) :
    regimeVote c (vor ++ v :: nach) = regimeVote c (vor ++ nach) := by
  rw [regimeVote_eq_find, regimeVote_eq_find, List.find?_append, List.find?_append,
    List.find?_cons_of_neg (by rw [hv]; exact Bool.false_ne_true)]

theorem schwere_ohne {v v' : Vote} (hv : daempft c v = false) (hv' : daempft c v' = false)
    (vor nach : List Vote) : schwere c (vor ++ v :: nach) = schwere c (vor ++ v' :: nach) := by
  rw [schwere, schwere, regimeVote_ohne hv, regimeVote_ohne hv']

/-- A vote in the mean is not of the regime agent. -/
theorem daempft_of_zaehlt {v : Vote} (hv : zaehlt c v = true) : daempft c v = false := by
  have hname : v.agentName ∉ consensusExclusions c.impliedVolForecastEnabled := by
    intro hmem
    rw [zaehlt, imMittel_eq_false_iff.mpr (.inl hmem), Bool.and_false] at hv
    cases hv
  have hregime : "RegimeDetectionAgent" ∈ consensusExclusions c.impliedVolForecastEnabled := by
    cases c.impliedVolForecastEnabled with
    | false => decide
    | true => decide
  have hne : (v.agentName == "RegimeDetectionAgent") = false := by
    rw [beq_eq_false_iff_ne]
    rintro heq
    exact hname (heq ▸ hregime)
  rw [daempft, hne, Bool.and_false]

/-! ## The laws -/

/-- A vote that does not count: vetoed, without opinion or invalid, or of an agent that
is not in the mean. -/
def Aussen (c : KonsensCfg) (v : Vote) : Prop :=
  v.vetoed = true ∨ validateVote c v = false ∨
    v.agentName ∈ consensusExclusions c.impliedVolForecastEnabled

theorem zaehlt_of_aussen {v : Vote} (h : Aussen c v) : zaehlt c v = false := by
  rcases h with hveto | hinvalid | hname
  · rw [zaehlt, hveto]
    rfl
  · rw [zaehlt, hinvalid, Bool.and_false, Bool.false_and]
  · rw [zaehlt, imMittel_eq_false_iff.mpr (.inl hname), Bool.and_false]

/-- Whether the damping is a part of what it damps. -/
def TeilDaempfung (c : KonsensCfg) : Prop :=
  0 ≤ c.regimeRiskoffDampMax ∧ c.regimeRiskoffDampMax ≤ .of 1

theorem TeilDaempfung.exists_of (h : TeilDaempfung c) :
    ∃ d : ℚ, c.regimeRiskoffDampMax = .of d ∧ 0 ≤ d ∧ d ≤ 1 := by
  obtain ⟨h0, h1⟩ := h
  cases hd : c.regimeRiskoffDampMax with
  | of d =>
      rw [hd] at h0 h1
      exact ⟨d, rfl, ExtRat.of_le_of.mp h0, ExtRat.of_le_of.mp h1⟩
  | nan =>
      rw [hd] at h0
      exact absurd h0 (ExtRat.not_le_nan 0)
  | posInf =>
      rw [hd] at h1
      cases h1
  | negInf =>
      rw [hd] at h0
      cases h0

/-- The consensus is the mean, shrunk by a factor between zero and one. -/
theorem exists_factor (hc : c.regimeConditionerEnabled = true) (hd : TeilDaempfung c)
    (h : ∀ v ∈ votes, v.Genau) (hne : activeVotes c votes ≠ []) :
    ∃ f : ℚ, 0 ≤ f ∧ f ≤ 1 ∧
      aggregate c votes = .of (shrink (1 / 2) f (mittelwert c votes)) := by
  obtain ⟨d, hdamp, hd0, hd1⟩ := hd.exists_of
  obtain ⟨s, hs, hs0, hs1⟩ := exists_schwere (c := c) h
  have hle : d * s ≤ 1 := mul_le_one₀ hd1 hs0 hs1
  have hnonneg : 0 ≤ d * s := mul_nonneg hd0 hs0
  exact ⟨1 - d * s, by linarith, by linarith, aggregate_eq hc hdamp h hne hs hs0⟩

theorem mittel_kleinster (hc : c.regimeConditionerEnabled = true) (h : ∀ v ∈ votes, v.Genau)
    (hne : activeVotes c votes ≠ []) : ∃ u ∈ activeVotes c votes,
      (∀ v ∈ activeVotes c votes, u.score ≤ v.score) ∧ u.score ≤ mittel c votes := by
  have hgenau := genau_active hc h
  obtain ⟨p, hp, hleast, hmean⟩ := exists_least_le_weightedMean (weight_pos_of_active hc h)
    fun hnil => hne (List.map_eq_nil_iff.mp hnil)
  obtain ⟨u, hu, rfl⟩ := List.mem_map.mp hp
  refine ⟨u, hu, fun v hv => ?_, ?_⟩
  · rw [(hgenau u hu).score_eq, (hgenau v hv).score_eq]
    exact ExtRat.of_le_of.mpr (hleast _ (List.mem_map_of_mem hv))
  · rw [(hgenau u hu).score_eq, mittel_eq hc h]
    exact ExtRat.of_le_of.mpr hmean

theorem mittel_groesster (hc : c.regimeConditionerEnabled = true) (h : ∀ v ∈ votes, v.Genau)
    (hne : activeVotes c votes ≠ []) : ∃ u ∈ activeVotes c votes,
      (∀ v ∈ activeVotes c votes, v.score ≤ u.score) ∧ mittel c votes ≤ u.score := by
  have hgenau := genau_active hc h
  obtain ⟨p, hp, hgreatest, hmean⟩ := exists_weightedMean_le_greatest
    (weight_pos_of_active hc h) fun hnil => hne (List.map_eq_nil_iff.mp hnil)
  obtain ⟨u, hu, rfl⟩ := List.mem_map.mp hp
  refine ⟨u, hu, fun v hv => ?_, ?_⟩
  · rw [(hgenau u hu).score_eq, (hgenau v hv).score_eq]
    exact ExtRat.of_le_of.mpr (hgreatest _ (List.mem_map_of_mem hv))
  · rw [(hgenau u hu).score_eq, mittel_eq hc h]
    exact ExtRat.of_le_of.mpr hmean

theorem activeVotes_mit {v : Vote} (hc : c.regimeConditionerEnabled = true)
    (hv : zaehlt c v = true) (vor nach : List Vote) : activeVotes c (vor ++ v :: nach) =
      vor.filter (zaehlt c) ++ v :: nach.filter (zaehlt c) := by
  rw [activeVotes_filter hc, List.filter_append, List.filter_cons_of_pos hv]

theorem mittelwert_mono {v : Vote} {m : Meinung} {vor nach : List Vote}
    (hc : c.regimeConditionerEnabled = true) (h : ∀ u ∈ vor ++ v :: nach, u.Genau)
    (hv : zaehlt c v = true) (hv' : zaehlt c { v with meinung := m } = true)
    (hle : v.paar.1 ≤ ({ v with meinung := m } : Vote).paar.1) :
    mittelwert c (vor ++ v :: nach) ≤ mittelwert c (vor ++ { v with meinung := m } :: nach) := by
  refine weightedMean_mono ?_ (weight_pos_of_active hc h)
  have hsame (us : List Vote) : List.Forall₂ (fun p q : ℚ × ℚ => p.1 ≤ q.1 ∧ p.2 = q.2)
      (us.map Vote.paar) (us.map Vote.paar) := List.forall₂_same.mpr fun _ _ => ⟨le_rfl, rfl⟩
  rw [activeVotes_mit hc hv, activeVotes_mit hc hv', List.map_append, List.map_append,
    List.map_cons, List.map_cons]
  exact List.rel_append (hsame _) (.cons ⟨hle, rfl⟩ (hsame _))

/-- Before damping the mean lies between the scores that count and grows with each of
them, in whatever order the votes come and whatever the other votes are.  The damping
lowers a consensus above the middle, not below the middle, and more in a worse regime.
The votes of the regime agent that damp must agree for the order not to matter. -/
structure Gesetze (c : KonsensCfg) : Prop where
  zwischen : ∀ votes : List Vote, (∀ v ∈ votes, v.Genau) → activeVotes c votes ≠ [] →
    (∃ u ∈ activeVotes c votes, (∀ v ∈ activeVotes c votes, u.score ≤ v.score) ∧
      u.score ≤ mittel c votes) ∧
    ∃ u ∈ activeVotes c votes, (∀ v ∈ activeVotes c votes, v.score ≤ u.score) ∧
      mittel c votes ≤ u.score
  vertauschbar : ∀ votes votes' : List Vote, votes.Perm votes' →
    mittel c votes = mittel c votes' ∧
    ((∀ v ∈ votes, ∀ w ∈ votes, daempft c v = true → daempft c w = true → v.score = w.score) →
      aggregate c votes = aggregate c votes')
  monoton : ∀ (vor : List Vote) (v : Vote) (m : Meinung) (nach : List Vote),
    (∀ u ∈ vor ++ v :: nach, u.Genau) → (∀ u ∈ vor ++ { v with meinung := m } :: nach, u.Genau) →
    zaehlt c v = true → zaehlt c { v with meinung := m } = true →
    v.score ≤ ({ v with meinung := m } : Vote).score →
    mittel c (vor ++ v :: nach) ≤ mittel c (vor ++ { v with meinung := m } :: nach) ∧
    (TeilDaempfung c →
      aggregate c (vor ++ v :: nach) ≤ aggregate c (vor ++ { v with meinung := m } :: nach))
  aussen : ∀ (vor : List Vote) (v v' : Vote) (nach : List Vote), Aussen c v → Aussen c v' →
    mittel c (vor ++ v :: nach) = mittel c (vor ++ v' :: nach) ∧
    (daempft c v = false → daempft c v' = false →
      aggregate c (vor ++ v :: nach) = aggregate c (vor ++ v' :: nach))
  daempfung : TeilDaempfung c → ∀ votes : List Vote, (∀ v ∈ votes, v.Genau) →
    activeVotes c votes ≠ [] → aggregate c votes ≤ mittel c votes ∧
      (.of (1 / 2) < mittel c votes → .of (1 / 2) ≤ aggregate c votes) ∧
      (mittel c votes ≤ .of (1 / 2) → aggregate c votes = mittel c votes)
  schwerer : TeilDaempfung c → ∀ votes votes' : List Vote, (∀ v ∈ votes, v.Genau) →
    (∀ v ∈ votes', v.Genau) → activeVotes c votes ≠ [] →
    activeVotes c votes = activeVotes c votes' → schwere c votes ≤ schwere c votes' →
    aggregate c votes' ≤ aggregate c votes

theorem aggregate_mono {v : Vote} {m : Meinung} {vor nach : List Vote}
    (hc : c.regimeConditionerEnabled = true) (hd : TeilDaempfung c)
    (h : ∀ u ∈ vor ++ v :: nach, u.Genau)
    (h' : ∀ u ∈ vor ++ { v with meinung := m } :: nach, u.Genau)
    (hv : zaehlt c v = true) (hv' : zaehlt c { v with meinung := m } = true)
    (hle : mittelwert c (vor ++ v :: nach) ≤
      mittelwert c (vor ++ { v with meinung := m } :: nach)) :
    aggregate c (vor ++ v :: nach) ≤ aggregate c (vor ++ { v with meinung := m } :: nach) := by
  obtain ⟨d, hdamp, hd0, hd1⟩ := hd.exists_of
  obtain ⟨s, hs, hs0, hs1⟩ := exists_schwere (c := c) h
  have hs' : schwere c (vor ++ { v with meinung := m } :: nach) = .of s := by
    rw [← hs]
    exact (schwere_ohne (daempft_of_zaehlt hv) (daempft_of_zaehlt hv') vor nach).symm
  have hne : activeVotes c (vor ++ v :: nach) ≠ [] := by
    rw [activeVotes_mit hc hv]
    exact List.append_ne_nil_of_right_ne_nil _ (List.cons_ne_nil _ _)
  have hne' : activeVotes c (vor ++ { v with meinung := m } :: nach) ≠ [] := by
    rw [activeVotes_mit hc hv']
    exact List.append_ne_nil_of_right_ne_nil _ (List.cons_ne_nil _ _)
  have hfactor : 0 ≤ 1 - d * s := sub_nonneg.mpr (mul_le_one₀ hd1 hs0 hs1)
  rw [aggregate_eq hc hdamp h hne hs hs0, aggregate_eq hc hdamp h' hne' hs' hs0]
  exact ExtRat.of_le_of.mpr (shrink_mono hfactor hle)

theorem aggregate_anti {votes' : List Vote} (hc : c.regimeConditionerEnabled = true)
    (hd : TeilDaempfung c) (h : ∀ v ∈ votes, v.Genau) (h' : ∀ v ∈ votes', v.Genau)
    (hne : activeVotes c votes ≠ []) (hsame : activeVotes c votes = activeVotes c votes')
    (hle : schwere c votes ≤ schwere c votes') : aggregate c votes' ≤ aggregate c votes := by
  obtain ⟨d, hdamp, hd0, -⟩ := hd.exists_of
  obtain ⟨s, hs, hs0, -⟩ := exists_schwere (c := c) h
  obtain ⟨s', hs', hs0', -⟩ := exists_schwere (c := c) h'
  have hmean : mittelwert c votes' = mittelwert c votes := by
    rw [mittelwert, mittelwert, hsame]
  rw [hs, hs', ExtRat.of_le_of] at hle
  rw [aggregate_eq hc hdamp h hne hs hs0, aggregate_eq hc hdamp h' (hsame ▸ hne) hs' hs0', hmean]
  exact ExtRat.of_le_of.mpr
    (shrink_le_shrink (sub_le_sub_left (mul_le_mul_of_nonneg_left hle hd0) 1))

theorem gesetze (hc : c.regimeConditionerEnabled = true) : Gesetze c where
  zwischen votes h hne := ⟨mittel_kleinster hc h hne, mittel_groesster hc h hne⟩
  vertauschbar votes votes' h := by
    have hactive := activeVotes_perm hc h
    exact ⟨mittel_congr hactive, fun hsame => aggregate_congr hc hactive (schwere_perm h hsame)⟩
  monoton vor v m nach h h' hv hv' hle := by
    have hmem : v ∈ vor ++ v :: nach := List.mem_append_right _ (.head _)
    have hmem' : { v with meinung := m } ∈ vor ++ { v with meinung := m } :: nach :=
      List.mem_append_right _ (.head _)
    rw [(h v hmem).score_eq, (h' _ hmem').score_eq, ExtRat.of_le_of] at hle
    have hmean := mittelwert_mono hc h hv hv' hle
    refine ⟨?_, fun hd => aggregate_mono hc hd h h' hv hv' hmean⟩
    rw [mittel_eq hc h, mittel_eq hc h']
    exact ExtRat.of_le_of.mpr hmean
  aussen vor v v' nach hv hv' := by
    have hactive : activeVotes c (vor ++ v :: nach) = activeVotes c (vor ++ v' :: nach) := by
      rw [activeVotes_ohne hc (zaehlt_of_aussen hv), activeVotes_ohne hc (zaehlt_of_aussen hv')]
    exact ⟨mittel_congr (.of_eq hactive), fun hd hd' =>
      aggregate_congr hc (.of_eq hactive) (schwere_ohne hd hd' vor nach)⟩
  daempfung hd votes h hne := by
    obtain ⟨f, hf0, hf1, hagg⟩ := exists_factor hc hd h hne
    rw [hagg, mittel_eq hc h, ExtRat.of_le_of, ExtRat.of_lt_of, ExtRat.of_le_of, ExtRat.of_le_of]
    exact ⟨shrink_le hf1, mid_le_shrink hf0, fun hle => congrArg ExtRat.of (shrink_of_le hle)⟩
  schwerer hd _ _ h h' hne hsame hle := aggregate_anti hc hd h h' hne hsame hle

end

/-! ## Examples -/

/-- The configuration that is shipped, with the validator of `pydantic` on numbers. -/
def uebliche (dampMax : ℚ) : KonsensCfg where
  validator := some fun v =>
    decide (0 ≤ v.score) && decide (v.score ≤ .of 1) && decide (0 < v.weight)
  regimeConditionerEnabled := true
  regimeRiskoffDampMax := .of dampMax
  impliedVolForecastEnabled := false

theorem uebliche_gesetze : Gesetze (uebliche (1 / 2)) := gesetze rfl

def stimme (name : String) (score : ℚ) : Vote :=
  { agentName := name, meinung := .score (.of score), weight := .of 1 }

/-- The first of two votes of the regime agent damps, and a damping of three turns the
order of the scores around. -/
theorem nicht_vertauschbar :
    (aggregate (uebliche (1 / 2)) [stimme "RegimeDetectionAgent" 0,
        stimme "RegimeDetectionAgent" (1 / 2), stimme "MomentumAgent" (9 / 10)] ≠
      aggregate (uebliche (1 / 2)) [stimme "RegimeDetectionAgent" (1 / 2),
        stimme "RegimeDetectionAgent" 0, stimme "MomentumAgent" (9 / 10)]) ∧
    ¬ aggregate (uebliche 3)
        [stimme "RegimeDetectionAgent" 0, stimme "MomentumAgent" (6 / 10)] ≤
      aggregate (uebliche 3)
        [stimme "RegimeDetectionAgent" 0, stimme "MomentumAgent" (7 / 10)] := by
  decide +kernel

end RoundTable
