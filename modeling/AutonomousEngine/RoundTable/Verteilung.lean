import AutonomousEngine.RoundTable.Mittel

/-!
# The distribution of the votes

Opinions that are all but equal and extreme may come from one poisoned source, and
`check_distribution` reports them.  It is to look at the votes that are in the mean.
It leaves out votes that are vetoed, invalid or without weight, as the mean does, but
not those of agents that the mean excludes.  Enough votes of such an agent raise an
alarm about any directional votes, and enough others silence it (`nurRichtung_iff`).
-/

namespace RoundTable

open Basis

/-! ## The check -/

def stdDevUniformityThreshold : ℚ := 3 / 100

/-- What the check says, with the numbers of an alarm. -/
inductive Urteil where
  | ok
  | insufficientVotes
  | highCorrelation (varianz mittel : ℚ) (n : ℕ)
deriving DecidableEq, Repr

def Urteil.bestanden : Urteil → Bool
  | .highCorrelation _ _ _ => false
  | _ => true

def istZahl : ExtRat → Bool
  | .of _ => true
  | _ => false

/-- The scores of the votes that the check looks at. -/
def punkte (c : KonsensCfg) (votes : List Vote) : List ExtRat :=
  (validatedVotes c votes).map Vote.score

/-- The verdict on three scores or more.  The standard deviation is compared by its
square. -/
def beurteile (t : Thresholds) (xs : List ℚ) : Urteil :=
  if variance xs < stdDevUniformityThreshold ^ 2 ∧ (t.buy < mean xs ∨ mean xs < t.sell) then
    .highCorrelation (variance xs) (mean xs) xs.length
  else .ok

/-- `check_distribution`, none where `statistics` raises because a score is no number. -/
def checkDistribution (c : KonsensCfg) (t : Thresholds) (votes : List Vote) : Option Urteil :=
  if (punkte c votes).length < 3 then some .insufficientVotes
  else if (punkte c votes).all istZahl then some (beurteile t ((punkte c votes).map zahl))
  else none

/-- Whether a vote is of an agent whose votes are in the mean. -/
def richtung (c : KonsensCfg) (v : Vote) : Bool :=
  !(consensusExclusions c.impliedVolForecastEnabled).contains v.agentName

/-! ## The validation -/

/-- What `pydantic` documents of the validator on numbers: scores from zero to one and
weights above zero are accepted, other scores are not. -/
structure Pydantic (accepts : Vote → Bool) : Prop where
  nimmt : ∀ v s w, v.meinung = .score (.of s) → v.weight = .of w → 0 ≤ s → s ≤ 1 → 0 < w →
    accepts v = true
  grenzen : ∀ v s, v.meinung = .score (.of s) → accepts v = true → 0 ≤ s ∧ s ≤ 1

section

variable {c : KonsensCfg} {t : Thresholds} {votes : List Vote}

theorem punkte_append (votes votes' : List Vote) :
    punkte c (votes ++ votes') = punkte c votes ++ punkte c votes' := by
  unfold punkte validatedVotes
  rw [List.filter_append, List.map_append]

/-- The scores of the directional votes are scores of the votes. -/
theorem punkte_richtung_sublist (votes : List Vote) :
    (punkte c (votes.filter (richtung c))).Sublist (punkte c votes) :=
  (List.filter_sublist.filter _).map _

theorem score_of_validateVote {v : Vote} (h : validateVote c v = true) :
    v.meinung = .score v.score := by
  unfold validateVote at h
  unfold Vote.score
  cases hm : v.meinung with
  | score s => rfl
  | enthalten r =>
      rw [hm] at h
      cases h

/-- A score that passes the validation and is a number is between zero and one. -/
theorem score_mem_of_validateVote (hc : ∀ accepts, c.validator = some accepts → Pydantic accepts)
    {v : Vote} {s : ℚ} (h : validateVote c v = true) (hs : v.score = .of s) : 0 ≤ s ∧ s ≤ 1 := by
  have hm := score_of_validateVote h
  rw [hs] at hm
  simp only [validateVote, hm] at h
  split at h
  next => cases h
  next =>
    cases hv : c.validator with
    | none =>
        rw [hv] at h
        simp only [Bool.and_eq_true, decide_eq_true_eq] at h
        exact ⟨ExtRat.of_le_of.mp h.1.1, ExtRat.of_le_of.mp h.1.2⟩
    | some accepts =>
        rw [hv] at h
        exact (hc accepts hv).grenzen v s hm h

/-- A vote of weight one with a score between zero and one passes the validation. -/
theorem validateVote_stimme (hc : ∀ accepts, c.validator = some accepts → Pydantic accepts)
    (name : String) {s : ℚ} (h0 : 0 ≤ s) (h1 : s ≤ 1) :
    validateVote c (stimme name s) = true := by
  have hw : (ExtRat.of 1 : ExtRat) ≠ 0 := by decide
  cases hv : c.validator with
  | none =>
      have hs0 : (0 : ExtRat) ≤ .of s := ExtRat.of_le_of.mpr h0
      have hs1 : ExtRat.of s ≤ .of 1 := ExtRat.of_le_of.mpr h1
      have hw0 : (0 : ExtRat) < .of 1 := ExtRat.of_lt_of.mpr one_pos
      simp [validateVote, stimme, hv, hw, hs0, hs1, hw0]
  | some accepts =>
      have hnimmt := (hc accepts hv).nimmt (stimme name s) s 1 rfl rfl h0 h1 one_pos
      simp only [stimme] at hnimmt
      simp [validateVote, stimme, hv, hw, hnimmt]

theorem punkte_stimme (hc : ∀ accepts, c.validator = some accepts → Pydantic accepts)
    (name : String) {s : ℚ} (h0 : 0 ≤ s) (h1 : s ≤ 1) :
    punkte c [stimme name s] = [.of s] := by
  have hp : (!(stimme name s).vetoed && validateVote c (stimme name s)) = true :=
    validateVote_stimme hc name h0 h1
  unfold punkte validatedVotes
  rw [List.filter_cons, if_pos hp]
  rfl

/-! ## The verdict -/

theorem checkDistribution_numbers {xs : List ℚ} (h : punkte c votes = xs.map .of)
    (hlen : 3 ≤ xs.length) : checkDistribution c t votes = some (beurteile t xs) := by
  have hall : (xs.map ExtRat.of).all istZahl = true := by
    rw [List.all_map]
    exact List.all_eq_true.mpr fun x _ => rfl
  have hxs : (xs.map ExtRat.of).map zahl = xs := by
    rw [List.map_map]
    exact List.map_id xs
  unfold checkDistribution
  rw [h, List.length_map, if_neg (not_lt.mpr hlen), hall, if_pos rfl, hxs]

theorem checkDistribution_none (hlen : 3 ≤ (punkte c votes).length) {x : ExtRat}
    (hx : x ∈ punkte c votes) (hnot : istZahl x = false) : checkDistribution c t votes = none := by
  have hall : ¬(punkte c votes).all istZahl = true := by
    intro h
    have := List.all_eq_true.mp h x hx
    rw [hnot] at this
    cases this
  unfold checkDistribution
  rw [if_neg (not_lt.mpr hlen), if_neg hall]

theorem beurteile_buy {xs : List ℚ} (hv : variance xs < stdDevUniformityThreshold ^ 2)
    (hm : t.buy < mean xs) : (beurteile t xs).bestanden = false := by
  unfold beurteile
  rw [if_pos ⟨hv, .inl hm⟩]
  rfl

theorem beurteile_spread {xs : List ℚ} (hv : 1 / 6 ≤ variance xs) :
    (beurteile t xs).bestanden = true := by
  have hnot : ¬(variance xs < stdDevUniformityThreshold ^ 2 ∧
      (t.buy < mean xs ∨ mean xs < t.sell)) := by
    rintro ⟨h, -⟩
    refine absurd (hv.trans_lt h) (not_lt.mpr ?_)
    norm_num [stdDevUniformityThreshold]
  unfold beurteile
  rw [if_neg hnot]
  rfl

/-! ## The directional votes alone -/

/-- The verdict depends on the directional votes only. -/
def NurRichtung (c : KonsensCfg) (t : Thresholds) (votes : List Vote) : Prop :=
  ∀ votes' : List Vote, votes'.filter (richtung c) = votes.filter (richtung c) →
    (checkDistribution c t votes').map Urteil.bestanden =
      (checkDistribution c t votes).map Urteil.bestanden

/-- Three directional votes or more pass the validation, and one has a score that is no
number. -/
def Unzaehlbar (c : KonsensCfg) (votes : List Vote) : Prop :=
  3 ≤ (punkte c (votes.filter (richtung c))).length ∧
    ∃ x ∈ punkte c (votes.filter (richtung c)), istZahl x = false

abbrev regimeStimme (s : ℚ) : Vote := stimme "RegimeDetectionAgent" s

theorem richtung_regimeStimme (c : KonsensCfg) (s : ℚ) : richtung c (regimeStimme s) = false := by
  unfold richtung consensusExclusions
  split
  · rfl
  · rfl

/-- Votes of the regime agent are no directional votes. -/
theorem filter_richtung_append (votes : List Vote) (ss : List ℚ) :
    (votes.filter (richtung c) ++ ss.map regimeStimme).filter (richtung c) =
      votes.filter (richtung c) := by
  have hnil : (ss.map regimeStimme).filter (richtung c) = [] := by
    refine List.filter_eq_nil_iff.mpr fun v hv => ?_
    obtain ⟨s, -, rfl⟩ := List.mem_map.mp hv
    rw [richtung_regimeStimme]
    exact Bool.false_ne_true
  rw [List.filter_append, hnil, List.append_nil, List.filter_filter]
  exact List.filter_congr fun v _ => Bool.and_self _

theorem punkte_regimeStimme (hc : ∀ accepts, c.validator = some accepts → Pydantic accepts)
    {ss : List ℚ} (h : ∀ s ∈ ss, 0 ≤ s ∧ s ≤ 1) :
    punkte c (ss.map regimeStimme) = ss.map .of := by
  induction ss with
  | nil => rfl
  | cons s ss ih =>
      obtain ⟨h0, h1⟩ := h s (.head _)
      rw [List.map_cons, ← List.singleton_append, punkte_append, punkte_stimme hc _ h0 h1,
        ih fun s hs => h s (.tail _ hs)]
      rfl

/-- What regime votes behind directional ones make of the check. -/
theorem checkDistribution_mit (hc : ∀ accepts, c.validator = some accepts → Pydantic accepts)
    {xs ss : List ℚ} (hxs : punkte c (votes.filter (richtung c)) = xs.map .of)
    (hss : ∀ s ∈ ss, 0 ≤ s ∧ s ≤ 1) (hlen : 3 ≤ ss.length) :
    checkDistribution c t (votes.filter (richtung c) ++ ss.map regimeStimme) =
      some (beurteile t (xs ++ ss)) := by
  refine checkDistribution_numbers ?_ ?_
  · rw [punkte_append, hxs, punkte_regimeStimme hc hss, List.map_append]
  · rw [List.length_append]
    omega

/-- Directional votes whose scores are numbers: some other votes raise an alarm, and some
silence it. -/
theorem not_nurRichtung_numbers (hc : ∀ accepts, c.validator = some accepts → Pydantic accepts)
    {xs : List ℚ} (hxs : punkte c (votes.filter (richtung c)) = xs.map .of)
    (hmem : ∀ x ∈ xs, 0 ≤ x ∧ x ≤ 1) : ¬NurRichtung c t votes := by
  intro h
  obtain ⟨n, hn, hmean, hvar⟩ := exists_ones (v := stdDevUniformityThreshold ^ 2) t.buy_lt_one
    (by norm_num [stdDevUniformityThreshold]) hmem
  have hone : ∀ s ∈ List.replicate n (1 : ℚ), 0 ≤ s ∧ s ≤ 1 := fun s hs => by
    rw [List.eq_of_mem_replicate hs]
    exact ⟨zero_le_one, le_rfl⟩
  have hboth : ∀ s ∈ List.replicate (xs.length + 2) (0 : ℚ) ++ List.replicate (xs.length + 2) 1,
      0 ≤ s ∧ s ≤ 1 := fun s hs => by
    rcases List.mem_append.mp hs with hs | hs
    · rw [List.eq_of_mem_replicate hs]
      exact ⟨le_rfl, zero_le_one⟩
    · rw [List.eq_of_mem_replicate hs]
      exact ⟨zero_le_one, le_rfl⟩
  have halarm := h _ (filter_richtung_append votes (List.replicate n 1))
  have hstill := h _ (filter_richtung_append votes
    (List.replicate (xs.length + 2) 0 ++ List.replicate (xs.length + 2) 1))
  rw [checkDistribution_mit hc hxs hone (by simpa using hn), Option.map_some,
    beurteile_buy hvar hmean] at halarm
  rw [checkDistribution_mit hc hxs hboth (by simp; omega), Option.map_some,
    beurteile_spread (le_variance_spread xs)] at hstill
  cases halarm.trans hstill.symm

/-- Fewer than three directional votes, one without a number: alone they are too few, and
beside others `statistics` raises. -/
theorem not_nurRichtung_few (hc : ∀ accepts, c.validator = some accepts → Pydantic accepts)
    (hlen : (punkte c (votes.filter (richtung c))).length < 3) {x : ExtRat}
    (hx : x ∈ punkte c (votes.filter (richtung c))) (hnot : istZahl x = false) :
    ¬NurRichtung c t votes := by
  intro h
  have hone : ∀ s ∈ List.replicate 3 (1 : ℚ), 0 ≤ s ∧ s ≤ 1 := fun s hs => by
    rw [List.eq_of_mem_replicate hs]
    exact ⟨zero_le_one, le_rfl⟩
  have hallein := h _ (filter_richtung_append votes [])
  have hmit := h _ (filter_richtung_append votes (List.replicate 3 1))
  have hp : punkte c (votes.filter (richtung c) ++ (List.replicate 3 1).map regimeStimme) =
      punkte c (votes.filter (richtung c)) ++ (List.replicate 3 1).map .of := by
    rw [punkte_append, punkte_regimeStimme hc hone]
  rw [checkDistribution_none (x := x) (by rw [hp]; simp) (by rw [hp]; exact List.mem_append_left _ hx)
    hnot] at hmit
  rw [List.map_nil, List.append_nil] at hallein
  unfold checkDistribution at hallein
  rw [if_pos hlen] at hallein
  cases hallein.trans hmit.symm

/-- The check depends on the directional votes only in the lists in which `statistics`
cannot count these. -/
theorem nurRichtung_iff (c : KonsensCfg) (t : Thresholds) (votes : List Vote)
    (hc : ∀ accepts, c.validator = some accepts → Pydantic accepts) :
    NurRichtung c t votes ↔ Unzaehlbar c votes := by
  constructor
  · intro h
    by_cases hall : ∀ x ∈ punkte c (votes.filter (richtung c)), istZahl x = true
    · have hxs : punkte c (votes.filter (richtung c)) =
          ((punkte c (votes.filter (richtung c))).map zahl).map .of := by
        rw [List.map_map]
        refine (List.map_id _).symm.trans (List.map_congr_left fun x hx => ?_)
        cases x with
        | of q => rfl
        | _ => cases hall _ hx
      refine absurd h (not_nurRichtung_numbers hc hxs fun q hq => ?_)
      obtain ⟨x, hx, rfl⟩ := List.mem_map.mp hq
      obtain ⟨v, hv, rfl⟩ := List.mem_map.mp hx
      have hvalid := (Bool.and_eq_true _ _ ▸ (List.mem_filter.mp hv).2 :
        (!v.vetoed) = true ∧ validateVote c v = true).2
      cases hs : v.score with
      | of q => exact score_mem_of_validateVote hc hvalid hs
      | _ =>
          have := hall _ hx
          rw [hs] at this
          cases this
    · push Not at hall
      obtain ⟨x, hx, hnot⟩ := hall
      have hnot' : istZahl x = false := Bool.eq_false_of_not_eq_true hnot
      refine ⟨?_, x, hx, hnot'⟩
      by_contra hlen
      exact not_nurRichtung_few hc (not_le.mp hlen) hx hnot' h
  · rintro ⟨hlen, x, hx, hnot⟩ votes' heq
    have hraise : ∀ votes'' : List Vote, votes''.filter (richtung c) = votes.filter (richtung c) →
        checkDistribution c t votes'' = none := by
      intro votes'' heq
      have hsub := punkte_richtung_sublist (c := c) votes''
      rw [heq] at hsub
      exact checkDistribution_none (hlen.trans hsub.length_le) (hsub.subset hx) hnot
    rw [hraise votes' heq, hraise votes rfl]

end

/-! ## A cluster that is silenced -/

theorem pydantic_uebliche (dampMax : ℚ) :
    ∀ accepts, (uebliche dampMax).validator = some accepts → Pydantic accepts := by
  intro accepts h
  cases Option.some.inj h
  constructor
  · intro v s w hm hw h0 h1 hpos
    have hs : v.score = .of s := by rw [Vote.score, hm]
    simp [hs, hw, ExtRat.zero_def, h0, h1, hpos]
  · intro v s hm h
    have hs : v.score = .of s := by rw [Vote.score, hm]
    simp only [hs, Bool.and_eq_true, decide_eq_true_eq] at h
    exact ⟨ExtRat.of_le_of.mp h.1.1, ExtRat.of_le_of.mp h.1.2⟩

/-- Five directional votes, all of them extreme. -/
def verdaechtig : List Vote :=
  ["MomentumAgent", "LSTMAgent", "RLAgent", "NewsAgent", "FundamentalsAgent"].map (stimme · (9 / 10))

theorem nurRichtung_iff_verdaechtig :
    NurRichtung (uebliche (1 / 2)) defaultThresholds verdaechtig ↔
      Unzaehlbar (uebliche (1 / 2)) verdaechtig :=
  nurRichtung_iff _ _ _ (pydantic_uebliche (1 / 2))

/-- One vote of the regime agent silences the alarm. -/
theorem not_nurRichtung_verdaechtig :
    ¬NurRichtung (uebliche (1 / 2)) defaultThresholds verdaechtig := by
  intro h
  have hregime := h (verdaechtig ++ [regimeStimme (2 / 5)]) (by decide +kernel)
  have halarm : (checkDistribution (uebliche (1 / 2)) defaultThresholds verdaechtig).map
      Urteil.bestanden = some false := by decide +kernel
  have hstill : (checkDistribution (uebliche (1 / 2)) defaultThresholds
      (verdaechtig ++ [regimeStimme (2 / 5)])).map Urteil.bestanden = some true := by decide +kernel
  cases hstill.symm.trans (hregime.trans halarm)

end RoundTable
