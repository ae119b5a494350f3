import AutonomousEngine.Basis.Transition

/-!
# Interleaved calls over a shared store

A `Machine` says what a call does, one access to the shared store after the
other: the program point it enters at, and for each point the accesses it may
make and where they lead, to another point or to an answer.

Any number of clients run calls, one at a time each.  A `Pool` is the store
together with the running calls and the list of the finished ones.  In one step
a client starts a call, makes the next access of its call or the last one, which
answers it, or dies, or the store changes by itself.  All interleavings of all
calls are the runs of `Machine.pool`.

A job remembers how many calls were finished when it started (`since`).  So a
call follows another one when its `since` is beyond the place of the other one
among the finished calls.

The rule for invariants over a pool is an outline in the manner of Owicki and
Gries: an invariant of the store and the finished calls, and an assertion for
each running call that the accesses of the others keep (`Machine.outline_sound`).
-/

namespace Basis

/-- What calls `κ` do over a store `σ`, by program points `π`, with answers
`ρ`. -/
structure Machine (σ κ π ρ : Type) where
  /-- The program point a call enters at. -/
  entry : κ → π
  /-- The accesses of a program point, and where they lead. -/
  access : σ → π → σ → π ⊕ ρ → Prop
  /-- What the store does by itself. -/
  idle : σ → σ → Prop

/-- A running call at a program point. -/
structure Job (κ π : Type) where
  call : κ
  /-- How many calls were finished when this one started. -/
  since : Nat
  point : π
deriving DecidableEq, Repr

/-- A finished call. -/
structure Done (κ ρ : Type) where
  client : Nat
  call : κ
  since : Nat
  answer : ρ
deriving DecidableEq, Repr

/-- The store, the running calls and the finished ones. -/
structure Pool (σ κ π ρ : Type) where
  store : σ
  jobs : Nat → Option (Job κ π)
  log : List (Done κ ρ)

/-- Which client does what. -/
inductive PoolAct (κ : Type) where
  | enter (client : Nat) (call : κ)
  | access (client : Nat)
  | crash (client : Nat)
  | idle
deriving DecidableEq, Repr

namespace Machine

variable {σ κ π ρ : Type} (M : Machine σ κ π ρ)

/-- One step of a pool. -/
inductive PoolStep : Pool σ κ π ρ → PoolAct κ → Pool σ κ π ρ → Prop where
  | enter {p i c} : p.jobs i = none →
      PoolStep p (.enter i c)
        { p with jobs := Function.update p.jobs i (some ⟨c, p.log.length, M.entry c⟩) }
  | access {p i c n q s q'} : p.jobs i = some ⟨c, n, q⟩ → M.access p.store q s (.inl q') →
      PoolStep p (.access i)
        { p with store := s, jobs := Function.update p.jobs i (some ⟨c, n, q'⟩) }
  | answer {p i c n q s a} : p.jobs i = some ⟨c, n, q⟩ → M.access p.store q s (.inr a) →
      PoolStep p (.access i)
        { store := s
          jobs := Function.update p.jobs i none
          log := p.log ++ [⟨i, c, n, a⟩] }
  | crash {p i} : PoolStep p (.crash i) { p with jobs := Function.update p.jobs i none }
  | idle {p s} : M.idle p.store s → PoolStep p .idle { p with store := s }

/-- The runs of a pool from a store. -/
def pool (init : σ → Prop) : System (Pool σ κ π ρ) (PoolAct κ) where
  start p := init p.store ∧ (∀ i, p.jobs i = none) ∧ p.log = []
  step := M.PoolStep

end Machine

/-- The jobs after one of them changed. -/
theorem update_jobs_eq_some {κ π : Type} {jobs : Nat → Option (Job κ π)} {i i' : Nat}
    {x : Option (Job κ π)} {j : Job κ π} :
    Function.update jobs i x i' = some j ↔ i' = i ∧ x = some j ∨ i' ≠ i ∧ jobs i' = some j := by
  by_cases h : i' = i
  · subst h
    simp
  · simp [h]

/-- A condition on the pool before a step, what is done, and the store after it. -/
def guarded {σ κ π ρ : Type} (G : Pool σ κ π ρ → PoolAct κ → σ → Prop) (p : Pool σ κ π ρ)
    (a : PoolAct κ) (p' : Pool σ κ π ρ) : Prop :=
  G p a p'.store

/-! ## Calls that run alone -/

/-- Accesses of one call in a row, each at a store and a point that meet a
condition. -/
inductive Machine.Solo {σ κ π ρ : Type} (M : Machine σ κ π ρ) (C : σ → π → Prop) :
    σ → π → σ → π ⊕ ρ → Prop where
  | stop {s q} : M.Solo C s q s (.inl q)
  | next {s q s' q' s'' r} : C s q → M.access s q s' (.inl q') → M.Solo C s' q' s'' r →
      M.Solo C s q s'' r
  | answer {s q s' a} : C s q → M.access s q s' (.inr a) → M.Solo C s q s' (.inr a)

theorem Machine.Solo.trans {σ κ π ρ : Type} {M : Machine σ κ π ρ} {C : σ → π → Prop}
    {s s' s'' : σ} {q q' : π} {r r' : π ⊕ ρ} (h : M.Solo C s q s' r) (hr : r = .inl q')
    (h' : M.Solo C s' q' s'' r') : M.Solo C s q s'' r' := by
  induction h with
  | stop =>
      obtain rfl := Sum.inl.inj hr
      exact h'
  | next hC ha _ ih => exact .next hC ha (ih hr h')
  | answer => cases hr

/-- The pool after accesses of one call. -/
def Pool.after {σ κ π ρ : Type} (p : Pool σ κ π ρ) (i : Nat) (c : κ) (n : Nat) (s : σ) :
    π ⊕ ρ → Pool σ κ π ρ
  | .inl q => { p with store := s, jobs := Function.update p.jobs i (some ⟨c, n, q⟩) }
  | .inr a =>
      { store := s, jobs := Function.update p.jobs i none, log := p.log ++ [⟨i, c, n, a⟩] }

/-- The call that made the accesses is where they lead. -/
theorem Pool.jobs_after {σ κ π ρ : Type} (p : Pool σ κ π ρ) (i : Nat) (c : κ) (n : Nat) (s : σ)
    (q : π) : (p.after i c n s (.inl q)).jobs i = some ⟨c, n, q⟩ :=
  Function.update_self i _ p.jobs

section

variable {σ κ π ρ : Type} {M : Machine σ κ π ρ} {C : σ → π → Prop} {init : σ → Prop}
  {G : Pool σ κ π ρ → PoolAct κ → σ → Prop} {p : Pool σ κ π ρ} {i n : Nat} {c : κ} {s : σ} {q : π}
  {r : π ⊕ ρ}

/-- A running call may run alone. -/
theorem solo_reach (h : ((M.pool init).restrict (guarded G)).Reach p)
    (hi : p.jobs i = some ⟨c, n, q⟩) (hs : M.Solo C p.store q s r)
    (hG : ∀ s q s', C s q → G (p.after i c n s (.inl q)) (.access i) s') :
    ((M.pool init).restrict (guarded G)).Reach (p.after i c n s r) := by
  generalize hst : p.store = st at hs
  induction hs generalizing p with
  | @stop s q =>
      have hp : p.after i c n s (.inl q) = p := by
        simp [Pool.after, ← hst, ← hi]
      rwa [hp]
  | @next s q s' q' s'' r hC ha _ ih =>
      subst hst
      have hp : p.after i c n p.store (.inl q) = p := by simp [Pool.after, ← hi]
      have hnow : G p (.access i) s' := by
        have h := hG p.store q s' hC
        rwa [hp] at h
      have hstep := System.Reach.step h ⟨Machine.PoolStep.access hi ha, hnow⟩
      have hrest := ih hstep (by simp)
        (fun s q s' hC => by simpa [Pool.after] using hG s q s' hC) rfl
      cases r <;> simpa [Pool.after] using hrest
  | @answer s q s' a hC ha =>
      subst hst
      have hp : p.after i c n p.store (.inl q) = p := by simp [Pool.after, ← hi]
      have hnow : G p (.access i) s' := by
        have h := hG p.store q s' hC
        rwa [hp] at h
      exact .step h ⟨.answer hi ha, hnow⟩

/-- A client that runs no call may start one and run it alone. -/
theorem call_reach (h : ((M.pool init).restrict (guarded G)).Reach p) (hi : p.jobs i = none)
    (hs : M.Solo C p.store (M.entry c) s r)
    (henter : G p (.enter i c) p.store)
    (hG : ∀ s q s', C s q → G (p.after i c p.log.length s (.inl q)) (.access i) s') :
    ((M.pool init).restrict (guarded G)).Reach (p.after i c p.log.length s r) := by
  have hstep := System.Reach.step h ⟨Machine.PoolStep.enter (c := c) hi, henter⟩
  have hsolo := solo_reach (i := i) (c := c) (n := p.log.length) hstep (by simp) hs
    fun s q s' hC => by simpa [Pool.after] using hG s q s' hC
  cases r <;> simpa [Pool.after] using hsolo

/-- While no call runs, one may run from its start to its answer. -/
theorem alone_reach {l : List (Done κ ρ)} {s₀ : σ} {a : ρ}
    (h : ((M.pool init).restrict (guarded G)).Reach ⟨s₀, fun _ => none, l⟩)
    (hs : M.Solo C s₀ (M.entry c) s (.inr a))
    (henter : G ⟨s₀, fun _ => none, l⟩ (.enter i c) s₀)
    (hG : ∀ s q s', C s q →
      G ⟨s, Function.update (fun _ => none) i (some ⟨c, l.length, q⟩), l⟩ (.access i) s') :
    ((M.pool init).restrict (guarded G)).Reach
      ⟨s, fun _ => none, l ++ [⟨i, c, l.length, a⟩]⟩ := by
  have hcall := call_reach h rfl hs henter hG
  have hidle : Function.update (fun _ => none : Nat → Option (Job κ π)) i none = fun _ => none :=
    Function.update_eq_self i _
  simpa [Pool.after, hidle] using hcall

end

/-! ## Outlines -/

/-- An invariant of the store and the finished calls and an assertion for each
running call, under a condition on the steps.  An access keeps the invariant,
leads to the assertion of the point after it or to a fitting answer, and keeps
the assertions of the other calls. -/
structure Outline {σ κ π ρ : Type} (M : Machine σ κ π ρ)
    (G : Pool σ κ π ρ → PoolAct κ → σ → Prop) (I : σ → List (Done κ ρ) → Prop)
    (A : σ → List (Done κ ρ) → Job κ π → Prop) : Prop where
  enter : ∀ {s l} c, I s l → A s l ⟨c, l.length, M.entry c⟩
  access : ∀ {p : Pool σ κ π ρ} {i c n q s q'}, G p (.access i) s → I p.store p.log →
    A p.store p.log ⟨c, n, q⟩ → p.jobs i = some ⟨c, n, q⟩ → M.access p.store q s (.inl q') →
    I s p.log ∧ A s p.log ⟨c, n, q'⟩ ∧
      ∀ i' j, i' ≠ i → p.jobs i' = some j → A p.store p.log j → A s p.log j
  answer : ∀ {p : Pool σ κ π ρ} {i c n q s a}, G p (.access i) s → I p.store p.log →
    A p.store p.log ⟨c, n, q⟩ → p.jobs i = some ⟨c, n, q⟩ → M.access p.store q s (.inr a) →
    I s (p.log ++ [⟨i, c, n, a⟩]) ∧
      ∀ i' j, i' ≠ i → p.jobs i' = some j → A p.store p.log j → A s (p.log ++ [⟨i, c, n, a⟩]) j
  idle : ∀ {p : Pool σ κ π ρ} {s}, G p .idle s → I p.store p.log → M.idle p.store s →
    I s p.log ∧ ∀ i j, p.jobs i = some j → A p.store p.log j → A s p.log j

/-- In every state of a run under the condition the invariant and the assertions
of all running calls hold. -/
theorem Machine.outline_sound {σ κ π ρ : Type} {M : Machine σ κ π ρ}
    {G : Pool σ κ π ρ → PoolAct κ → σ → Prop} {I : σ → List (Done κ ρ) → Prop}
    {A : σ → List (Done κ ρ) → Job κ π → Prop} (ho : Outline M G I A) {init : σ → Prop}
    (h0 : ∀ s, init s → I s []) {p : Pool σ κ π ρ}
    (h : ((M.pool init).restrict (guarded G)).Reach p) :
    I p.store p.log ∧ ∀ i j, p.jobs i = some j → A p.store p.log j := by
  induction h with
  | start h =>
      obtain ⟨hi, hj, hl⟩ := h
      exact ⟨hl ▸ h0 _ hi, fun i j hij => by simp [hj i] at hij⟩
  | step _ h ih =>
      obtain ⟨hs, hG⟩ := h
      obtain ⟨hI, hA⟩ := ih
      cases hs with
      | enter hi =>
          refine ⟨hI, fun i' j hj => ?_⟩
          rcases update_jobs_eq_some.mp hj with ⟨-, heq⟩ | ⟨-, hold⟩
          · obtain rfl := Option.some.inj heq
            exact ho.enter _ hI
          · exact hA i' j hold
      | access hi ha =>
          obtain ⟨hI', hnew, hold⟩ := ho.access hG hI (hA _ _ hi) hi ha
          refine ⟨hI', fun i' j hj => ?_⟩
          rcases update_jobs_eq_some.mp hj with ⟨-, heq⟩ | ⟨hne, hjob⟩
          · obtain rfl := Option.some.inj heq
            exact hnew
          · exact hold i' j hne hjob (hA i' j hjob)
      | answer hi ha =>
          obtain ⟨hI', hold⟩ := ho.answer hG hI (hA _ _ hi) hi ha
          refine ⟨hI', fun i' j hj => ?_⟩
          rcases update_jobs_eq_some.mp hj with ⟨-, heq⟩ | ⟨hne, hjob⟩
          · cases heq
          · exact hold i' j hne hjob (hA i' j hjob)
      | crash =>
          refine ⟨hI, fun i' j hj => ?_⟩
          rcases update_jobs_eq_some.mp hj with ⟨-, heq⟩ | ⟨-, hjob⟩
          · cases heq
          · exact hA i' j hjob
      | idle hi =>
          obtain ⟨hI', hold⟩ := ho.idle hG hI hi
          exact ⟨hI', fun i' j hj => hold i' j hj (hA i' j hj)⟩

end Basis
