import AutonomousEngine.Basis.Transition

/-!
# Critical sections under leased locks

Many clients run short critical sections over one shared store.  A section is
entered by taking a named lock, and the lock is a *lease*: it carries the time
at which it expires, and from then on anybody may take it over.  A client that
dies inside its section leaves its lock behind, and the expiry is what frees
it.  Waiting is bounded: after a fixed number of attempts the call gives up
and returns a refusal.

A `LeaseProgram` says what a call does: the lock it needs, the program point it
enters at, and the one store operation of each program point.  `act` runs one
action of a configuration: time passes, a call starts, tries its lock, performs
one store operation, has an operation fail with an exception, releases its
lock, or dies.  All interleavings of all calls are the runs of `system`.

A lease excludes nobody from a section that outlives it.  So exclusion is not a
theorem about every run.  `Exclusive` is the condition on one step under which
it is: a lock is taken only when no other call is still inside its section.
`Timely` is the condition on the clock that implies it: no call is inside its
section once its lease has expired (`Timely.exclusive`).

The proof rule is the one of Owicki and Gries.  A `ProofOutline` gives an
invariant of the store and an assertion for each program point, such that each
operation keeps the invariant and leads from one assertion to the next, and no
operation disturbs an assertion of a call that holds another lock.  Then all of
them hold in every state an exclusive run reaches (`ProofOutline.sound`).
-/

namespace Basis

/-- A program of critical sections.  A call `κ` runs through program points `π`
over a store `σ` and returns a result `ρ`.  Locks have names `ν`. -/
structure LeaseProgram (σ κ π ρ ν : Type) where
  /-- The lock a call needs. -/
  lockName : κ → ν
  /-- The program point a call enters its section at. -/
  entry : κ → π
  /-- The store operation of a program point, and where it leads. -/
  next : σ → π → σ × (π ⊕ ρ)
  /-- What a call returns when it could not get its lock. -/
  refused : κ → ρ
  /-- How long a lease lasts. -/
  ttl : Nat
  /-- How often a call tries its lock. -/
  attempts : Nat

/-- Where a call is.  A result of `none` is an exception. -/
inductive Call (κ π ρ : Type) where
  | idle
  | waiting (k : κ) (tried : Nat)
  | inside (k : κ) (deadline : Nat) (p : π)
  | leaving (k : κ) (deadline : Nat) (r : Option ρ)
  | returned (k : κ) (r : Option ρ)
deriving DecidableEq, Repr

/-- A lease: who holds the lock and when it expires. -/
structure Lease where
  /-- The call that holds the lock. -/
  holder : Nat
  /-- The time from which the lock may be taken over. -/
  expires : Nat
deriving DecidableEq, Repr

/-- A configuration: the store, the leases, the clock and every call. -/
structure Config (σ κ π ρ ν : Type) where
  /-- The shared store. -/
  store : σ
  /-- The lease on each lock, if there is one. -/
  locks : ν → Option Lease
  /-- The clock. -/
  now : Nat
  /-- The calls. -/
  calls : Nat → Call κ π ρ

/-- An action of one call, or the passing of time. -/
inductive Act (κ : Type) where
  | time (d : Nat)
  | begin (t : Nat) (k : κ)
  | acquire (t : Nat)
  | store (t : Nat)
  | raise (t : Nat)
  | release (t : Nat)
  | crash (t : Nat)
deriving DecidableEq, Repr

/-- The call an action belongs to. -/
def Act.actor {κ : Type} : Act κ → Option Nat
  | .time _ => none
  | .begin t _ | .acquire t | .store t | .raise t | .release t | .crash t => some t

section Configurations

variable {σ κ π ρ ν : Type}

/-- The configuration with call `t` at another place. -/
def Config.setCall (c : Config σ κ π ρ ν) (t : Nat) (x : Call κ π ρ) : Config σ κ π ρ ν :=
  { c with calls := Function.update c.calls t x }

/-- A lock may be taken when nobody holds it or its lease has expired. -/
def Config.free (c : Config σ κ π ρ ν) (n : ν) : Bool :=
  match c.locks n with
  | none => true
  | some l => l.expires ≤ c.now

/-- No call has started and no lock is held. -/
def Config.fresh (s : σ) : Config σ κ π ρ ν where
  store := s
  locks _ := none
  now := 0
  calls _ := .idle

@[simp] theorem Config.setCall_calls_self (c : Config σ κ π ρ ν) (t : Nat) (x : Call κ π ρ) :
    (c.setCall t x).calls t = x := by
  simp [Config.setCall]

theorem Config.setCall_calls_of_ne (c : Config σ κ π ρ ν) {t u : Nat} (x : Call κ π ρ)
    (h : u ≠ t) : (c.setCall t x).calls u = c.calls u := by
  simp [Config.setCall, Function.update_of_ne h]

end Configurations

namespace LeaseProgram

variable {σ κ π ρ ν : Type} (P : LeaseProgram σ κ π ρ ν)

/-! ## Sections -/

/-- The lock whose section a call is in, from taking it to releasing it. -/
def within : Call κ π ρ → Option ν
  | .inside k _ _ | .leaving k _ _ => some (P.lockName k)
  | _ => none

/-- The condition on one step under which sections exclude each other: a lock
is taken only when no call is inside its section any more. -/
def Exclusive (c : Config σ κ π ρ ν) : Act κ → Prop
  | .acquire t => ∀ k n, c.calls t = .waiting k n → c.free (P.lockName k) = true →
      ∀ u, P.within (c.calls u) ≠ some (P.lockName k)
  | _ => True

/-- The end of the lease a call entered its section with. -/
def deadline : Call κ π ρ → Option Nat
  | .inside _ f _ | .leaving _ f _ => some f
  | _ => none

/-- No call is inside its section once its lease has expired. -/
def Timely (c : Config σ κ π ρ ν) : Prop :=
  ∀ t f, deadline (c.calls t) = some f → c.now < f

/-- At most one call is inside the section of a lock. -/
def Alone (c : Config σ κ π ρ ν) : Prop :=
  ∀ t u n, P.within (c.calls t) = some n → P.within (c.calls u) = some n → t = u

/-- A call inside its section holds its lock, with the deadline it knows. -/
def Held (c : Config σ κ π ρ ν) : Prop :=
  ∀ t n f, P.within (c.calls t) = some n → deadline (c.calls t) = some f →
    c.locks n = some ⟨t, f⟩

/-- The same of the calls whose lease has not expired. -/
def HeldInTime (c : Config σ κ π ρ ν) : Prop :=
  ∀ t n f, P.within (c.calls t) = some n → deadline (c.calls t) = some f → c.now < f →
    c.locks n = some ⟨t, f⟩

@[simp] theorem within_idle : P.within (.idle : Call κ π ρ) = none := rfl

@[simp] theorem within_waiting (k : κ) (n : Nat) :
    P.within (.waiting k n : Call κ π ρ) = none := rfl

@[simp] theorem within_inside (k : κ) (f : Nat) (p : π) :
    P.within (.inside k f p : Call κ π ρ) = some (P.lockName k) := rfl

@[simp] theorem within_leaving (k : κ) (f : Nat) (r : Option ρ) :
    P.within (.leaving k f r : Call κ π ρ) = some (P.lockName k) := rfl

@[simp] theorem within_returned (k : κ) (r : Option ρ) :
    P.within (.returned k r : Call κ π ρ) = none := rfl

/-- A call inside a section knows its deadline. -/
theorem deadline_of_within {x : Call κ π ρ} {n : ν} (h : P.within x = some n) :
    ∃ f, deadline x = some f := by
  cases x with
  | inside k f p => exact ⟨f, rfl⟩
  | leaving k f r => exact ⟨f, rfl⟩
  | idle | waiting _ _ | returned _ _ => cases h

/-- A lock whose holder is in time is not free, so nobody takes it over. -/
theorem Timely.exclusive {c : Config σ κ π ρ ν} (ht : Timely c) (hh : P.Held c) (a : Act κ) :
    P.Exclusive c a := by
  cases a with
  | acquire t =>
      intro k n _ hfree u hin
      obtain ⟨f, hf⟩ := deadline_of_within P hin
      have hlock : c.locks (P.lockName k) = some ⟨u, f⟩ := hh u _ f hin hf
      have hlate : f ≤ c.now := by simpa [Config.free, hlock] using hfree
      exact absurd (ht u f hf) (Nat.not_lt.mpr hlate)
  | time | begin | store | raise | release | crash => trivial

/-! ## Steps -/

variable [DecidableEq ν]

/-- One action, or `none` when the call is not at a place to take it. -/
def act (c : Config σ κ π ρ ν) : Act κ → Option (Config σ κ π ρ ν)
  | .time d => some { c with now := c.now + d }
  | .begin t k =>
      match c.calls t with
      | .idle => some (c.setCall t (.waiting k 0))
      | _ => none
  | .acquire t =>
      match c.calls t with
      | .waiting k n =>
          if c.free (P.lockName k) then
            some { c.setCall t (.inside k (c.now + P.ttl) (P.entry k)) with
              locks := Function.update c.locks (P.lockName k) (some ⟨t, c.now + P.ttl⟩) }
          else if n + 1 < P.attempts then some (c.setCall t (.waiting k (n + 1)))
          else some (c.setCall t (.returned k (some (P.refused k))))
      | _ => none
  | .store t =>
      match c.calls t with
      | .inside k f p =>
          match P.next c.store p with
          | (s', .inl p') => some { c.setCall t (.inside k f p') with store := s' }
          | (s', .inr r) => some { c.setCall t (.leaving k f (some r)) with store := s' }
      | _ => none
  | .raise t =>
      match c.calls t with
      | .inside k f _ => some (c.setCall t (.leaving k f none))
      | _ => none
  | .release t =>
      match c.calls t with
      | .leaving k _ r =>
          some { c.setCall t (.returned k r) with
            locks := Function.update c.locks (P.lockName k)
              ((c.locks (P.lockName k)).filter fun l => l.holder != t) }
      | _ => none
  | .crash t =>
      match c.calls t with
      | .waiting k _ | .inside k _ _ | .leaving k _ _ => some (c.setCall t (.returned k none))
      | _ => none

/-- What an action can do, one case for each way it can go. -/
inductive Step (c : Config σ κ π ρ ν) : Act κ → Config σ κ π ρ ν → Prop where
  | time (d : Nat) : Step c (.time d) { c with now := c.now + d }
  | begin {t k} : c.calls t = .idle → Step c (.begin t k) (c.setCall t (.waiting k 0))
  | acquire {t k n} : c.calls t = .waiting k n → c.free (P.lockName k) = true →
      Step c (.acquire t) { c.setCall t (.inside k (c.now + P.ttl) (P.entry k)) with
        locks := Function.update c.locks (P.lockName k) (some ⟨t, c.now + P.ttl⟩) }
  | wait {t k n} : c.calls t = .waiting k n → c.free (P.lockName k) = false →
      Step c (.acquire t) (c.setCall t (.waiting k (n + 1)))
  | giveUp {t k n} : c.calls t = .waiting k n → c.free (P.lockName k) = false →
      Step c (.acquire t) (c.setCall t (.returned k (some (P.refused k))))
  | store {t k f p s' p'} : c.calls t = .inside k f p → P.next c.store p = (s', .inl p') →
      Step c (.store t) { c.setCall t (.inside k f p') with store := s' }
  | finish {t k f p s' r} : c.calls t = .inside k f p → P.next c.store p = (s', .inr r) →
      Step c (.store t) { c.setCall t (.leaving k f (some r)) with store := s' }
  | raise {t k f p} : c.calls t = .inside k f p →
      Step c (.raise t) (c.setCall t (.leaving k f none))
  | release {t k f r} : c.calls t = .leaving k f r →
      Step c (.release t) { c.setCall t (.returned k r) with
        locks := Function.update c.locks (P.lockName k)
          ((c.locks (P.lockName k)).filter fun l => l.holder != t) }
  | crash {t} (k) : c.calls t ≠ .idle →
      Step c (.crash t) (c.setCall t (.returned k none))

theorem Step.of_act {c c' : Config σ κ π ρ ν} {a : Act κ} (h : P.act c a = some c') :
    P.Step c a c' := by
  cases a with
  | time d => simp only [act, Option.some.injEq] at h; subst h; exact .time d
  | begin t k =>
      simp only [act] at h
      split at h
      next hc => cases h; exact .begin hc
      next => cases h
  | acquire t =>
      simp only [act] at h
      split at h
      next k n hc =>
        split at h
        next hf => cases h; exact .acquire hc hf
        next hf =>
          rw [Bool.not_eq_true] at hf
          split at h
          · cases h; exact .wait hc hf
          · cases h; exact .giveUp hc hf
      next => cases h
  | store t =>
      simp only [act] at h
      split at h
      next k f p hc =>
        split at h
        next hn => cases h; exact .store hc hn
        next hn => cases h; exact .finish hc hn
      next => cases h
  | raise t =>
      simp only [act] at h
      split at h
      next hc => cases h; exact .raise hc
      next => cases h
  | release t =>
      simp only [act] at h
      split at h
      next hc => cases h; exact .release hc
      next => cases h
  | crash t =>
      simp only [act] at h
      split at h
      next hc => cases h; exact .crash _ (by simp [hc])
      next hc => cases h; exact .crash _ (by simp [hc])
      next hc => cases h; exact .crash _ (by simp [hc])
      next => cases h

/-- All interleavings of all calls, from a store no call has touched yet. -/
def system (start : σ → Prop) : System (Config σ κ π ρ ν) (Act κ) where
  start c := ∃ s, start s ∧ c = Config.fresh s
  step c a c' := P.act c a = some c'

/-- The actions of a list in turn. -/
def run (c : Config σ κ π ρ ν) : List (Act κ) → Option (Config σ κ π ρ ν)
  | [] => some c
  | a :: as => (P.act c a).bind fun c' => run c' as
termination_by structural as => as

/-- The actions of a list in turn, with the history of their events. -/
def runWith {ε : Type} (obs : Config σ κ π ρ ν → Act κ → List ε) (c : Config σ κ π ρ ν)
    (h : List ε) : List (Act κ) → Option (Config σ κ π ρ ν × List ε)
  | [] => some (c, h)
  | a :: as => (P.act c a).bind fun c' => runWith obs c' (h ++ obs c a) as
termination_by structural as => as

/-- The system in which every step meets the exclusion condition and a further
condition `G`. -/
def exclusive (start : σ → Prop) (G : Config σ κ π ρ ν → Act κ → Prop) :
    System (Config σ κ π ρ ν) (Act κ) :=
  (P.system start).restrict fun c a _ => P.Exclusive c a ∧ G c a

/-- The system in which no section outlives its lease. -/
def timely (start : σ → Prop) : System (Config σ κ π ρ ν) (Act κ) :=
  (P.system start).restrict fun c _ c' => Timely c ∧ Timely c'

/-! ## Exclusion -/

/-- A step moves no call but its own. -/
theorem Step.calls_of_ne {c c' : Config σ κ π ρ ν} {a : Act κ} (h : P.Step c a c') {u : Nat}
    (hu : a.actor ≠ some u) : c'.calls u = c.calls u := by
  cases h with
  | time d => rfl
  | begin | wait | giveUp | raise | crash =>
      exact Config.setCall_calls_of_ne c _ fun h => hu (congrArg some h.symm)
  | acquire | store | finish | release =>
      exact Config.setCall_calls_of_ne c _ fun h => hu (congrArg some h.symm)

/-- A step puts a call inside a section only by taking the lock.  Otherwise a
call that is inside after the step was inside before it, with the same
deadline. -/
theorem Step.within_cases {c c' : Config σ κ π ρ ν} {a : Act κ} (h : P.Step c a c') {u : Nat}
    {n : ν} (hu : P.within (c'.calls u) = some n) :
    (P.within (c.calls u) = some n ∧ deadline (c'.calls u) = deadline (c.calls u)) ∨
      ∃ k m, a = .acquire u ∧ c.calls u = .waiting k m ∧ c.free n = true ∧
        P.lockName k = n ∧ deadline (c'.calls u) = some (c.now + P.ttl) ∧
        c'.locks n = some ⟨u, c.now + P.ttl⟩ := by
  by_cases hact : a.actor = some u
  · cases h with
    | time d => cases hact
    | begin | wait | giveUp | release | crash => cases hact; simp at hu
    | @acquire t k m hc hf =>
        cases hact
        simp only [Config.setCall_calls_self, within_inside, Option.some.injEq] at hu
        subst hu
        exact .inr ⟨k, m, rfl, hc, hf, rfl, by simp [deadline], by simp⟩
    | @store t k f p s' p' hc _ =>
        cases hact
        simp only [Config.setCall_calls_self, within_inside] at hu
        exact .inl ⟨by simpa [hc] using hu, by simp [hc, deadline]⟩
    | @finish t k f p s' r hc _ | @raise t k f p hc =>
        cases hact
        simp only [Config.setCall_calls_self, within_leaving] at hu
        exact .inl ⟨by simpa [hc] using hu, by simp [hc, deadline]⟩
  · rw [Step.calls_of_ne P h hact] at hu ⊢
    exact .inl ⟨hu, rfl⟩

/-- A step under the exclusion condition keeps exclusion. -/
theorem Step.alone {c c' : Config σ κ π ρ ν} {a : Act κ} (h : P.Step c a c')
    (hx : P.Exclusive c a) (ha : P.Alone c) : P.Alone c' := by
  intro t u n ht hu
  rcases Step.within_cases P h ht with ⟨ht, _⟩ | ⟨k, m, rfl, hc, hf, rfl, _⟩
  · rcases Step.within_cases P h hu with ⟨hu, _⟩ | ⟨k, m, rfl, hc, hf, rfl, _⟩
    · exact ha t u n ht hu
    · exact absurd ht (hx k m hc hf t)
  · rcases Step.within_cases P h hu with ⟨hu, _⟩ | ⟨k', m', hact, _⟩
    · exact absurd hu (hx k m hc hf u)
    · cases hact; rfl

/-- A lease that has not expired is lost only by its holder's own release or
crash. -/
theorem Step.lock_kept {c c' : Config σ κ π ρ ν} {a : Act κ} (h : P.Step c a c') {t f : Nat}
    {n : ν} (hl : c.locks n = some ⟨t, f⟩) (hf : c.now < f)
    (hin : P.within (c'.calls t) = some n) (hin' : P.within (c.calls t) = some n) :
    c'.locks n = some ⟨t, f⟩ := by
  cases h with
  | time d => exact hl
  | begin | wait | giveUp | raise | crash => exact hl
  | store | finish => exact hl
  | @acquire u k m hc hfree =>
      have hne : n ≠ P.lockName k := by
        rintro rfl
        simp [Config.free, hl] at hfree
        omega
      simpa [Function.update_of_ne hne] using hl
  | @release u k g r hc =>
      by_cases hut : t = u
      · subst hut; simp at hin
      · by_cases hn : n = P.lockName k
        · subst hn; simp [hl, hut]
        · simpa [Function.update_of_ne hn] using hl

/-- The clock does not go back. -/
theorem Step.now_le {c c' : Config σ κ π ρ ν} {a : Act κ} (h : P.Step c a c') :
    c.now ≤ c'.now := by
  cases h with
  | time d => exact Nat.le_add_right _ _
  | begin | wait | giveUp | raise | crash => exact Nat.le_refl _
  | acquire | store | finish | release => exact Nat.le_refl _

/-- A step keeps the leases of all calls inside that have not expired. -/
theorem Step.heldInTime {c c' : Config σ κ π ρ ν} {a : Act κ} (h : P.Step c a c')
    (hh : P.HeldInTime c) : P.HeldInTime c' := by
  intro t n f hin hf hnow
  rcases Step.within_cases P h hin with ⟨hin', hd⟩ | ⟨k, m, _, _, _, _, hd, hl⟩
  · rw [hd] at hf
    have hbefore : c.now < f := Nat.lt_of_le_of_lt (Step.now_le P h) hnow
    exact Step.lock_kept P h (hh t n f hin' hf hbefore) hbefore hin hin'
  · rw [hd] at hf
    cases hf
    exact hl

/-- In every run a call inside its section holds its lock until the lease expires. -/
theorem heldInTime {start : σ → Prop} {c : Config σ κ π ρ ν} (h : (P.system start).Reach c) :
    P.HeldInTime c := by
  refine System.Reach.invariant (I := P.HeldInTime) ?_ ?_ h
  · rintro c ⟨s, _, rfl⟩ t n f hin _ _
    cases hin
  · intro c a c' hh hs
    exact Step.heldInTime P (.of_act P hs) hh

/-- In every run at most one of the calls inside the section of a lock is there with
a lease that has not expired. -/
theorem inTime_alone {start : σ → Prop} {c : Config σ κ π ρ ν} (h : (P.system start).Reach c)
    {t u f g : Nat} {n : ν} (ht : P.within (c.calls t) = some n)
    (hu : P.within (c.calls u) = some n) (hf : deadline (c.calls t) = some f)
    (hg : deadline (c.calls u) = some g) (hnowt : c.now < f) (hnowu : c.now < g) : t = u := by
  have hlock : c.locks n = some ⟨t, f⟩ := P.heldInTime h t n f ht hf hnowt
  have hlock' : c.locks n = some ⟨u, g⟩ := P.heldInTime h u n g hu hg hnowu
  exact congrArg Lease.holder (Option.some.inj (hlock.symm.trans hlock'))

/-- A lease of no length holds nobody back. -/
theorem free_of_ttl_zero (hzero : P.ttl = 0) {start : σ → Prop} {c : Config σ κ π ρ ν}
    (h : (P.system start).Reach c) (n : ν) : c.free n = true := by
  have hold : ∀ n l, c.locks n = some l → l.expires ≤ c.now := by
    refine System.Reach.invariant
      (I := fun c => ∀ n l, c.locks n = some l → l.expires ≤ c.now) ?_ ?_ h
    · rintro c ⟨s, _, rfl⟩ n l hl
      cases hl
    · intro c a c' hold hs
      have hstep : P.Step c a c' := .of_act P hs
      intro n l hl
      refine Nat.le_trans ?_ (Step.now_le P hstep)
      cases hstep with
      | time | begin | wait | giveUp | raise | crash => exact hold n l hl
      | store | finish => exact hold n l hl
      | @acquire t k m hc hf =>
          by_cases hn : n = P.lockName k
          · subst hn
            simp only [Function.update_self, Option.some.injEq] at hl
            simp [← hl, hzero]
          · exact hold n l (by simpa [Function.update_of_ne hn] using hl)
      | @release t k f r hc =>
          by_cases hn : n = P.lockName k
          · subst hn
            simp only [Function.update_self] at hl
            exact hold _ l (Option.eq_some_of_filter_eq_some hl)
          · exact hold n l (by simpa [Function.update_of_ne hn] using hl)
  unfold Config.free
  split
  next => rfl
  next l hl => exact decide_eq_true (hold n l hl)

/-- A call that waits for a free lock takes it. -/
theorem act_acquire {c : Config σ κ π ρ ν} {t : Nat} {k : κ} {m : Nat}
    (hc : c.calls t = .waiting k m) (hf : c.free (P.lockName k) = true) :
    P.act c (.acquire t) = some { c.setCall t (.inside k (c.now + P.ttl) (P.entry k)) with
      locks := Function.update c.locks (P.lockName k) (some ⟨t, c.now + P.ttl⟩) } := by
  simp [act, hc, hf]

/-- In a timely run every call inside its section holds its lock. -/
theorem timely_held {start : σ → Prop} {c : Config σ κ π ρ ν}
    (h : (P.timely start).Reach c) : Timely c ∧ P.Held c := by
  have ht : Timely c := by
    refine System.Reach.invariant (I := Timely) ?_ ?_ h
    · rintro c ⟨s, _, rfl⟩ t f hf
      cases hf
    · intro c a c' _ hs
      exact hs.2.2
  have hsys : (P.system start).Reach c := h.of_restrict
  exact ⟨ht, fun t n f hin hf => P.heldInTime hsys t n f hin hf (ht t f hf)⟩

/-- A run in which no section outlives its lease meets the exclusion condition
at every step. -/
theorem timely_exclusive {start : σ → Prop} {c : Config σ κ π ρ ν}
    (h : (P.timely start).Reach c) : (P.exclusive start fun _ _ => True).Reach c :=
  h.restrict_mono fun _ a _ hr _ hg => ⟨hg.1.exclusive P (P.timely_held hr).2 a, trivial⟩

/-- Only the passing of time makes a call late. -/
theorem Step.timely (hpos : 0 < P.ttl) {c c' : Config σ κ π ρ ν} {a : Act κ}
    (h : P.Step c a c') (hnow : c'.now = c.now) (ht : Timely c) : Timely c' := by
  intro t f hf
  have hin : ∃ n, P.within (c'.calls t) = some n := by
    cases hx : c'.calls t <;> simp_all [deadline, within]
  obtain ⟨n, hn⟩ := hin
  rw [hnow]
  rcases Step.within_cases P h hn with ⟨_, hd⟩ | ⟨k, m, _, _, _, _, hd, _⟩
  · exact ht t f (hd ▸ hf)
  · rw [hd] at hf
    cases hf
    omega

/-- A list of actions that can be taken leads from a reached state to one. -/
theorem reach_of_run {start : σ → Prop} {as : List (Act κ)} {c c' : Config σ κ π ρ ν}
    (hc : (P.system start).Reach c) (h : P.run c as = some c') : (P.system start).Reach c' := by
  induction as generalizing c with
  | nil => cases h; exact hc
  | cons a as ih =>
      obtain ⟨c₁, h₁, h₂⟩ := Option.bind_eq_some_iff.mp h
      exact ih (.step hc h₁) h₂

/-- A lease that has run out excludes nobody: two calls that need one lock are both
inside its section as soon as the lease of the first is over. -/
theorem reach_overlap {start : σ → Prop} {s : σ} (hs : start s) {k k' : κ}
    (hname : P.lockName k' = P.lockName k) :
    ∃ c, (P.system start).Reach c ∧ c.calls 0 = .inside k P.ttl (P.entry k) ∧
      c.calls 1 = .inside k' (P.ttl + P.ttl) (P.entry k') := by
  have hrun : ∃ c, P.run (.fresh s)
      [.begin 0 k, .begin 1 k', .acquire 0, .time P.ttl, .acquire 1] = some c ∧
      c.calls 0 = .inside k P.ttl (P.entry k) ∧
      c.calls 1 = .inside k' (P.ttl + P.ttl) (P.entry k') := by
    simp [run, act, Config.fresh, Config.setCall, Config.free, hname]
  obtain ⟨c, hrun, h0, h1⟩ := hrun
  exact ⟨c, P.reach_of_run (.start ⟨s, hs, rfl⟩) hrun, h0, h1⟩

/-- Actions that take no time make up a timely run. -/
theorem timely_of_run (hpos : 0 < P.ttl) {start : σ → Prop} {as : List (Act κ)}
    (has : ∀ a ∈ as, a.actor ≠ none) {c c' : Config σ κ π ρ ν}
    (hc : (P.timely start).Reach c) (h : P.run c as = some c') : (P.timely start).Reach c' := by
  induction as generalizing c with
  | nil => cases h; exact hc
  | cons a as ih =>
      obtain ⟨c₁, h₁, h₂⟩ := Option.bind_eq_some_iff.mp h
      have hstep := Step.of_act P h₁
      have ht : Timely c := (P.timely_held hc).1
      have hnow : c₁.now = c.now := by
        cases hstep with
        | time d => exact absurd rfl (has _ List.mem_cons_self)
        | begin | wait | giveUp | raise | crash => rfl
        | acquire | store | finish | release => rfl
      refine ih (fun b hb => has b (List.mem_cons_of_mem a hb)) (.step hc ⟨h₁, ht, ?_⟩) h₂
      exact Step.timely P hpos hstep hnow ht

/-- A list of actions that can be taken makes up a run. -/
theorem reach_of_runWith {ε : Type} {obs : Config σ κ π ρ ν → Act κ → List ε} {start : σ → Prop}
    {as : List (Act κ)} {c : Config σ κ π ρ ν} {h : List ε} {x : Config σ κ π ρ ν × List ε}
    (hc : ((P.system start).observe obs).Reach (c, h)) (hrun : P.runWith obs c h as = some x) :
    ((P.system start).observe obs).Reach x := by
  induction as generalizing c h with
  | nil => cases hrun; exact hc
  | cons a as ih =>
      obtain ⟨c₁, h₁, h₂⟩ := Option.bind_eq_some_iff.mp hrun
      exact ih (.step hc ⟨h₁, rfl⟩) h₂

/-- The actions of a single call make up an exclusive run, when no other call is inside its
section. -/
theorem exclusive_of_runWith {ε : Type} {obs : Config σ κ π ρ ν → Act κ → List ε}
    {start : σ → Prop} {G : Config σ κ π ρ ν → Act κ → Prop} {t : Nat} {as : List (Act κ)}
    (has : ∀ a ∈ as, a.actor = some t ∧ ∀ c, G c a) {c : Config σ κ π ρ ν} {h : List ε}
    {x : Config σ κ π ρ ν × List ε} (hidle : ∀ u, u ≠ t → P.within (c.calls u) = none)
    (hc : ((P.exclusive start G).observe obs).Reach (c, h))
    (hrun : P.runWith obs c h as = some x) : ((P.exclusive start G).observe obs).Reach x := by
  induction as generalizing c h with
  | nil => cases hrun; exact hc
  | cons a as ih =>
      obtain ⟨c₁, h₁, h₂⟩ := Option.bind_eq_some_iff.mp hrun
      obtain ⟨hact, hG⟩ := has a List.mem_cons_self
      have hx : P.Exclusive c a := by
        cases a with
        | acquire v =>
            intro k n hk _ u hin
            by_cases hu : u = t
            · cases hact; subst hu; simp [hk] at hin
            · simp [hidle u hu] at hin
        | time | begin | store | raise | release | crash => trivial
      refine ih (fun b hb => has b (List.mem_cons_of_mem a hb)) (fun u hu => ?_)
        (.step hc ⟨⟨h₁, hx, hG c⟩, rfl⟩) h₂
      rw [Step.calls_of_ne P (.of_act P h₁) (by rw [hact]; simpa using Ne.symm hu)]
      exact hidle u hu

/-- An exclusive run never has two calls inside one section. -/
theorem exclusive_alone {start : σ → Prop} {G : Config σ κ π ρ ν → Act κ → Prop}
    {c : Config σ κ π ρ ν} (h : (P.exclusive start G).Reach c) : P.Alone c := by
  refine System.Reach.invariant (I := P.Alone) ?_ ?_ h
  · rintro c ⟨s, _, rfl⟩ t u n hin _
    cases hin
  · rintro c a c' ha ⟨hs, hx, _⟩
    exact Step.alone P (.of_act P hs) hx ha

/-! ## Proof outlines -/

/-- A store invariant `I` and an assertion `A` for each program point, in the
manner of Owicki and Gries. -/
structure ProofOutline (I : σ → Prop) (A : κ → π → σ → Prop) : Prop where
  /-- The assertion of the entry point holds whenever the lock is taken. -/
  entry : ∀ k s, I s → A k (P.entry k) s
  /-- Every operation keeps the invariant. -/
  keeps : ∀ k p s, I s → A k p s → I (P.next s p).1
  /-- An operation leads to the assertion of the point it leads to. -/
  leads : ∀ k p p' s, I s → A k p s → (P.next s p).2 = .inl p' → A k p' (P.next s p).1
  /-- An operation under one lock keeps the assertions under the others. -/
  undisturbed : ∀ k p k' p' s, I s → A k p s → A k' p' s → P.lockName k ≠ P.lockName k' →
    A k' p' (P.next s p).1

/-- The invariant holds, and so does the assertion of every call inside. -/
def Annotated (I : σ → Prop) (A : κ → π → σ → Prop) (c : Config σ κ π ρ ν) : Prop :=
  I c.store ∧ ∀ t k f p, c.calls t = .inside k f p → A k p c.store

omit [DecidableEq ν] in
/-- A store operation under a proof outline.  The other calls inside hold other
locks, so their assertions survive. -/
theorem ProofOutline.store {I : σ → Prop} {A : κ → π → σ → Prop} (hP : P.ProofOutline I A)
    {c : Config σ κ π ρ ν} (ha : P.Alone c) (hA : Annotated I A c) {t : Nat} {k : κ} {f : Nat}
    {p : π} (hc : c.calls t = .inside k f p) :
    I (P.next c.store p).1 ∧ ∀ u k' f' p', u ≠ t → c.calls u = .inside k' f' p' →
      A k' p' (P.next c.store p).1 := by
  have hp : A k p c.store := hA.2 t k f p hc
  refine ⟨hP.keeps k p c.store hA.1 hp, fun u k' f' p' hut hu => ?_⟩
  have hne : P.lockName k ≠ P.lockName k' := by
    intro hname
    exact hut (ha u t (P.lockName k) (by simp [hu, hname]) (by simp [hc]))
  exact hP.undisturbed k p k' p' c.store hA.1 hp (hA.2 u k' f' p' hu) hne

/-- A step keeps an outline's invariant and assertions. -/
theorem ProofOutline.step {I : σ → Prop} {A : κ → π → σ → Prop} (hP : P.ProofOutline I A)
    {c c' : Config σ κ π ρ ν} {a : Act κ} (h : P.Step c a c') (ha : P.Alone c)
    (hA : Annotated I A c) : Annotated I A c' := by
  have hother : ∀ u k f p, a.actor ≠ some u → c'.calls u = .inside k f p →
      c.calls u = .inside k f p := by
    intro u k f p hu hin
    rwa [Step.calls_of_ne P h hu] at hin
  cases h with
  | time d => exact hA
  | @begin t _ _ | @wait t _ _ _ _ | @giveUp t _ _ _ _ | @raise t _ _ _ _
  | @release t _ _ _ _ | @crash t _ _ =>
      refine ⟨hA.1, fun u k f p hin => ?_⟩
      by_cases hu : u = t
      · subst hu; simp at hin
      · exact hA.2 u k f p (hother u k f p (fun h => hu (Option.some.inj h).symm) hin)
  | @acquire t k m hc hf =>
      refine ⟨hA.1, fun u k' f' p' hin => ?_⟩
      by_cases hu : u = t
      · subst hu
        simp only [Config.setCall_calls_self, Call.inside.injEq] at hin
        obtain ⟨rfl, _, rfl⟩ := hin
        exact hP.entry k c.store hA.1
      · exact hA.2 u k' f' p' (hother u k' f' p' (fun h => hu (Option.some.inj h).symm) hin)
  | @store t k f p s' p' hc hn =>
      obtain ⟨hI, hrest⟩ := hP.store P ha hA hc
      rw [hn] at hI hrest
      refine ⟨hI, fun u k' f' q hin => ?_⟩
      by_cases hu : u = t
      · subst hu
        simp only [Config.setCall_calls_self, Call.inside.injEq] at hin
        obtain ⟨rfl, _, rfl⟩ := hin
        have hlead := hP.leads k p p' c.store hA.1 (hA.2 _ k f p hc) (by rw [hn])
        rwa [hn] at hlead
      · exact hrest u k' f' q hu
          (hother u k' f' q (fun h => hu (Option.some.inj h).symm) hin)
  | @finish t k f p s' r hc hn =>
      obtain ⟨hI, hrest⟩ := hP.store P ha hA hc
      rw [hn] at hI hrest
      refine ⟨hI, fun u k' f' q hin => ?_⟩
      by_cases hu : u = t
      · subst hu; simp at hin
      · exact hrest u k' f' q hu
          (hother u k' f' q (fun h => hu (Option.some.inj h).symm) hin)

/-- A proof outline holds in every state an exclusive run reaches. -/
theorem ProofOutline.sound {I : σ → Prop} {A : κ → π → σ → Prop} (hP : P.ProofOutline I A)
    {start : σ → Prop} (h0 : ∀ s, start s → I s) {G : Config σ κ π ρ ν → Act κ → Prop}
    {c : Config σ κ π ρ ν} (h : (P.exclusive start G).Reach c) : Annotated I A c := by
  refine h.invariant_with (fun c hc => P.exclusive_alone hc) ?_ ?_
  · rintro c ⟨s, hs, rfl⟩
    exact ⟨h0 s hs, fun t k f p hin => (nomatch hin)⟩
  · rintro c a c' ha hA ⟨hs, _⟩
    exact hP.step P (.of_act P hs) ha hA

end LeaseProgram

end Basis
