import AutonomousEngine.Basis.Interleave
import Mathlib.Logic.Relation

/-!
# Programs that ask, and what they ask in turn

A `Program` asks questions one after the other and goes on as the answers say.
Whatever it does outside itself is a question: a call of a service, an effect, a
look at something that others change.  A `Raising` program may end in an error
instead of a result.

Between a question and its answer stands a `World`.  It says what an answer may
be and what it changes, and how the world drifts by itself between two
questions.  `World.run` has all the runs of a program in a world, with the log
of all questions and answers.

What a program asks in which order is said by a *protocol*, a relation between a
summary of what was asked so far, the next question with its answer, and the
summary after it.  `Program.Follows` says that a program keeps to a protocol
whatever it is answered.  This is shown function by function, without any world
(`follows_bind`, `meets_bind`), and what is true in a world then needs no look
at the program: an invariant of the summary, the store and the log that the
protocol's steps keep holds in every state of every run (`World.sound`).

A world that is an `Oracle` makes a program deterministic: what it is answered is
fixed, and `Program.turn` asks one question at a time.  Where the same question always
has the same answer, `Program.replies` has the whole run, and `Program.Yields` says of
any log whether a program ends with it.

Any number of programs may run at the same time over one store.  They are the
calls of a machine (`World.machine`), and each of them keeps to its protocol
whatever the others do (`World.machine_sound`).
-/

namespace Basis

/-! ## Programs -/

/-- A program over questions `ι` with answers `ω`. -/
inductive Program (ι : Type) (ω : ι → Type) (α : Type) where
  | done (a : α)
  | ask (i : ι) (next : ω i → Program ι ω α)

namespace Program

variable {ι : Type} {ω : ι → Type} {α β : Type}

/-- One program after another. -/
def bind : Program ι ω α → (α → Program ι ω β) → Program ι ω β
  | .done a, f => f a
  | .ask i next, f => .ask i fun a => (next a).bind f

instance : Monad (Program ι ω) where
  pure := .done
  bind := bind

@[simp] theorem pure_eq (a : α) : (pure a : Program ι ω α) = .done a := rfl

@[simp] theorem done_bind (a : α) (f : α → Program ι ω β) :
    (Program.done a : Program ι ω α) >>= f = f a := rfl

@[simp] theorem ask_bind (i : ι) (next : ω i → Program ι ω α) (f : α → Program ι ω β) :
    Program.ask i next >>= f = .ask i fun a => next a >>= f := rfl

end Program

/-- Answers that are fixed beforehand: the next time something is asked, `some` answer
comes at once, and with `none` the question stays open. -/
structure Oracle (ι : Type) (ω : ι → Type) where
  answer : Nat → (i : ι) → Option (ω i)
  asked : Nat := 0

/-- One turn of a program: it asks, or it returns its result. -/
def Program.turn {ι : Type} {ω : ι → Type} {α : Type} (o : Oracle ι ω) :
    Program ι ω α → Oracle ι ω × (Program ι ω α ⊕ α)
  | .done a => (o, .inr a)
  | .ask i next =>
      match o.answer o.asked i with
      | some a => ({ o with asked := o.asked + 1 }, .inl (next a))
      | none => ({ o with asked := o.asked + 1 }, .inl (.ask i next))

/-- A program that may end in an error. -/
abbrev Raising (ι : Type) (ω : ι → Type) (ε : Type) := ExceptT ε (Program ι ω)

/-- Asks one question. -/
def Raising.ask {ι : Type} {ω : ι → Type} {ε : Type} (i : ι) : Raising ι ω ε (ω i) :=
  .mk (.ask i fun a => .done (.ok a))

/-- Ends as an answer says that may be an error. -/
def Raising.raise {ι : Type} {ω : ι → Type} {ε α : Type} (r : Except ε α) : Raising ι ω ε α :=
  .mk (.done r)

/-! ## Protocols -/

/-- What may be asked after what: a summary, a question with its answer, and the
summary after it. -/
abbrev Protocol (ι : Type) (ω : ι → Type) (φ : Type) := φ → (i : ι) → ω i → φ → Prop

/-- The protocol whose summary is the log itself, with a condition on every log. -/
def Protocol.logs {ι : Type} {ω : ι → Type} (P : List (Σ i, ω i) → Prop) :
    Protocol ι ω (List (Σ i, ω i)) :=
  fun l i a l' => l' = l ++ [⟨i, a⟩] ∧ P l'

/-- A log along a protocol, from one summary to another. -/
inductive Protocol.Along {ι : Type} {ω : ι → Type} {φ : Type} (N : Protocol ι ω φ) (x : φ) :
    List (Σ i, ω i) → φ → Prop where
  | nil : Along N x [] x
  | snoc {l y i a z} : Along N x l y → N y i a z → Along N x (l ++ [⟨i, a⟩]) z

/-- The summary of the log protocol is the log, and the log meets the condition. -/
theorem Protocol.Along.of_logs {ι : Type} {ω : ι → Type} {P : List (Σ i, ω i) → Prop}
    {l l' : List (Σ i, ω i)} (h : (Protocol.logs P).Along [] l l') (h0 : P []) :
    l' = l ∧ P l := by
  induction h with
  | nil => exact ⟨rfl, h0⟩
  | snoc _ hN ih =>
      obtain ⟨rfl, hP⟩ := hN
      obtain ⟨rfl, -⟩ := ih
      exact ⟨rfl, hP⟩

section

variable {ι : Type} {ω : ι → Type} {φ ε α β : Type}

/-- A program keeps to a protocol from a summary on, whatever it is answered, and
ends with a result that fits the summary. -/
def Program.Follows (N : Protocol ι ω φ) : Program ι ω α → (α → φ → Prop) → φ → Prop
  | .done a, R, x => R a x
  | .ask i next, R, x => ∀ a, ∃ y, N x i a y ∧ (next a).Follows N R y

variable {N : Protocol ι ω φ}

theorem follows_bind {p : Program ι ω α} {f : α → Program ι ω β} {R : β → φ → Prop} {x : φ} :
    (p >>= f).Follows N R x ↔ p.Follows N (fun a y => (f a).Follows N R y) x := by
  induction p generalizing x with
  | done a => exact Iff.rfl
  | ask i next ih =>
      exact forall_congr' fun a => exists_congr fun y => and_congr_right fun _ => ih a

theorem Program.Follows.mono {p : Program ι ω α} {R R' : α → φ → Prop} {x : φ}
    (h : p.Follows N R x) (hR : ∀ a y, R a y → R' a y) : p.Follows N R' x := by
  induction p generalizing x with
  | done a => exact hR a x h
  | ask i next ih =>
      intro a
      obtain ⟨y, hN, hy⟩ := h a
      exact ⟨y, hN, ih a hy⟩

/-! ## Programs that may end in an error -/

/-- A result that fits a summary, or an error that does. -/
def Ending (Q : α → φ → Prop) (E : ε → φ → Prop) : Except ε α → φ → Prop
  | .ok a, x => Q a x
  | .error e, x => E e x

@[simp] theorem ending_ok {Q : α → φ → Prop} {E : ε → φ → Prop} {a : α} {x : φ} :
    Ending Q E (.ok a) x ↔ Q a x := Iff.rfl

@[simp] theorem ending_error {Q : α → φ → Prop} {E : ε → φ → Prop} {e : ε} {x : φ} :
    Ending Q E (.error e : Except ε α) x ↔ E e x := Iff.rfl

/-- `Follows` with a condition for results and one for errors. -/
def Meets (N : Protocol ι ω φ) (x : φ) (p : Raising ι ω ε α) (Q : α → φ → Prop)
    (E : ε → φ → Prop) : Prop :=
  p.run.Follows N (Ending Q E) x

variable {x : φ} {Q : α → φ → Prop} {E : ε → φ → Prop}

@[simp] theorem meets_pure {a : α} :
    Meets N x (pure a : Raising ι ω ε α) Q E ↔ Q a x := Iff.rfl

@[simp] theorem meets_throw {e : ε} :
    Meets N x (throw e : Raising ι ω ε α) Q E ↔ E e x := Iff.rfl

@[simp] theorem meets_raise {r : Except ε α} :
    Meets N x (Raising.raise r : Raising ι ω ε α) Q E ↔ Ending Q E r x := Iff.rfl

@[simp] theorem meets_bind {p : Raising ι ω ε β} {f : β → Raising ι ω ε α} :
    Meets N x (p >>= f) Q E ↔ Meets N x p (fun b y => Meets N y (f b) Q E) E := by
  have hrun : (p >>= f).run = p.run >>= ExceptT.bindCont f := rfl
  unfold Meets
  rw [hrun, follows_bind]
  refine ⟨fun h => h.mono fun r y hr => ?_, fun h => h.mono fun r y hr => ?_⟩
  · cases r with
    | ok b => exact hr
    | error e => exact hr
  · cases r with
    | ok b => exact hr
    | error e => exact hr

@[simp] theorem meets_tryCatch {p : Raising ι ω ε α} {h : ε → Raising ι ω ε α} :
    Meets N x (tryCatch p h) Q E ↔ Meets N x p Q fun e y => Meets N y (h e) Q E := by
  have hrun : (tryCatch p h).run =
      p.run >>= fun r => match r with
        | .ok a => .done (.ok a)
        | .error e => (h e).run := rfl
  unfold Meets
  rw [hrun, follows_bind]
  refine ⟨fun h => h.mono fun r y hr => ?_, fun h => h.mono fun r y hr => ?_⟩
  · cases r with
    | ok b => exact hr
    | error e => exact hr
  · cases r with
    | ok b => exact hr
    | error e => exact hr

/-- A condition on the ending of a program, split into the two ways it may end. -/
theorem follows_run {p : Raising ι ω ε α} {R : Except ε α → φ → Prop} :
    p.run.Follows N R x ↔ Meets N x p (fun a => R (.ok a)) fun e => R (.error e) := by
  refine ⟨fun h => h.mono fun r y hr => ?_, fun h => h.mono fun r y hr => ?_⟩
  · cases r with
    | ok a => exact hr
    | error e => exact hr
  · cases r with
    | ok a => exact hr
    | error e => exact hr

theorem Meets.mono {p : Raising ι ω ε α} {Q' : α → φ → Prop} {E' : ε → φ → Prop}
    (h : Meets N x p Q E) (hQ : ∀ a y, Q a y → Q' a y) (hE : ∀ e y, E e y → E' e y) :
    Meets N x p Q' E' := by
  refine Program.Follows.mono h fun r y hr => ?_
  cases r with
  | ok a => exact hQ a y hr
  | error e => exact hE e y hr

end

/-! ## Finished runs -/

section

variable {ι : Type} {ω : ι → Type} {φ α β : Type}

/-- A log of questions and answers with which a program ends, and its result. -/
def Program.Yields : Program ι ω α → List (Σ i, ω i) → α → Prop
  | .done a, l, b => l = [] ∧ a = b
  | .ask i next, l, b => ∃ a l', l = ⟨i, a⟩ :: l' ∧ (next a).Yields l' b

@[simp] theorem yields_done {a b : α} {l : List (Σ i, ω i)} :
    (Program.done a : Program ι ω α).Yields l b ↔ l = [] ∧ a = b := Iff.rfl

@[simp] theorem yields_ask {i : ι} {next : ω i → Program ι ω α} {l : List (Σ i, ω i)} {b : α} :
    (Program.ask i next).Yields l b ↔ ∃ a l', l = ⟨i, a⟩ :: l' ∧ (next a).Yields l' b := Iff.rfl

/-- The log of one program after another falls into the logs of the two. -/
theorem yields_bind {p : Program ι ω α} {g : α → Program ι ω β} {l : List (Σ i, ω i)} {b : β} :
    (p >>= g).Yields l b ↔
      ∃ a l₁ l₂, l = l₁ ++ l₂ ∧ p.Yields l₁ a ∧ (g a).Yields l₂ b := by
  induction p generalizing l with
  | done a =>
      constructor
      · intro h
        exact ⟨a, [], l, rfl, ⟨rfl, rfl⟩, h⟩
      · rintro ⟨_, _, l₂, rfl, ⟨rfl, rfl⟩, h⟩
        exact h
  | ask i next ih =>
      constructor
      · rintro ⟨c, l', rfl, h⟩
        obtain ⟨a, l₁, l₂, rfl, h₁, h₂⟩ := (ih c).mp h
        exact ⟨a, ⟨i, c⟩ :: l₁, l₂, rfl, ⟨c, l₁, rfl, h₁⟩, h₂⟩
      · rintro ⟨a, _, l₂, rfl, ⟨c, l₁, rfl, h₁⟩, h₂⟩
        exact ⟨c, l₁ ++ l₂, rfl, (ih c).mpr ⟨a, l₁, l₂, rfl, h₁, h₂⟩⟩

/-- A program that keeps to a protocol does so with the log of every finished run. -/
theorem Program.Follows.yields {N : Protocol ι ω φ} {R : α → φ → Prop} {p : Program ι ω α}
    {x y : φ} {l₀ l : List (Σ i, ω i)} {a : α} (h : p.Follows N R y) (hl₀ : N.Along x l₀ y)
    (hl : p.Yields l a) : ∃ z, N.Along x (l₀ ++ l) z ∧ R a z := by
  induction p generalizing l₀ l y with
  | done b =>
      obtain ⟨rfl, rfl⟩ := hl
      exact ⟨y, by simpa using hl₀, h⟩
  | ask i next ih =>
      obtain ⟨c, l', rfl, hl'⟩ := hl
      obtain ⟨z, hN, hz⟩ := h c
      obtain ⟨w, hw, hR⟩ := ih c hz (.snoc hl₀ hN) hl'
      exact ⟨w, by simpa using hw, hR⟩

end

/-! ## Answers from a function -/

section

variable {ι : Type} {ω : ι → Type} {φ ε α β : Type}

/-- The result of a program whose questions a function answers, and the log. -/
def Program.replies (f : (i : ι) → ω i) : Program ι ω α → α × List (Σ i, ω i)
  | .done a => (a, [])
  | .ask i next =>
      let r := (next (f i)).replies f
      (r.1, ⟨i, f i⟩ :: r.2)

/-- A program that ends with a result, the log on the way meeting a condition. -/
def Gives (f : (i : ι) → ω i) (p : Raising ι ω ε α) (a : α)
    (L : List (Σ i, ω i) → Prop) : Prop :=
  ∃ l, p.run.replies f = (.ok a, l) ∧ L l

variable {f : (i : ι) → ω i}

theorem replies_bind {p : Program ι ω α} {g : α → Program ι ω β} :
    (p >>= g).replies f =
      (((g (p.replies f).1).replies f).1, (p.replies f).2 ++ ((g (p.replies f).1).replies f).2) := by
  induction p with
  | done a => rfl
  | ask i next ih =>
      simp only [Program.ask_bind, Program.replies, ih, List.cons_append]

theorem gives_pure {a : α} {L : List (Σ i, ω i) → Prop} (h : L []) :
    Gives f (pure a : Raising ι ω ε α) a L :=
  ⟨[], rfl, h⟩

theorem gives_bind {p : Raising ι ω ε α} {g : α → Raising ι ω ε β} {a : α} {b : β}
    {L L' : List (Σ i, ω i) → Prop} (hp : Gives f p a L)
    (hg : ∀ l, L l → Gives f (g a) b fun l' => L' (l ++ l')) : Gives f (p >>= g) b L' := by
  obtain ⟨l, hl, hL⟩ := hp
  obtain ⟨l', hl', hL'⟩ := hg l hL
  refine ⟨l ++ l', ?_, hL'⟩
  have hrun : (p >>= g).run = p.run >>= ExceptT.bindCont g := rfl
  have hcont : ExceptT.bindCont g (.ok a) = (g a).run := rfl
  rw [hrun, replies_bind, hl]
  simp only [hcont, hl']

theorem Gives.mono {p : Raising ι ω ε α} {a : α} {L L' : List (Σ i, ω i) → Prop}
    (h : Gives f p a L) (hL : ∀ l, L l → L' l) : Gives f p a L' := by
  obtain ⟨l, hl, h⟩ := h
  exact ⟨l, hl, hL l h⟩

theorem yields_replies (p : Program ι ω α) : p.Yields (p.replies f).2 (p.replies f).1 := by
  induction p with
  | done a => exact ⟨rfl, rfl⟩
  | ask i next ih => exact ⟨f i, _, rfl, ih (f i)⟩

theorem Gives.yields {p : Raising ι ω ε α} {a : α} {L : List (Σ i, ω i) → Prop}
    (h : Gives f p a L) : ∃ l, p.run.Yields l (.ok a) ∧ L l := by
  obtain ⟨l, hl, hL⟩ := h
  have hy := yields_replies (f := f) p.run
  rw [hl] at hy
  exact ⟨l, hy, hL⟩

end

/-! ## Worlds and runs -/

/-- What answers a program and what changes meanwhile. -/
structure World (σ ι : Type) (ω : ι → Type) where
  /-- What changes by itself. -/
  drift : σ → σ → Prop
  /-- The answers to a question, and the store after each. -/
  answer : σ → (i : ι) → ω i → σ → Prop

/-- The store, the questions so far with their answers, and what is left of the
program. -/
structure Conf (σ ι : Type) (ω : ι → Type) (α : Type) where
  store : σ
  log : List (Σ i, ω i)
  rest : Program ι ω α

namespace World

variable {σ ι : Type} {ω : ι → Type} {φ α : Type}

/-- One step of a run: a question is answered, or the store drifts. -/
inductive Step (W : World σ ι ω) : Conf σ ι ω α → Option (Σ i, ω i) → Conf σ ι ω α → Prop where
  | answer {s l i next a s'} : W.answer s i a s' →
      W.Step ⟨s, l, .ask i next⟩ (some ⟨i, a⟩) ⟨s', l ++ [⟨i, a⟩], next a⟩
  | drift {s l p s'} : W.drift s s' → W.Step ⟨s, l, p⟩ none ⟨s', l, p⟩

/-- The runs of a program in a world. -/
def run (W : World σ ι ω) (init : σ → Prop) (p : Program ι ω α) :
    System (Conf σ ι ω α) (Option (Σ i, ω i)) where
  start c := init c.store ∧ c.log = [] ∧ c.rest = p
  step := W.Step

/-- A condition on the answers: the store before, the question with its answer,
and the store after. -/
def answers (G : σ → (i : ι) → ω i → σ → Prop) (c : Conf σ ι ω α) :
    Option (Σ i, ω i) → Conf σ ι ω α → Prop
  | none, _ => True
  | some ⟨i, a⟩, c' => G c.store i a c'.store

/-- Every run is a run under no condition. -/
theorem reach_unconditional {W : World σ ι ω} {init : σ → Prop} {p : Program ι ω α}
    {c : Conf σ ι ω α} (h : (W.run init p).Reach c) :
    ((W.run init p).restrict (answers fun _ _ _ _ => True)).Reach c :=
  h.restrict_of_forall fun _ a _ _ => match a with
    | none => trivial
    | some _ => trivial

/-- A condition on the drifts and on the answers that may also look at the log. -/
def within (D : List (Σ i, ω i) → σ → σ → Prop)
    (G : List (Σ i, ω i) → σ → (i : ι) → ω i → σ → Prop) (c : Conf σ ι ω α) :
    Option (Σ i, ω i) → Conf σ ι ω α → Prop
  | none, c' => D c.log c.store c'.store
  | some ⟨i, a⟩, c' => G c.log c.store i a c'.store

/-- Under a condition on the answers that keeps an invariant, the runs meet what
follows from both. -/
theorem reach_within {W : World σ ι ω} {init : σ → Prop} {p : Program ι ω α}
    {G : σ → (i : ι) → ω i → σ → Prop} {D : List (Σ i, ω i) → σ → σ → Prop}
    {H : List (Σ i, ω i) → σ → (i : ι) → ω i → σ → Prop} (I : σ → List (Σ i, ω i) → Prop)
    (h0 : ∀ s, init s → I s [])
    (hdrift : ∀ s l s', I s l → W.drift s s' → I s' l ∧ D l s s')
    (hstep : ∀ s l i a s', I s l → W.answer s i a s' → G s i a s' →
      I s' (l ++ [⟨i, a⟩]) ∧ H l s i a s')
    {c : Conf σ ι ω α} (h : ((W.run init p).restrict (answers G)).Reach c) :
    ((W.run init p).restrict (within D H)).Reach c ∧ I c.store c.log := by
  induction h with
  | start h => exact ⟨.start h, h.2.1 ▸ h0 _ h.1⟩
  | step _ h ih =>
      obtain ⟨hs, hG⟩ := h
      obtain ⟨hr, hI⟩ := ih
      cases hs with
      | answer ha =>
          obtain ⟨hI', hH⟩ := hstep _ _ _ _ _ hI ha hG
          exact ⟨.step hr ⟨.answer ha, hH⟩, hI'⟩
      | drift hd =>
          obtain ⟨hI', hD⟩ := hdrift _ _ _ hI hd
          exact ⟨.step hr ⟨.drift hd, hD⟩, hI'⟩

/-- What a condition says of each question and its answer holds of the log. -/
theorem forall_log {W : World σ ι ω} {init : σ → Prop} {p : Program ι ω α}
    {G : σ → (i : ι) → ω i → σ → Prop} {P : (Σ i, ω i) → Prop}
    (hP : ∀ s i a s', G s i a s' → P ⟨i, a⟩) {c : Conf σ ι ω α}
    (h : ((W.run init p).restrict (answers G)).Reach c) : ∀ e ∈ c.log, P e := by
  induction h with
  | start h =>
      intro e he
      rw [h.2.1] at he
      cases he
  | step _ h ih =>
      obtain ⟨hs, hG⟩ := h
      cases hs with
      | answer _ =>
          intro e he
          rcases List.mem_append.mp he with he | he
          · exact ih e he
          · obtain rfl := List.mem_singleton.mp he
            exact hP _ _ _ _ hG
      | drift _ => exact ih

/-- A program that keeps to a protocol is accompanied by the protocol's summary
through every run, and an invariant that the protocol's steps and the drift keep
holds in every state. -/
theorem sound_within {W : World σ ι ω} {D : List (Σ i, ω i) → σ → σ → Prop}
    {G : List (Σ i, ω i) → σ → (i : ι) → ω i → σ → Prop} {N : Protocol ι ω φ}
    {I : φ → σ → List (Σ i, ω i) → Prop} {init : σ → Prop}
    {p : Program ι ω α} {R : α → φ → Prop} {x : φ} (h0 : ∀ s, init s → I x s [])
    (hdrift : ∀ {x s l s'}, I x s l → W.drift s s' → D l s s' → I x s' l)
    (hstep : ∀ {x s l i a y s'}, I x s l → N x i a y → W.answer s i a s' → G l s i a s' →
      I y s' (l ++ [⟨i, a⟩]))
    (hp : p.Follows N R x) {c : Conf σ ι ω α}
    (h : ((W.run init p).restrict (within D G)).Reach c) :
    ∃ y, I y c.store c.log ∧ c.rest.Follows N R y := by
  induction h with
  | start h =>
      obtain ⟨hs, hl, hr⟩ := h
      exact ⟨x, hl ▸ h0 _ hs, hr ▸ hp⟩
  | step _ h ih =>
      obtain ⟨hs, hc⟩ := h
      obtain ⟨y, hI, hf⟩ := ih
      cases hs with
      | answer ha =>
          obtain ⟨z, hN, hz⟩ := hf _
          exact ⟨z, hstep hI hN ha hc, hz⟩
      | drift hd => exact ⟨y, hdrift hI hd hc, hf⟩

/-- The same with a condition that does not look at the log. -/
theorem sound {W : World σ ι ω} {G : σ → (i : ι) → ω i → σ → Prop} {N : Protocol ι ω φ}
    {I : φ → σ → List (Σ i, ω i) → Prop} {init : σ → Prop} {p : Program ι ω α}
    {R : α → φ → Prop} {x : φ} (h0 : ∀ s, init s → I x s [])
    (hdrift : ∀ {x s l s'}, I x s l → W.drift s s' → I x s' l)
    (hstep : ∀ {x s l i a y s'}, I x s l → N x i a y → W.answer s i a s' → G s i a s' →
      I y s' (l ++ [⟨i, a⟩]))
    (hp : p.Follows N R x) {c : Conf σ ι ω α}
    (h : ((W.run init p).restrict (answers G)).Reach c) :
    ∃ y, I y c.store c.log ∧ c.rest.Follows N R y :=
  sound_within (D := fun _ _ _ => True) (G := fun _ => G) h0 (fun hI hd _ => hdrift hI hd) hstep hp
    (reach_within (fun _ _ => True) (fun _ _ => trivial) (fun _ _ _ _ _ => ⟨trivial, trivial⟩)
      (fun _ _ _ _ _ _ _ hG => ⟨trivial, hG⟩) h).1

/-! ## Single runs -/

section

variable {W : World σ ι ω} {G : σ → (i : ι) → ω i → σ → Prop} {init : σ → Prop}
  {p : Program ι ω α} {s s' : σ} {l : List (Σ i, ω i)} {q : Program ι ω α}

/-- A program that has yet to ask is answered. -/
theorem reach_answer {i : ι} {next : ω i → Program ι ω α} {a : ω i}
    (h : ((W.run init p).restrict (answers G)).Reach ⟨s, l, q⟩) (hq : q = .ask i next)
    (ha : W.answer s i a s') (hG : G s i a s') :
    ((W.run init p).restrict (answers G)).Reach ⟨s', l ++ [⟨i, a⟩], next a⟩ := by
  subst hq
  exact .step h ⟨.answer ha, hG⟩

/-- The world drifts. -/
theorem reach_drift (h : ((W.run init p).restrict (answers G)).Reach ⟨s, l, q⟩)
    (hd : W.drift s s') : ((W.run init p).restrict (answers G)).Reach ⟨s', l, q⟩ :=
  .step h ⟨.drift hd, trivial⟩

end

/-! ## Runs that may happen -/

section

variable {ε β : Type}

/-- A program may come, from a store and a log on, to a state that meets a target, or
may end with a result, a store and a log that meet a condition.  Drifts may happen
at any time. -/
def May (W : World σ ι ω) (G : σ → (i : ι) → ω i → σ → Prop) (T : σ → List (Σ i, ω i) → Prop) :
    Program ι ω α → (α → σ → List (Σ i, ω i) → Prop) → σ → List (Σ i, ω i) → Prop
  | .done a, P, s, l => ∃ s', Relation.ReflTransGen W.drift s s' ∧ (T s' l ∨ P a s' l)
  | .ask i next, P, s, l => ∃ s', Relation.ReflTransGen W.drift s s' ∧ (T s' l ∨
      ∃ a s'', W.answer s' i a s'' ∧ G s' i a s'' ∧ W.May G T (next a) P s'' (l ++ [⟨i, a⟩]))

variable {W : World σ ι ω} {G : σ → (i : ι) → ω i → σ → Prop} {T : σ → List (Σ i, ω i) → Prop}
  {s s' : σ} {l : List (Σ i, ω i)}

theorem may_stop {p : Program ι ω α} {P : α → σ → List (Σ i, ω i) → Prop} (h : T s l) :
    W.May G T p P s l := by
  cases p with
  | done a => exact ⟨s, .refl, .inl h⟩
  | ask i next => exact ⟨s, .refl, .inl h⟩

theorem may_drift {p : Program ι ω α} {P : α → σ → List (Σ i, ω i) → Prop}
    (hd : Relation.ReflTransGen W.drift s s') (h : W.May G T p P s' l) : W.May G T p P s l := by
  cases p with
  | done a =>
      obtain ⟨t, ht, hrest⟩ := h
      exact ⟨t, hd.trans ht, hrest⟩
  | ask i next =>
      obtain ⟨t, ht, hrest⟩ := h
      exact ⟨t, hd.trans ht, hrest⟩

theorem may_mono {p : Program ι ω α} {P P' : α → σ → List (Σ i, ω i) → Prop}
    (h : W.May G T p P s l) (hP : ∀ a s l, P a s l → P' a s l) : W.May G T p P' s l := by
  induction p generalizing s l with
  | done a =>
      obtain ⟨t, ht, ha⟩ := h
      exact ⟨t, ht, ha.imp id (hP a t l)⟩
  | ask i next ih =>
      obtain ⟨t, ht, hrest⟩ := h
      refine ⟨t, ht, hrest.imp id ?_⟩
      rintro ⟨a, s'', ha, hG, hnext⟩
      exact ⟨a, s'', ha, hG, ih a hnext⟩

theorem may_bind {p : Program ι ω β} {f : β → Program ι ω α}
    {P : α → σ → List (Σ i, ω i) → Prop} (h : W.May G T p (fun b => W.May G T (f b) P) s l) :
    W.May G T (p >>= f) P s l := by
  induction p generalizing s l with
  | done b =>
      obtain ⟨t, ht, hT | hf⟩ := h
      · exact may_drift ht (may_stop hT)
      · exact may_drift ht hf
  | ask i next ih =>
      obtain ⟨t, ht, hrest⟩ := h
      refine ⟨t, ht, hrest.imp id ?_⟩
      rintro ⟨a, s'', ha, hG, hnext⟩
      exact ⟨a, s'', ha, hG, ih a hnext⟩

/-- What may happen is reached. -/
theorem reach_of_may {init : σ → Prop} {p q : Program ι ω α}
    {P : α → σ → List (Σ i, ω i) → Prop}
    (hr : ((W.run init p).restrict (answers G)).Reach ⟨s, l, q⟩) (h : W.May G T q P s l) :
    ∃ c, ((W.run init p).restrict (answers G)).Reach c ∧
      (T c.store c.log ∨ ∃ a, c.rest = .done a ∧ P a c.store c.log) := by
  have hdrift {s s' : σ} {l : List (Σ i, ω i)} {q : Program ι ω α}
      (hr : ((W.run init p).restrict (answers G)).Reach ⟨s, l, q⟩)
      (hd : Relation.ReflTransGen W.drift s s') :
      ((W.run init p).restrict (answers G)).Reach ⟨s', l, q⟩ := by
    induction hd with
    | refl => exact hr
    | tail _ hd ih => exact reach_drift ih hd
  induction q generalizing s l with
  | done a =>
      obtain ⟨t, ht, hrest⟩ := h
      exact ⟨_, hdrift hr ht, hrest.imp id fun hP => ⟨a, rfl, hP⟩⟩
  | ask i next ih =>
      obtain ⟨t, ht, hT | ⟨a, s'', ha, hG, hnext⟩⟩ := h
      · exact ⟨_, hdrift hr ht, .inl hT⟩
      · exact ih a (reach_answer (hdrift hr ht) rfl ha hG) hnext

/-- The same for a program that may end in an error. -/
def Can (W : World σ ι ω) (G : σ → (i : ι) → ω i → σ → Prop) (T : σ → List (Σ i, ω i) → Prop)
    (p : Raising ι ω ε α) (Q : α → σ → List (Σ i, ω i) → Prop)
    (E : ε → σ → List (Σ i, ω i) → Prop) (s : σ) (l : List (Σ i, ω i)) : Prop :=
  W.May G T p.run (fun | .ok a => Q a | .error e => E e) s l

variable {Q : α → σ → List (Σ i, ω i) → Prop} {E : ε → σ → List (Σ i, ω i) → Prop}

theorem can_stop {p : Raising ι ω ε α} (h : T s l) : W.Can G T p Q E s l :=
  may_stop h

theorem can_pure {a : α} (h : Q a s l) : W.Can G T (pure a : Raising ι ω ε α) Q E s l :=
  ⟨s, .refl, .inr h⟩

theorem can_throw {e : ε} (h : E e s l) : W.Can G T (throw e : Raising ι ω ε α) Q E s l :=
  ⟨s, .refl, .inr h⟩

theorem can_ask {i : ι} {Q : ω i → σ → List (Σ i, ω i) → Prop} (a : ω i) {s' : σ}
    (ha : W.answer s i a s') (hG : G s i a s') (h : Q a s' (l ++ [⟨i, a⟩])) :
    W.Can G T (Raising.ask i : Raising ι ω ε (ω i)) Q E s l :=
  ⟨s, .refl, .inr ⟨a, s', ha, hG, s', .refl, .inr h⟩⟩

theorem can_drift {p : Raising ι ω ε α} (hd : W.drift s s') (h : W.Can G T p Q E s' l) :
    W.Can G T p Q E s l :=
  may_drift (.single hd) h

theorem can_bind {p : Raising ι ω ε β} {f : β → Raising ι ω ε α}
    (h : W.Can G T p (fun b => W.Can G T (f b) Q E) E s l) : W.Can G T (p >>= f) Q E s l := by
  refine may_bind (f := ExceptT.bindCont f) (may_mono h fun r s l hr => ?_)
  cases r with
  | ok b => exact hr
  | error e => exact ⟨s, .refl, .inr hr⟩

theorem can_tryCatch {p : Raising ι ω ε α} {h : ε → Raising ι ω ε α}
    (hp : W.Can G T p Q (fun e => W.Can G T (h e) Q E) s l) :
    W.Can G T (tryCatch p h) Q E s l := by
  have hrun : (tryCatch p h).run =
      p.run >>= fun r => match r with
        | .ok a => .done (.ok a)
        | .error e => (h e).run := by
    refine congrArg (p.run >>= ·) (funext fun r => ?_)
    cases r with
    | ok a => rfl
    | error e => rfl
  unfold Can
  rw [hrun]
  refine may_bind (may_mono hp fun r s l hr => ?_)
  cases r with
  | ok a => exact ⟨s, .refl, .inr hr⟩
  | error e => exact hr

/-- A target that may be met is met in a state that is reached. -/
theorem reach_of_can {init : σ → Prop} {p : Raising ι ω ε α} (hs : init s)
    (h : W.Can G T p (fun _ => T) (fun _ => T) s []) :
    ∃ c, ((W.run init p.run).restrict (answers G)).Reach c ∧ T c.store c.log := by
  obtain ⟨c, hr, hT | ⟨a, -, hP⟩⟩ := reach_of_may (.start ⟨hs, rfl, rfl⟩) h
  · exact ⟨c, hr, hT⟩
  · refine ⟨c, hr, ?_⟩
    cases a with
    | ok a => exact hP
    | error e => exact hP

/-- A result that may come about, and nothing else to aim at, is reached. -/
theorem reach_of_can_done {init : σ → Prop} {p : Raising ι ω ε α} (hs : init s)
    (h : W.Can G (fun _ _ => False) p Q E s []) :
    ∃ c a, ((W.run init p.run).restrict (answers G)).Reach c ∧ c.rest = .done a ∧
      (match a with | .ok a => Q a | .error e => E e) c.store c.log := by
  obtain ⟨c, hr, hT | ⟨a, ha, hP⟩⟩ := reach_of_may (.start ⟨hs, rfl, rfl⟩) h
  · exact hT.elim
  · exact ⟨c, a, hr, ha, hP⟩

end

/-! ## Many runs over one store -/

section

variable {κ ρ : Type}

/-- The accesses of a running program: a question that is answered, or the return
of the result. -/
inductive Access (W : World σ ι ω) : σ → List (Σ i, ω i) × Program ι ω ρ → σ →
    (List (Σ i, ω i) × Program ι ω ρ) ⊕ (List (Σ i, ω i) × ρ) → Prop where
  | ask {s l i next a s'} : W.answer s i a s' →
      W.Access s (l, .ask i next) s' (.inl (l ++ [⟨i, a⟩], next a))
  | done {s l b} : W.Access s (l, .done b) s (.inr (l, b))

/-- Programs as calls of a machine.  Each has a log of its own. -/
def machine (W : World σ ι ω) (prog : κ → Program ι ω ρ) :
    Machine σ κ (List (Σ i, ω i) × Program ι ω ρ) (List (Σ i, ω i) × ρ) where
  entry c := ([], prog c)
  access := W.Access
  idle := W.drift

/-- A condition on the questions that are answered: the store before, the
question, and the store after. -/
def questions (G : σ → ι → σ → Prop) (p : Pool σ κ (List (Σ i, ω i) × Program ι ω ρ)
    (List (Σ i, ω i) × ρ)) : PoolAct κ → σ → Prop
  | .access c, s => ∀ j i next, p.jobs c = some j → j.point.2 = .ask i next → G p.store i s
  | _, _ => True

/-- Programs that keep to protocols do so side by side.  An invariant of the store
that the steps of all protocols and the drift keep holds in every state. -/
theorem machine_sound {W : World σ ι ω} {prog : κ → Program ι ω ρ} {G : σ → ι → σ → Prop}
    {N : κ → Protocol ι ω φ} {x : κ → φ} {R : κ → ρ → φ → Prop} {I : σ → Prop} {init : σ → Prop}
    (hp : ∀ c, (prog c).Follows (N c) (R c) (x c)) (h0 : ∀ s, init s → I s)
    (hdrift : ∀ {s s'}, I s → W.drift s s' → I s')
    (hstep : ∀ {c y i a z s s'}, I s → N c y i a z → W.answer s i a s' → G s i s' → I s')
    {p : Pool σ κ (List (Σ i, ω i) × Program ι ω ρ) (List (Σ i, ω i) × ρ)}
    (h : (((W.machine prog).pool init).restrict (guarded (questions G))).Reach p) :
    (I p.store ∧ ∀ d ∈ p.log, ∃ y, (N d.call).Along (x d.call) d.answer.1 y ∧
      R d.call d.answer.2 y) ∧
    ∀ k j, p.jobs k = some j → ∃ y, (N j.call).Along (x j.call) j.point.1 y ∧
      j.point.2.Follows (N j.call) (R j.call) y := by
  refine Machine.outline_sound
    (I := fun s l => I s ∧ ∀ d ∈ l, ∃ y, (N d.call).Along (x d.call) d.answer.1 y ∧
      R d.call d.answer.2 y)
    (A := fun _ _ j => ∃ y, (N j.call).Along (x j.call) j.point.1 y ∧
      j.point.2.Follows (N j.call) (R j.call) y) ?_ ?_ h
  · refine ⟨fun c _ => ⟨x c, .nil, hp c⟩, ?_, ?_, ?_⟩
    · intro p k c n q s q' hG hI hA hj ha
      obtain ⟨hI, hl⟩ := hI
      obtain ⟨y, hy, hf⟩ := hA
      generalize hr : (Sum.inl q' : _ ⊕ (List (Σ i, ω i) × ρ)) = r at ha
      cases ha with
      | ask ha =>
          obtain rfl := Sum.inl.inj hr
          obtain ⟨z, hN, hz⟩ := hf _
          exact ⟨⟨hstep hI hN ha (hG _ _ _ hj rfl), hl⟩, ⟨z, .snoc hy hN, hz⟩,
            fun _ _ _ _ hA => hA⟩
      | done => cases hr
    · intro p k c n q s a hG hI hA hj ha
      obtain ⟨hI, hl⟩ := hI
      obtain ⟨y, hy, hf⟩ := hA
      generalize hr : (Sum.inr a : (List (Σ i, ω i) × Program ι ω ρ) ⊕ _) = r at ha
      cases ha with
      | ask _ => cases hr
      | done =>
          obtain rfl := Sum.inr.inj hr
          refine ⟨⟨hI, fun d hd => ?_⟩, fun _ _ _ _ hA => hA⟩
          rcases List.mem_append.mp hd with hd | hd
          · exact hl d hd
          · obtain rfl := List.mem_singleton.mp hd
            exact ⟨y, hy, hf⟩
    · intro p s _ hI hd
      exact ⟨⟨hdrift hI.1 hd, hI.2⟩, fun _ _ _ hA => hA⟩
  · intro s hs
    exact ⟨h0 s hs, fun d hd => absurd hd List.not_mem_nil⟩

/-- A run of one program is a run of the machine in which nothing else is called. -/
theorem machine_of_run {W : World σ ι ω} {prog : κ → Program ι ω ρ} {init : σ → Prop} {k : κ}
    {G : σ → (i : ι) → ω i → σ → Prop} {G' : σ → ι → σ → Prop}
    (hG : ∀ {s i a s'}, G s i a s' → G' s i s') {c : Conf σ ι ω ρ}
    (h : ((W.run init (prog k)).restrict (answers G)).Reach c) :
    (((W.machine prog).pool init).restrict (guarded (questions G'))).Reach
      ⟨c.store, Function.update (fun _ => none) 0 (some ⟨k, 0, (c.log, c.rest)⟩), []⟩ := by
  induction h with
  | @start c h =>
      obtain ⟨hs, hl, hr⟩ := h
      have hstart : (((W.machine prog).pool init).restrict (guarded (questions G'))).Reach
          ⟨c.store, fun _ => none, []⟩ := .start ⟨hs, fun _ => rfl, rfl⟩
      rw [hl, hr]
      exact .step hstart ⟨.enter (i := 0) (c := k) rfl, trivial⟩
  | step _ h ih =>
      obtain ⟨hs, hans⟩ := h
      cases hs with
      | @answer s l i next a s' ha =>
          have hjob : Function.update (fun _ => none) 0 (some ⟨k, 0, (l, Program.ask i next)⟩) 0 =
              some (⟨k, 0, (l, Program.ask i next)⟩ : Job κ _) := Function.update_self ..
          have hstep := Machine.PoolStep.access (M := W.machine prog)
            (p := ⟨s, Function.update (fun _ => none) 0 (some ⟨k, 0, (l, .ask i next)⟩), []⟩)
            (i := 0) hjob (.ask ha)
          rw [Function.update_idem] at hstep
          refine System.Reach.step ih ⟨hstep, ?_⟩
          intro j i' next' hj hask
          obtain rfl := Option.some.inj (hjob.symm.trans hj)
          injection hask with hi
          exact hi ▸ hG hans
      | drift hd => exact .step ih ⟨.idle hd, trivial⟩

end

end World

end Basis
