import Mathlib.Data.List.Forall2

/-!
# Step functions that answer

A step function takes a state and an input and gives the next state and an
answer.  `feed` runs it over a list of inputs.  Three rules compare or bound
such runs.  `feed_simulates` keeps a relation between the states of two step
functions that read the same inputs, as long as a condition on both holds before
each step (`Alongside`).  `feed_fed` does so when the second reads what the first
answers.  `feed_invariant` keeps an invariant of one run, as long as a condition
holds before each step (`Along`).
-/

namespace Basis

universe u v w

variable {σ : Type u} {τ : Type u} {ι : Type v} {κ : Type v} {ο : Type w} {ο' : Type w}

/-- The state after a list of inputs, and the answers. -/
def feed (step : σ → ι → σ × ο) : σ → List ι → σ × List ο
  | s, [] => (s, [])
  | s, i :: is => ((feed step (step s i).1 is).1, (step s i).2 :: (feed step (step s i).1 is).2)

/-- A condition on the state and the input holds before every step of a run. -/
def Along (step : σ → ι → σ × ο) (P : σ → ι → Prop) : σ → List ι → Prop
  | _, [] => True
  | s, i :: is => P s i ∧ Along step P (step s i).1 is

section

variable (step : σ → ι → σ × ο) (s : σ)

@[simp] theorem feed_nil : feed step s [] = (s, []) := rfl

@[simp] theorem feed_cons (i : ι) (is : List ι) :
    feed step s (i :: is) =
      ((feed step (step s i).1 is).1, (step s i).2 :: (feed step (step s i).1 is).2) := rfl

@[simp] theorem along_nil (P : σ → ι → Prop) : Along step P s [] := trivial

@[simp] theorem along_cons {P : σ → ι → Prop} {i : ι} {is : List ι} :
    Along step P s (i :: is) ↔ P s i ∧ Along step P (step s i).1 is := Iff.rfl

theorem feed_append (is js : List ι) :
    feed step s (is ++ js) =
      ((feed step (feed step s is).1 js).1,
        (feed step s is).2 ++ (feed step (feed step s is).1 js).2) := by
  induction is generalizing s with
  | nil => rfl
  | cons i is ih => simp only [List.cons_append, feed_cons, ih]

/-- The inputs of a run with their answers. -/
def transcript (is : List ι) : List (ι × ο) := is.zip (feed step s is).2

@[simp] theorem transcript_nil : transcript step s [] = [] := rfl

@[simp] theorem transcript_cons (i : ι) (is : List ι) :
    transcript step s (i :: is) = (i, (step s i).2) :: transcript step (step s i).1 is := rfl

@[simp] theorem map_fst_transcript (is : List ι) : (transcript step s is).map Prod.fst = is := by
  induction is generalizing s with
  | nil => rfl
  | cons i is ih => simp only [transcript_cons, List.map_cons, ih]

theorem transcript_append (is js : List ι) :
    transcript step s (is ++ js) =
      transcript step s is ++ transcript step (feed step s is).1 js := by
  induction is generalizing s with
  | nil => rfl
  | cons i is ih => simp only [List.cons_append, transcript_cons, feed_cons, ih]

/-- An input with its answer, and what was read before it. -/
theorem transcript_eq_append {is : List ι} {vor nach : List (ι × ο)} {i : ι} {o : ο}
    (h : transcript step s is = vor ++ (i, o) :: nach) :
    ∃ before after, is = before ++ i :: after ∧ vor = transcript step s before ∧
      o = (step (feed step s before).1 i).2 := by
  induction vor generalizing s is with
  | nil =>
      cases is with
      | nil => cases h
      | cons j is =>
          obtain ⟨hfirst, -⟩ := List.cons.inj h
          obtain ⟨rfl, rfl⟩ := Prod.mk.inj hfirst
          exact ⟨[], is, rfl, rfl, rfl⟩
  | cons z vor ih =>
      cases is with
      | nil => cases h
      | cons j is =>
          obtain ⟨hfirst, hrest⟩ := List.cons.inj h
          obtain ⟨before, after, rfl, rfl, ho⟩ := ih _ hrest
          exact ⟨j :: before, after, rfl, by rw [transcript_cons, hfirst], ho⟩

end

variable {step : σ → ι → σ × ο} {s : σ}

theorem along_true (step : σ → ι → σ × ο) (s : σ) (is : List ι) :
    Along step (fun _ _ => True) s is := by
  induction is generalizing s with
  | nil => trivial
  | cons i is ih => exact ⟨trivial, ih _⟩

/-- An answer is given in the state that the inputs before it lead to. -/
theorem getElem?_feed (is : List ι) (n : ℕ) :
    (feed step s is).2[n]? = is[n]?.map fun i => (step (feed step s (is.take n)).1 i).2 := by
  induction is generalizing s n with
  | nil => rfl
  | cons i is ih =>
      cases n with
      | zero => rfl
      | succ n =>
          simp only [feed_cons, List.getElem?_cons_succ, List.take_succ_cons]
          exact ih n

theorem Along.of_getElem? {P : σ → ι → Prop} {is : List ι} (h : Along step P s is) {n : ℕ} {i : ι}
    (hi : is[n]? = some i) : P (feed step s (is.take n)).1 i := by
  induction is generalizing s n with
  | nil => cases hi
  | cons i' is ih =>
      cases n with
      | zero =>
          cases hi
          exact h.1
      | succ n => exact ih h.2 hi

/-- A condition holds along a run exactly when it holds behind each of its beginnings. -/
theorem along_iff_append {P : σ → ι → Prop} {is : List ι} : Along step P s is ↔
    ∀ vor i nach, is = vor ++ i :: nach → P (feed step s vor).1 i := by
  induction is generalizing s with
  | nil => simp
  | cons i is ih =>
      rw [along_cons, ih]
      constructor
      · rintro ⟨hfirst, hrest⟩ vor j nach hsplit
        cases vor with
        | nil =>
            obtain ⟨rfl, -⟩ := List.cons.inj hsplit
            exact hfirst
        | cons i' vor =>
            obtain ⟨rfl, htail⟩ := List.cons.inj hsplit
            exact hrest vor j nach htail
      · intro h
        refine ⟨h [] i is rfl, fun vor j nach hsplit => ?_⟩
        exact h (i :: vor) j nach (by rw [hsplit, List.cons_append])

/-- Inputs that do not change the state may be left out. -/
theorem feed_filter {p : ι → Bool} (h : ∀ s i, p i = false → (step s i).1 = s) (is : List ι) :
    (feed step s (is.filter p)).1 = (feed step s is).1 := by
  induction is generalizing s with
  | nil => rfl
  | cons i is ih =>
      cases hp : p i with
      | true =>
          rw [List.filter_cons_of_pos hp]
          exact ih
      | false =>
          rw [List.filter_cons_of_neg (by simp [hp]), feed_cons, h s i hp]
          exact ih

/-- What every step keeps holds after the run. -/
theorem feed_invariant {P : σ → ι → Prop} {I : σ → Prop}
    (hstep : ∀ s i, I s → P s i → I (step s i).1) {is : List ι} (hs : I s)
    (his : Along step P s is) : I (feed step s is).1 := by
  induction is generalizing s with
  | nil => exact hs
  | cons i is ih => exact ih (hstep s i hs his.1) his.2

/-- A condition on the states of two step functions and the input holds before every step of
both. -/
def Alongside (step : σ → ι → σ × ο) (step' : τ → ι → τ × ο') (P : σ → τ → ι → Prop) :
    σ → τ → List ι → Prop
  | _, _, [] => True
  | s, t, i :: is => P s t i ∧ Alongside step step' P (step s i).1 (step' t i).1 is

instance decidableAlongside (step : σ → ι → σ × ο) (step' : τ → ι → τ × ο')
    (P : σ → τ → ι → Prop) [∀ s t i, Decidable (P s t i)] :
    (s : σ) → (t : τ) → (is : List ι) → Decidable (Alongside step step' P s t is)
  | _, _, [] => isTrue trivial
  | s, t, i :: is =>
      have := decidableAlongside step step' P (step s i).1 (step' t i).1 is
      inferInstanceAs (Decidable (_ ∧ _))

/-- Two step functions that keep a relation, run over the same inputs. -/
theorem feed_simulates {step' : τ → ι → τ × ο'} {R : σ → τ → Prop} {P : σ → τ → ι → Prop}
    (hstep : ∀ s t i, R s t → P s t i → R (step s i).1 (step' t i).1) {t : τ} {is : List ι}
    (hs : R s t) (his : Alongside step step' P s t is) :
    R (feed step s is).1 (feed step' t is).1 := by
  induction is generalizing s t with
  | nil => exact hs
  | cons i is ih => exact ih (hstep s t i hs his.1) his.2

/-- A step function that reads the answers of another, both run side by side. -/
theorem feed_fed {step' : τ → κ → τ × ο'} {R : σ → τ → Prop} (pass : ι → ο → κ)
    (hstep : ∀ s t i, R s t → R (step s i).1 (step' t (pass i (step s i).2)).1)
    {t : τ} (is : List ι) (hs : R s t) :
    R (feed step s is).1 (feed step' t (List.zipWith pass is (feed step s is).2)).1 := by
  induction is generalizing s t with
  | nil => exact hs
  | cons i is ih => exact ih (hstep s t i hs)

end Basis
