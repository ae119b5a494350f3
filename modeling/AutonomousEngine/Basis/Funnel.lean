import Mathlib.Order.MinMax
import Mathlib.Algebra.Notation.Defs

/-!
# Funnels

A quantity passes a row of steps.  A step that shrinks gives back no more than it was
given, and nothing positive for something negative.  A step that caps gives back no more
than its cap.  What one step caps stays capped behind it as long as the later steps
shrink.  A step may keep the order of two quantities, and a row of such steps does.
-/

namespace Basis

variable {α : Type*} [LinearOrder α] [Zero α] {f g : α → α} {c x : α}

/-- A step gives back no more than it was given. -/
def Shrinks (f : α → α) : Prop := ∀ x, f x ≤ max 0 x

/-- A step gives back no more than a cap, which allows at least nothing. -/
def Caps (f : α → α) (c : α) : Prop := ∀ x, f x ≤ max 0 c

theorem Shrinks.le_max (hf : Shrinks f) (h : x ≤ max 0 c) : f x ≤ max 0 c :=
  (hf x).trans (max_le (le_max_left _ _) h)

theorem Shrinks.comp (hg : Shrinks g) (hf : Shrinks f) : Shrinks (g ∘ f) :=
  fun x => hg.le_max (hf x)

/-- What is cut to a cap is capped by it. -/
theorem cut_le (c x : α) : (if c < x then c else x) ≤ max 0 c := by
  split
  next => exact le_max_right _ _
  next h => exact (not_lt.mp h).trans (le_max_right _ _)

/-- Cutting shrinks. -/
theorem cut_le_self (c x : α) : (if c < x then c else x) ≤ max 0 x := by
  split
  next h => exact h.le.trans (le_max_right _ _)
  next => exact le_max_right _ _

/-! ## Steps that keep the order -/

omit [Zero α] in
/-- A step that follows `f` up to some point and `g` from there on keeps the order when `g`
starts above `f`. -/
theorem monotone_switch {p : α → Prop} [DecidablePred p] (hp : ∀ x y, x ≤ y → p x → p y)
    (hf : ∀ x y, x ≤ y → ¬p y → f x ≤ f y) (hg : ∀ x y, x ≤ y → p x → g x ≤ g y)
    (hfg : ∀ x y, x ≤ y → ¬p x → p y → f x ≤ g y) : Monotone fun x => if p x then g x else f x := by
  intro x y hxy
  dsimp only
  by_cases hx : p x
  · rw [if_pos hx, if_pos (hp x y hxy hx)]
    exact hg x y hxy hx
  · rw [if_neg hx]
    split
    next hy => exact hfg x y hxy hx hy
    next hy => exact hf x y hxy hy

omit [Zero α] in
theorem monotone_cut (c : α) : Monotone fun x => if c < x then c else x :=
  monotone_switch (fun _ _ hxy hx => hx.trans_le hxy) (fun _ _ hxy _ => hxy)
    (fun _ _ _ _ => le_rfl) fun _ _ _ hx _ => not_lt.mp hx

end Basis
