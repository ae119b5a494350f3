import Mathlib.Logic.Basic

/-!
# Chains of gates

A request passes a chain of gates.  Each gate lets it through or stops it with a
reason, and what an earlier gate has found out is at the disposal of the later
ones.  Such a chain is a program in `Except`.

`Ends P Q x` says how a chain ends: with a reason that satisfies `P`, or with a
result that satisfies `Q`.  The rules below compute it along the chain, and they
are equivalences.  So what a chain promises turns into the exact condition on
its gates under which it keeps the promise.
-/

namespace Basis

universe u v

variable {ε : Type u} {α : Type v} {β : Type v}

/-- A chain stops with a reason in `P` or ends with a result in `Q`. -/
def Ends (P : ε → Prop) (Q : α → Prop) : Except ε α → Prop
  | .error e => P e
  | .ok a => Q a

/-- A gate that is open when `b` is true. -/
def gate (b : Bool) (e : ε) : Except ε PUnit.{v + 1} :=
  if b then .ok ⟨⟩ else .error e

variable {P : ε → Prop} {Q : α → Prop}

@[simp] theorem ends_ok {a : α} : Ends P Q (.ok a) ↔ Q a := Iff.rfl

@[simp] theorem ends_pure {a : α} : Ends P Q (pure a : Except ε α) ↔ Q a := Iff.rfl

@[simp] theorem ends_error {e : ε} : Ends P Q (.error e : Except ε α) ↔ P e := Iff.rfl

/-- The rule of one chain after another. -/
@[simp] theorem ends_bind {x : Except ε β} {f : β → Except ε α} :
    Ends P Q (x >>= f) ↔ Ends P (fun b => Ends P Q (f b)) x := by
  cases x with
  | error e => exact Iff.rfl
  | ok b => exact Iff.rfl

/-- The rule of a result that is only rewritten. -/
@[simp] theorem ends_map {x : Except ε β} {f : β → α} :
    Ends P Q (f <$> x) ↔ Ends P (fun b => Q (f b)) x := by
  cases x with
  | error e => exact Iff.rfl
  | ok b => exact Iff.rfl

/-- The rule of a gate. -/
@[simp] theorem ends_gate {b : Bool} {e : ε} {Q : PUnit.{v + 1} → Prop} :
    Ends P Q (gate b e) ↔ (b = true → Q ⟨⟩) ∧ (b = false → P e) := by
  cases b with
  | true => simp [gate]
  | false => simp [gate]

/-- The rule of a case distinction. -/
@[simp] theorem ends_ite {c : Prop} [Decidable c] {x y : Except ε α} :
    Ends P Q (if c then x else y) ↔ (c → Ends P Q x) ∧ (¬ c → Ends P Q y) := by
  split
  next h => simp [h]
  next h => simp [h]

/-- An open gate. -/
theorem gate_eq_ok_iff {b : Bool} {e : ε} {u : PUnit.{v + 1}} : gate b e = .ok u ↔ b = true := by
  cases b with
  | true => simp [gate]
  | false => simp [gate]

/-- A chain in which a stop is of no interest goes on from the results of its first step. -/
theorem ends_bind_of_ok {x : Except ε β} {f : β → Except ε α} (hP : ∀ e, P e)
    (h : ∀ b, x = .ok b → Ends P Q (f b)) : Ends P Q (x >>= f) := by
  cases x with
  | error e => exact hP e
  | ok b => exact h b rfl

/-- A chain that stops with one reason. -/
theorem eq_error_iff_ends {x : Except ε α} {e : ε} :
    x = .error e ↔ Ends (fun r => r = e) (fun _ => False) x := by
  cases x with
  | error r => simp
  | ok a => simp

/-- A chain that ends with one result. -/
theorem eq_ok_iff_ends {x : Except ε α} {a : α} :
    x = .ok a ↔ Ends (fun _ => False) (fun r => r = a) x := by
  cases x with
  | error r => simp
  | ok r => simp

/-- What holds of every result of a chain. -/
theorem Ends.of_ok {x : Except ε α} (h : Ends P Q x) {a : α} (hx : x = .ok a) : Q a := by
  rw [hx] at h
  exact h

end Basis
