import Mathlib.Data.List.Basic

/-!
# Files of lines and byte offsets

A text file that is only appended to is a list of lines, and each line has a
positive number of bytes.  Programs address such a file by byte offset.  They
read the line that starts at an offset noted earlier, and they read a window at
the end of the file, where the first line is usually cut and thrown away.

`lineAt` is what a reader finds who seeks to an offset, and `afterByte` is what
is left of a window whose first line is thrown away.  Appending lines moves no
byte to another line (`lineAt_append`) and does not hide the last line of a
window (`afterByte_concat`).
-/

namespace Basis

universe u

/-- Lines with their sizes in bytes, the newline included. -/
class Sized (α : Type u) where
  /-- The size of a line. -/
  size : α → Nat
  /-- A line has at least its newline. -/
  size_pos : ∀ x, 0 < size x

export Sized (size)

variable {α : Type u} [Sized α]

/-- The size of a file. -/
def bytes : List α → Nat
  | [] => 0
  | x :: xs => size x + bytes xs

@[simp] theorem bytes_nil : bytes ([] : List α) = 0 := rfl

@[simp] theorem bytes_cons (x : α) (xs : List α) : bytes (x :: xs) = size x + bytes xs := by
  rw [bytes]

@[simp] theorem bytes_append (xs ys : List α) : bytes (xs ++ ys) = bytes xs + bytes ys := by
  induction xs with
  | nil => rw [List.nil_append, bytes_nil, Nat.zero_add]
  | cons x xs ih => rw [List.cons_append, bytes_cons, bytes_cons, ih, Nat.add_assoc]

/-- The line in which byte `n` lies, how far into it the byte lies, and the lines
behind it. -/
def lineAt : Nat → List α → Option (α × Nat × List α)
  | _, [] => none
  | n, x :: xs => if n < size x then some (x, n, xs) else lineAt (n - size x) xs

/-- The lines that start after the byte `n`. -/
def afterByte : Nat → List α → List α
  | _, [] => []
  | n, x :: xs => if n < size x then xs else afterByte (n - size x) xs

/-! ## Offsets -/

/-- Behind the lines that fill `n` bytes starts the next line. -/
@[simp] theorem lineAt_bytes (xs : List α) (y : α) (ys : List α) :
    lineAt (bytes xs) (xs ++ y :: ys) = some (y, 0, ys) := by
  induction xs with
  | nil => simp [lineAt, Sized.size_pos y]
  | cons x xs ih =>
      have hout : ¬ size x + bytes xs < size x := by omega
      rw [List.cons_append, lineAt, bytes_cons, if_neg hout, Nat.add_sub_cancel_left, ih]

/-- A byte lies in a line exactly when the file is long enough. -/
theorem lineAt_eq_none {n : Nat} {xs : List α} : lineAt n xs = none ↔ bytes xs ≤ n := by
  induction xs generalizing n with
  | nil => simp [lineAt]
  | cons x xs ih =>
      rw [lineAt, bytes_cons]
      split
      next hin =>
        have : ¬ size x + bytes xs ≤ n := by omega
        simp [this]
      next => rw [ih]; omega

/-- Appending lines leaves every byte in its line. -/
theorem lineAt_append {n k : Nat} {xs zs : List α} {y : α} (h : lineAt n xs = some (y, k, zs))
    (us : List α) : lineAt n (xs ++ us) = some (y, k, zs ++ us) := by
  induction xs generalizing n with
  | nil => cases h
  | cons x xs ih =>
      rw [List.cons_append, lineAt]
      rw [lineAt] at h
      split at h
      next hin =>
        cases h
        rw [if_pos hin]
      next hout =>
        rw [if_neg hout]
        exact ih h

/-! ## Windows -/

/-- A window that starts before the last line shows it whole. -/
theorem afterByte_concat (n : Nat) (xs : List α) (z : α) :
    afterByte n (xs ++ [z]) = if n < bytes xs then afterByte n xs ++ [z] else [] := by
  induction xs generalizing n with
  | nil =>
      simp only [List.nil_append, afterByte, bytes_nil, Nat.not_lt_zero, if_false]
      split <;> rfl
  | cons x xs ih =>
      simp only [List.cons_append, afterByte, bytes_cons]
      by_cases hn : n < size x
      · rw [if_pos hn, if_pos hn, if_pos (by omega)]
      · rw [if_neg hn, if_neg hn, ih]
        by_cases hx : n - size x < bytes xs
        · rw [if_pos hx, if_pos (by omega)]
        · rw [if_neg hx, if_neg (by omega)]

end Basis
