import Mathlib

/-!
# What is kept of a list that grows

Two ways to keep only the newest elements of a list.

`touch` moves an element to the end of a list, so a list that is touched by the
elements of a trace has them in the order of their last use (`recent`).  A cache of
`n` places that takes its oldest element out is touched in the same way and holds,
at every time, the last `n` elements of that order (`rtake_recent_append`): what was
taken out before never matters.

A list whose elements have weights is cut from the front until its weight is within a
budget, but never to nothing (`fit`).  What is left is the longest such end
(`suffix_fit`), and to cut after every new element comes to the same as to cut once
(`fit_append`).
-/

namespace Basis

/-! ## Least recently used -/

section

variable {α : Type} [DecidableEq α]

/-- Moves an element to the end, or puts it there. -/
def touch (a : α) (xs : List α) : List α := xs.filter (fun x => decide (x ≠ a)) ++ [a]

/-- The elements of a trace in the order of their last use. -/
def recent (as : List α) : List α := as.foldl (fun xs a => touch a xs) []

section

variable {a : α} {as xs : List α} {n : Nat}

theorem mem_touch {b : α} : b ∈ touch a xs ↔ b = a ∨ b ∈ xs := by
  rw [touch, List.mem_append, List.mem_filter, List.mem_singleton, decide_eq_true_eq]
  constructor
  · rintro (h | h)
    · exact .inr h.1
    · exact .inl h
  · rintro (h | h)
    · exact .inr h
    · by_cases hb : b = a
      · exact .inr hb
      · exact .inl ⟨h, hb⟩

theorem nodup_touch (h : xs.Nodup) : (touch a xs).Nodup := by
  refine List.nodup_append.mpr ⟨h.filter _, by simp, ?_⟩
  intro x hx y hy
  rw [List.mem_singleton.mp hy]
  simpa using (List.mem_filter.mp hx).2

theorem recent_append (as : List α) (a : α) : recent (as ++ [a]) = touch a (recent as) :=
  List.foldl_append

theorem nodup_recent (as : List α) : (recent as).Nodup := by
  induction as using List.reverseRecOn with
  | nil => exact List.nodup_nil
  | append_singleton as a ih =>
      rw [recent_append]
      exact nodup_touch ih

/-- An element that is not in a list leaves it as it is. -/
theorem touch_of_notMem (h : a ∉ xs) : touch a xs = xs ++ [a] := by
  rw [touch, List.filter_eq_self.mpr]
  intro x hx
  have hne : x ≠ a := fun heq => h (heq ▸ hx)
  simpa using hne

/-- Touching takes at most one place more. -/
theorem length_touch_le (a : α) (xs : List α) : (touch a xs).length ≤ xs.length + 1 := by
  rw [touch, List.length_append]
  exact Nat.add_le_add_right (List.length_filter_le _ _) 1

theorem length_le_touch (h : xs.Nodup) : xs.length ≤ (touch a xs).length := by
  by_cases ha : a ∈ xs
  · obtain ⟨vor, nach, rfl⟩ := List.append_of_mem ha
    obtain ⟨hvor, hnach, hdisj⟩ := List.nodup_append.mp h
    have h1 : vor.filter (fun x => decide (x ≠ a)) = vor := by
      rw [List.filter_eq_self]
      intro x hx
      simpa using hdisj x hx a List.mem_cons_self
    have h2 : nach.filter (fun x => decide (x ≠ a)) = nach := by
      rw [List.filter_eq_self]
      intro x hx
      have hne : x ≠ a := fun heq => (List.nodup_cons.mp hnach).1 (heq ▸ hx)
      simpa using hne
    rw [touch, List.filter_append, List.filter_cons_of_neg (by simp), h1, h2]
    simp
  · rw [touch_of_notMem ha, List.length_append]
    exact Nat.le_add_right _ _

/-- An element that is there takes no place more. -/
theorem length_touch_le_of_mem (h : a ∈ xs) : (touch a xs).length ≤ xs.length := by
  have hlt : (xs.filter fun x => decide (x ≠ a)).length < xs.length :=
    List.length_filter_lt_length_iff_exists.mpr ⟨a, h, by simp⟩
  rw [touch, List.length_append]
  exact hlt

omit [DecidableEq α] in
theorem rtake_sublist (n : Nat) (xs : List α) : (xs.rtake n).Sublist xs := List.drop_sublist _ xs

omit [DecidableEq α] in
theorem length_rtake_le (n : Nat) (xs : List α) : (xs.rtake n).length ≤ n := by
  rw [List.rtake, List.length_drop]
  omega

omit [DecidableEq α] in
/-- The end of a list that is longer than what is taken. -/
theorem rtake_append_of_le {xs ys : List α} (h : n ≤ ys.length) :
    (xs ++ ys).rtake n = ys.rtake n := by
  rw [List.rtake, List.rtake, List.length_append, List.drop_append]
  have h1 : xs.length + ys.length - n - xs.length = ys.length - n := by omega
  have h2 : xs.length ≤ xs.length + ys.length - n := by omega
  rw [h1, List.drop_eq_nil_of_le h2, List.nil_append]

omit [DecidableEq α] in
theorem rtake_of_length_le (h : xs.length ≤ n) : xs.rtake n = xs := by
  rw [List.rtake, Nat.sub_eq_zero_of_le h, List.drop_zero]

/-- What a cache of `n` places has lost does not matter for what it holds next. -/
theorem rtake_touch_rtake (h : xs.Nodup) :
    (touch a (xs.rtake n)).rtake n = (touch a xs).rtake n := by
  by_cases hlen : xs.length ≤ n
  · rw [rtake_of_length_le hlen]
  · have hsplit : xs = xs.take (xs.length - n) ++ xs.rtake n := (List.take_append_drop _ xs).symm
    have hrlen : (xs.rtake n).length = n := by
      rw [List.rtake, List.length_drop]
      omega
    have hnodup : (xs.rtake n).Nodup := h.sublist (List.drop_sublist _ xs)
    have hlong : n ≤ (touch a (xs.rtake n)).length := by
      have hle := length_le_touch (a := a) hnodup
      omega
    have htouch : touch a xs =
        (xs.take (xs.length - n)).filter (fun x => decide (x ≠ a)) ++ touch a (xs.rtake n) := by
      conv_lhs => rw [hsplit]
      rw [touch, touch, List.filter_append, List.append_assoc]
    rw [htouch, rtake_append_of_le hlong]

/-- A cache of `n` places after one more use. -/
theorem rtake_recent_append (as : List α) (a : α) (n : Nat) :
    (touch a ((recent as).rtake n)).rtake n = (recent (as ++ [a])).rtake n := by
  rw [recent_append]
  exact rtake_touch_rtake (nodup_recent as)

end

end

/-! ## Within a budget -/

section

variable {α : Type}

/-- The weight of a list. -/
def weight (w : α → ℕ) (as : List α) : ℕ := (as.map w).sum

/-- Cuts a list from the front, down to a budget or to one element. -/
def fit (w : α → ℕ) (budget : ℕ) : List α → List α
  | [] => []
  | [a] => [a]
  | a :: b :: as =>
      if budget < weight w (a :: b :: as) then fit w budget (b :: as) else a :: b :: as

section

variable {w : α → ℕ} {budget : ℕ} {a : α} {as bs : List α}

@[simp] theorem weight_nil : weight w ([] : List α) = 0 := rfl

@[simp] theorem weight_cons : weight w (a :: as) = w a + weight w as := List.sum_cons

@[simp] theorem weight_append : weight w (as ++ bs) = weight w as + weight w bs := by
  rw [weight, List.map_append, List.sum_append]
  rfl

theorem weight_le_of_sublist (h : bs.Sublist as) : weight w bs ≤ weight w as :=
  (h.map w).sum_le_sum fun _ _ => Nat.zero_le _

theorem fit_cons_cons (a b : α) (as : List α) : fit w budget (a :: b :: as) =
    if budget < weight w (a :: b :: as) then fit w budget (b :: as) else a :: b :: as := rfl

theorem fit_suffix (w : α → ℕ) (budget : ℕ) (as : List α) : fit w budget as <:+ as := by
  induction as with
  | nil => exact List.suffix_rfl
  | cons a as ih =>
      cases as with
      | nil => exact List.suffix_rfl
      | cons b as =>
          rw [fit_cons_cons]
          split
          next => exact ih.trans (List.suffix_cons a _)
          next => exact List.suffix_rfl

/-- What is left is within the budget, or one element. -/
theorem weight_fit_le (w : α → ℕ) (budget : ℕ) (as : List α) :
    weight w (fit w budget as) ≤ budget ∨ (fit w budget as).length ≤ 1 := by
  induction as with
  | nil => exact .inr (Nat.zero_le 1)
  | cons a as ih =>
      cases as with
      | nil => exact .inr le_rfl
      | cons b as =>
          rw [fit_cons_cons]
          split
          next => exact ih
          next hle => exact .inl (Nat.not_lt.mp hle)

/-- An end that is within the budget is left. -/
theorem suffix_fit (h : bs <:+ as) (hle : weight w bs ≤ budget) : bs <:+ fit w budget as := by
  induction as with
  | nil => exact h
  | cons a as ih =>
      cases as with
      | nil => exact h
      | cons b as =>
          rw [fit_cons_cons]
          split
          next hover =>
            rcases List.suffix_cons_iff.mp h with rfl | hsuffix
            · omega
            · exact ih hsuffix
          next => exact h

/-- To cut before a new element comes does not matter. -/
theorem fit_append (as bs : List α) :
    fit w budget (fit w budget as ++ bs) = fit w budget (as ++ bs) := by
  induction as with
  | nil => rfl
  | cons a as ih =>
      cases as with
      | nil => rfl
      | cons b as =>
          rw [fit_cons_cons]
          split
          next hover =>
            have hover' : budget < weight w (a :: b :: (as ++ bs)) := by
              simp only [weight_cons, weight_append] at hover ⊢
              omega
            rw [ih]
            show fit w budget (b :: (as ++ bs)) = fit w budget (a :: b :: (as ++ bs))
            rw [fit_cons_cons, if_pos hover']
          next => rfl

end

end

end Basis
