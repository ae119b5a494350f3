import Mathlib.Data.Nat.Choose.Basic
import Mathlib.Data.List.Nodup
import Mathlib.Data.List.Infix

/-!
# Combinations of a list

The sublists of `k` elements, in the order of their positions: those with the first
element before those without it.  There are as many as a binomial coefficient says
(`length_combinations`), and of a list without duplicates each element is in as many as
one says of the rest (`countP_combinations`).
-/

namespace Basis

variable {α : Type}

/-- The sublists of `k` elements. -/
def combinations : Nat → List α → List (List α)
  | 0, _ => [[]]
  | _ + 1, [] => []
  | k + 1, a :: as => (combinations k as).map (a :: ·) ++ combinations (k + 1) as

section

variable {k : Nat} {a : α} {as c : List α}

@[simp] theorem combinations_zero (as : List α) : combinations 0 as = [[]] := by
  cases as <;> rfl

@[simp] theorem combinations_succ_nil (k : Nat) : combinations (k + 1) ([] : List α) = [] := rfl

theorem combinations_succ_cons (k : Nat) (a : α) (as : List α) : combinations (k + 1) (a :: as) =
    (combinations k as).map (a :: ·) ++ combinations (k + 1) as := rfl

theorem length_combinations (k : Nat) (as : List α) :
    (combinations k as).length = as.length.choose k := by
  induction as generalizing k with
  | nil => cases k <;> rfl
  | cons a as ih =>
      cases k with
      | zero => rfl
      | succ k =>
          rw [combinations_succ_cons, List.length_append, List.length_map, ih, ih,
            List.length_cons, Nat.choose_succ_succ]

theorem mem_combinations : c ∈ combinations k as ↔ c.Sublist as ∧ c.length = k := by
  induction as generalizing k c with
  | nil =>
      cases k with
      | zero => simp +contextual
      | succ k =>
          rw [combinations_succ_nil, List.sublist_nil]
          constructor
          · nofun
          · rintro ⟨rfl, hlen⟩
            cases hlen
  | cons a as ih =>
      cases k with
      | zero =>
          rw [combinations_zero, List.mem_singleton, List.length_eq_zero_iff]
          exact ⟨fun h => ⟨h ▸ List.nil_sublist _, h⟩, And.right⟩
      | succ k =>
          rw [combinations_succ_cons, List.mem_append, List.mem_map, ih, List.sublist_cons_iff]
          constructor
          · rintro (⟨c', hc', rfl⟩ | ⟨hsub, hlen⟩)
            · obtain ⟨hsub, hlen⟩ := ih.mp hc'
              exact ⟨.inr ⟨c', rfl, hsub⟩, congrArg (· + 1) hlen⟩
            · exact ⟨.inl hsub, hlen⟩
          · rintro ⟨hsub | ⟨c', rfl, hsub⟩, hlen⟩
            · exact .inr ⟨hsub, hlen⟩
            · exact .inl ⟨c', ih.mpr ⟨hsub, Nat.succ.inj hlen⟩, rfl⟩

variable [DecidableEq α]

/-- No combination has an element that is not in the list. -/
theorem countP_combinations_of_notMem (k : Nat) (h : a ∉ as) :
    (combinations k as).countP (a ∈ ·) = 0 := by
  rw [List.countP_eq_zero]
  intro c hc
  have hnot : a ∉ c := fun ha => h ((mem_combinations.mp hc).1.subset ha)
  simpa using hnot

/-- In how many combinations an element is. -/
theorem countP_combinations (k : Nat) (hnodup : as.Nodup) (ha : a ∈ as) :
    (combinations (k + 1) as).countP (a ∈ ·) = (as.length - 1).choose k := by
  induction as generalizing k with
  | nil => cases ha
  | cons b as ih =>
      obtain ⟨hb, hnodup⟩ := List.nodup_cons.mp hnodup
      rw [combinations_succ_cons, List.countP_append, List.countP_map, List.length_cons,
        Nat.add_sub_cancel]
      by_cases hab : a = b
      · subst hab
        have hall : (combinations k as).countP ((fun c => decide (a ∈ c)) ∘ (a :: ·)) =
            as.length.choose k := by
          rw [← length_combinations, List.countP_eq_length]
          intro c _
          simp
        rw [hall, countP_combinations_of_notMem (k + 1) hb, Nat.add_zero]
      · have hmem : a ∈ as := (List.mem_cons.mp ha).resolve_left hab
        have hpos : as.length ≠ 0 := fun h => by
          rw [List.length_eq_zero_iff.mp h] at hmem
          cases hmem
        have hrest : (combinations k as).countP ((fun c => decide (a ∈ c)) ∘ (b :: ·)) =
            (combinations k as).countP (a ∈ ·) :=
          List.countP_congr fun c _ => by simp [hab]
        rw [hrest, ih k hnodup hmem]
        obtain ⟨n, hn⟩ := Nat.exists_eq_succ_of_ne_zero hpos
        rw [hn, Nat.succ_sub_one]
        cases k with
        | zero => simp
        | succ k =>
            rw [ih k hnodup hmem, hn, Nat.succ_sub_one]
            rfl

end

end Basis
