import Mathlib

/-!
# Where a value stands among others

The rank of a value counts the values above it, and its percentile those below it.
Of two values the greater one has more values below (`countP_below_lt`) and fewer
above (`countP_above_lt`), as soon as the one that makes the difference is among
those that are counted.

Of values sorted by a key the first `n` are those with fewer than `n` below them
(`mem_take_insertionSort`), in whatever order they were given.

When every place of an ascending list has a bound, and the bounds rise, the places up to
the last one within its bound can be told by counting (`le_last_iff`).

The median is the middle value of an ascending list, or the mean of the two middle
ones.  A minority of the values does not matter: the median is above a bound when more
than half of the values are (`le_median`), and below one likewise (`median_le`).
-/

namespace Basis

section

variable {α : Type} {p q : α → Bool} {a : α} {xs : List α}

/-- A weaker condition that one more element meets. -/
theorem countP_lt_countP (hpq : ∀ x ∈ xs, p x = true → q x = true) (ha : a ∈ xs)
    (hp : p a = false) (hq : q a = true) : xs.countP p < xs.countP q := by
  obtain ⟨vor, nach, rfl⟩ := List.append_of_mem ha
  have hvor : vor.countP p ≤ vor.countP q :=
    List.countP_mono_left fun x hx => hpq x (List.mem_append_left _ hx)
  have hnach : nach.countP p ≤ nach.countP q :=
    List.countP_mono_left fun x hx => hpq x (List.mem_append_right _ (List.mem_cons_of_mem a hx))
  rw [List.countP_append, List.countP_append, List.countP_cons_of_neg (by simp [hp]),
    List.countP_cons_of_pos hq]
  omega

end

section

variable {α : Type} [LinearOrder α] {xs : List α} {x y : α}

theorem countP_below_lt (hy : y ∈ xs) (h : y < x) : xs.countP (· < y) < xs.countP (· < x) := by
  refine countP_lt_countP (a := y) (fun z _ hz => ?_) hy (by simp) (by simpa using h)
  have hzy : z < y := by simpa using hz
  simpa using hzy.trans h

theorem countP_above_lt (hx : x ∈ xs) (h : y < x) : xs.countP (x < ·) < xs.countP (y < ·) := by
  refine countP_lt_countP (a := x) (fun z _ hz => ?_) hx (by simp) (by simpa using h)
  have hxz : x < z := by simpa using hz
  simpa using h.trans hxz

end

section

variable {α κ : Type} [LinearOrder κ] {key : α → κ} {xs ys : List α} {a : α} {n : ℕ}

/-- The first elements of a list with increasing keys. -/
theorem mem_take_of_pairwise (hs : ys.Pairwise fun x y => key x < key y) :
    a ∈ ys.take n ↔ a ∈ ys ∧ ys.countP (fun y => decide (key y < key a)) < n := by
  induction ys generalizing n with
  | nil => simp
  | cons y ys ih =>
      obtain ⟨hfirst, hs⟩ := List.pairwise_cons.mp hs
      cases n with
      | zero => simp
      | succ n =>
          rw [List.take_succ_cons, List.mem_cons, ih hs, List.mem_cons]
          constructor
          · rintro (rfl | ⟨ha, hn⟩)
            · have hnone : (a :: ys).countP (fun y => decide (key y < key a)) = 0 := by
                rw [List.countP_eq_zero]
                intro z hz
                rcases List.mem_cons.mp hz with rfl | hz
                · simp
                · simpa using (hfirst z hz).le
              exact ⟨.inl rfl, by omega⟩
            · rw [List.countP_cons_of_pos (by simpa using hfirst a ha)]
              exact ⟨.inr ha, by omega⟩
          · rintro ⟨rfl | ha, hn⟩
            · exact .inl rfl
            · rw [List.countP_cons_of_pos (by simpa using hfirst a ha)] at hn
              exact .inr ⟨ha, by omega⟩

/-- A list without two elements of one key, sorted by the key. -/
theorem pairwise_insertionSort_key (hnodup : (xs.map key).Nodup) :
    (xs.insertionSort fun x y => key x ≤ key y).Pairwise fun x y => key x < key y := by
  have htotal : Std.Total fun x y => key x ≤ key y := ⟨fun _ _ => le_total _ _⟩
  have htrans : IsTrans α fun x y => key x ≤ key y := ⟨fun _ _ _ => le_trans⟩
  have hperm := List.perm_insertionSort (fun x y => key x ≤ key y) xs
  have hkeys : (xs.insertionSort fun x y => key x ≤ key y).Pairwise fun x y => key x ≠ key y := by
    rw [← List.pairwise_map]
    exact (hperm.map key).nodup_iff.mpr hnodup
  exact (List.pairwise_insertionSort _ xs).imp₂ (fun _ _ hle hne => lt_of_le_of_ne hle hne) hkeys

/-- The first elements by their keys are those with few below them. -/
theorem mem_take_insertionSort (hnodup : (xs.map key).Nodup) :
    a ∈ (xs.insertionSort fun x y => key x ≤ key y).take n ↔
      a ∈ xs ∧ xs.countP (fun y => decide (key y < key a)) < n := by
  have hperm := List.perm_insertionSort (fun x y => key x ≤ key y) xs
  rw [mem_take_of_pairwise (pairwise_insertionSort_key hnodup), hperm.mem_iff, hperm.countP_eq]

end

/-! ## The last place within its bound -/

section

variable {α : Type} [LinearOrder α] {s : List α} {t : α} {T : ℕ → α} {K : ℤ} {k r : ℕ}

/-- An ascending list has its value at a place within a bound when more values than the
place has before it are. -/
theorem getElem_le_iff_lt_countP (hs : s.Pairwise (· ≤ ·)) (hk : k < s.length) :
    s[k] ≤ t ↔ k < s.countP (· ≤ t) := by
  induction s generalizing k with
  | nil => cases hk
  | cons y s ih =>
      obtain ⟨hy, hs⟩ := List.pairwise_cons.mp hs
      by_cases hle : y ≤ t
      · rw [List.countP_cons_of_pos (by simpa using hle)]
        cases k with
        | zero => simp [hle]
        | succ k =>
            rw [List.getElem_cons_succ, ih hs (by simpa using hk)]
            omega
      · have hnone : s.countP (· ≤ t) = 0 := by
          rw [List.countP_eq_zero]
          intro z hz
          simpa using (not_le.mp hle).trans_le (hy z hz)
        rw [List.countP_cons_of_neg (by simpa using hle), hnone]
        cases k with
        | zero => simp [hle]
        | succ k =>
            have hmem := List.getElem_mem (l := s) (by simpa using hk : k < s.length)
            simpa using (not_le.mp hle).trans_le (hy _ hmem)

/-- `K` is the last place of a list, counted from one, whose value is within the bound of
the place.  The places up to `K` are those whose value is within a bound that as many
values are within as its place says: equal values are on the same side. -/
theorem le_last_iff (hs : s.Pairwise (· ≤ ·)) (hT : Monotone T)
    (hlast : ∀ k (hk : k < s.length), s[k] ≤ T (k + 1) → (k : ℤ) + 1 ≤ K)
    (hK : ∀ r : ℕ, (r : ℤ) + 1 ≤ K → ∃ k, ∃ hk : k < s.length, r ≤ k ∧ s[k] ≤ T (k + 1))
    (hr : r < s.length) :
    (r : ℤ) + 1 ≤ K ↔ ∃ k, s[r] ≤ T k ∧ k ≤ s.countP (· ≤ T k) := by
  constructor
  · intro hrK
    obtain ⟨k, hk, hrk, hle⟩ := hK r hrK
    refine ⟨k + 1, ?_, (getElem_le_iff_lt_countP hs hk).mp hle⟩
    exact le_trans (hs.rel_get_of_le (a := ⟨r, hr⟩) (b := ⟨k, hk⟩) hrk) hle
  · rintro ⟨k, hle, hcount⟩
    by_cases hrk : k ≤ r
    · exact hlast r hr (hle.trans (hT (by omega)))
    · -- the bound is that of a place behind
      have hlen : k ≤ s.length := hcount.trans List.countP_le_length
      obtain ⟨j, rfl⟩ : ∃ j, k = j + 1 := ⟨k - 1, by omega⟩
      have hj := hlast j (by omega) ((getElem_le_iff_lt_countP hs (by omega)).mpr hcount)
      omega

end

/-! ## The median -/

section

section

variable {α : Type} [LinearOrder α] {xs ys : List α}

theorem countP_insertionSort (p : α → Bool) :
    (xs.insertionSort (· ≤ ·)).countP p = xs.countP p :=
  (List.perm_insertionSort _ xs).countP_eq p

end

variable {K : Type} [Field K] [LinearOrder K]

/-- The middle of an ascending list. -/
def mitte (ys : List K) : K :=
  if ys.length % 2 = 1 then ys.getD (ys.length / 2) 0
  else (ys.getD (ys.length / 2 - 1) 0 + ys.getD (ys.length / 2) 0) / (2 : ℕ)

/-- The median; of no value it is zero. -/
def median (xs : List K) : K := mitte (xs.insertionSort (· ≤ ·))

/-! ## The values below and above a bound -/

section

variable {a b : K} {ys : List K} {i : Nat}

/-- Behind as many places as there are values below a bound, an ascending list is
not below it. -/
theorem le_getD_of_countP_le (hs : ys.Pairwise (· ≤ ·)) (hi : ys.countP (· < a) ≤ i)
    (hlt : i < ys.length) : a ≤ ys.getD i 0 := by
  induction ys generalizing i with
  | nil => simp at hlt
  | cons y ys ih =>
      rw [List.pairwise_cons] at hs
      by_cases hy : y < a
      · rw [List.countP_cons_of_pos (by simpa using hy)] at hi
        cases i with
        | zero => omega
        | succ i => exact ih hs.2 (by omega) (by simpa using hlt)
      · have hle : a ≤ y := le_of_not_gt hy
        cases i with
        | zero => simpa using hle
        | succ i =>
            have hlt' : i < ys.length := by simpa using hlt
            have hmem : ys.getD i 0 ∈ ys := by
              rw [List.getD_eq_getElem?_getD, List.getElem?_eq_getElem hlt', Option.getD_some]
              exact List.getElem_mem hlt'
            exact hle.trans (hs.1 _ hmem)

/-- Before the values above a bound an ascending list is not above it. -/
theorem getD_le_of_countP_le (hs : ys.Pairwise (· ≤ ·))
    (hi : i + ys.countP (b < ·) < ys.length) : ys.getD i 0 ≤ b := by
  induction ys generalizing i with
  | nil => simp at hi
  | cons y ys ih =>
      rw [List.pairwise_cons] at hs
      by_cases hy : b < y
      · have hall : ys.countP (b < ·) = ys.length := by
          rw [List.countP_eq_length]
          intro z hz
          simpa using hy.trans_le (hs.1 z hz)
        rw [List.countP_cons_of_pos (by simpa using hy), hall, List.length_cons] at hi
        omega
      · rw [List.countP_cons_of_neg (by simpa using hy), List.length_cons] at hi
        cases i with
        | zero => simpa using le_of_not_gt hy
        | succ i => exact ih hs.2 (by omega)

end

/-! ## A majority decides -/

section

variable [IsStrictOrderedRing K] {a b : K} {xs : List K}

/-- More than half of the values are not below a bound. -/
theorem le_median (h : xs.length < 2 * xs.countP (a ≤ ·)) : a ≤ median xs := by
  have hs : (xs.insertionSort (· ≤ ·)).Pairwise (· ≤ ·) := List.sortedLE_insertionSort.pairwise
  have hlen : (xs.insertionSort (· ≤ ·)).length = xs.length := List.length_insertionSort _ xs
  have hunter : xs.countP (· < a) + xs.countP (a ≤ ·) = xs.length := by
    rw [List.length_eq_countP_add_countP fun x => decide (x < a)]
    simp
  have hstelle : ∀ i, xs.countP (· < a) ≤ i → i < xs.length →
      a ≤ (xs.insertionSort (· ≤ ·)).getD i 0 := by
    intro i hi hlt
    exact le_getD_of_countP_le hs (by rw [countP_insertionSort]; exact hi) (by omega)
  rw [median, mitte, hlen]
  split
  next hodd => exact hstelle _ (by omega) (by omega)
  next heven =>
    have hlo := hstelle (xs.length / 2 - 1) (by omega) (by omega)
    have hhi := hstelle (xs.length / 2) (by omega) (by omega)
    rw [Nat.cast_ofNat]
    linarith

/-- More than half of the values are not above a bound. -/
theorem median_le (h : xs.length < 2 * xs.countP (· ≤ b)) : median xs ≤ b := by
  have hs : (xs.insertionSort (· ≤ ·)).Pairwise (· ≤ ·) := List.sortedLE_insertionSort.pairwise
  have hlen : (xs.insertionSort (· ≤ ·)).length = xs.length := List.length_insertionSort _ xs
  have hueber : xs.countP (b < ·) + xs.countP (· ≤ b) = xs.length := by
    rw [List.length_eq_countP_add_countP fun x => decide (b < x)]
    simp
  have hstelle : ∀ i, i + xs.countP (b < ·) < xs.length →
      (xs.insertionSort (· ≤ ·)).getD i 0 ≤ b := by
    intro i hi
    exact getD_le_of_countP_le hs (by rw [countP_insertionSort, hlen]; exact hi)
  rw [median, mitte, hlen]
  split
  next hodd => exact hstelle _ (by omega)
  next heven =>
    have hlo := hstelle (xs.length / 2 - 1) (by omega)
    have hhi := hstelle (xs.length / 2) (by omega)
    rw [Nat.cast_ofNat]
    linarith

end

end

end Basis
