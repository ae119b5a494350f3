import Mathlib.Algebra.Order.BigOperators.Group.Finset

/-!
# Sums over a part of a list, and over running calls

`sumOver p f l` adds up `f` over the elements of `l` with `p`.  The sum over the
elements that meet one of several conditions is the sum of the sums when no two
conditions are met at once (`sumOver_any`).

A bound on something that running calls contribute to, such as the places they
have taken and not yet given back, is a statement about a sum over all clients.
`AtMost a g jobs b` says that `a` and what the calls of any finitely many clients
contribute stay within `b`.  No client has to be among finitely many known ones
for that.

One rule is enough (`AtMost.update`): a step of one client changes its own
contribution and the two numbers, and the bound is kept when the balance of the
three is.
-/

namespace Basis

section

variable {α β κ M : Type}

/-- The sum of `f` over the elements with `p`. -/
def sumOver [AddMonoid M] (p : α → Bool) (f : α → M) (l : List α) : M := ((l.filter p).map f).sum

section

variable [AddCommMonoid M] {p q : α → Bool} {f : α → M} {l : List α}

@[simp] theorem sumOver_nil : sumOver p f [] = 0 := rfl

theorem sumOver_cons (a : α) :
    sumOver p f (a :: l) = (if p a then f a else 0) + sumOver p f l := by
  unfold sumOver
  by_cases h : p a = true
  · simp [h]
  · simp [h]

theorem sumOver_append {l' : List α} :
    sumOver p f (l ++ l') = sumOver p f l + sumOver p f l' := by
  rw [sumOver, List.filter_append, List.map_append, List.sum_append, sumOver, sumOver]

theorem sumOver_congr (h : ∀ a ∈ l, p a = q a) : sumOver p f l = sumOver q f l := by
  rw [sumOver, sumOver, List.filter_congr h]

theorem sumOver_eq_zero (h : ∀ a ∈ l, p a = false) : sumOver p f l = 0 := by
  have hnil : l.filter p = [] := List.filter_eq_nil_iff.mpr fun a ha => by simp [h a ha]
  rw [sumOver, hnil, List.map_nil, List.sum_nil]

/-- The sum over the elements with one of two conditions that exclude each other. -/
theorem sumOver_or (h : ∀ a ∈ l, p a = true → q a = false) :
    sumOver (fun a => p a || q a) f l = sumOver p f l + sumOver q f l := by
  induction l with
  | nil => simp
  | cons a l ih =>
      rw [sumOver_cons, sumOver_cons, sumOver_cons, ih fun b hb => h b (.tail _ hb)]
      by_cases hp : p a = true
      · simp [hp, h a (.head _) hp, add_assoc]
      · simp [hp, add_left_comm]

/-- The sum over the elements with one of several conditions that exclude each
other. -/
theorem sumOver_any {r : α → β → Bool} {conds : List β}
    (h : conds.Pairwise fun b c => ∀ a ∈ l, r a b = true → r a c = false) :
    sumOver (fun a => conds.any (r a)) f l = (conds.map fun b => sumOver (r · b) f l).sum := by
  induction conds with
  | nil => exact sumOver_eq_zero fun _ _ => rfl
  | cons b conds ih =>
      obtain ⟨hb, hconds⟩ := List.pairwise_cons.mp h
      have hexcl : ∀ a ∈ l, r a b = true → conds.any (r a) = false := by
        intro a ha hab
        rw [List.any_eq_false]
        intro c hc
        simp [hb c hc a ha hab]
      rw [List.map_cons, List.sum_cons, ← ih hconds, ← sumOver_or hexcl]
      rfl

end

section

variable [AddCommMonoid M] [PartialOrder M] [IsOrderedAddMonoid M] {p q : α → Bool} {f : α → M}
  {l : List α}

theorem sumOver_nonneg (h : ∀ a ∈ l, 0 ≤ f a) : 0 ≤ sumOver p f l := by
  refine List.sum_nonneg fun x hx => ?_
  obtain ⟨a, ha, rfl⟩ := List.mem_map.mp hx
  exact h a (List.mem_of_mem_filter ha)

/-- A wider condition has the larger sum. -/
theorem sumOver_le_of_imp (hf : ∀ a ∈ l, 0 ≤ f a) (h : ∀ a ∈ l, p a = true → q a = true) :
    sumOver p f l ≤ sumOver q f l := by
  induction l with
  | nil => exact le_rfl
  | cons a l ih =>
      have hl := ih (fun b hb => hf b (.tail _ hb)) fun b hb => h b (.tail _ hb)
      rw [sumOver_cons, sumOver_cons]
      by_cases hp : p a = true
      · rw [if_pos hp, if_pos (h a (.head _) hp)]
        exact add_le_add_right hl _
      · rw [if_neg hp]
        split
        next => exact add_le_add (hf a (.head _)) hl
        next => exact add_le_add_right hl _

theorem le_sumOver {a : α} (hf : ∀ a ∈ l, 0 ≤ f a) (ha : a ∈ l) (hp : p a = true) :
    f a ≤ sumOver p f l := by
  refine List.single_le_sum (fun x hx => ?_) _ (List.mem_map_of_mem (List.mem_filter.mpr ⟨ha, hp⟩))
  obtain ⟨b, hb, rfl⟩ := List.mem_map.mp hx
  exact hf b (List.mem_of_mem_filter hb)

end

/-! ## Rows with a key -/

/-- Elements that give the same row are the same when no row is given twice. -/
theorem eq_of_nodup_filterMap {f : α → Option β} {l : List α} (h : (l.filterMap f).Nodup) {a c : α}
    {b : β} (ha : a ∈ l) (hc : c ∈ l) (hab : f a = some b) (hcb : f c = some b) : a = c := by
  induction l with
  | nil => cases ha
  | cons d l ih =>
      have hrow {x : α} (hx : x ∈ l) (hxb : f x = some b) : b ∈ l.filterMap f :=
        List.mem_filterMap.mpr ⟨x, hx, hxb⟩
      cases hd : f d with
      | none =>
          rw [List.filterMap_cons_none hd] at h
          have hne {x : α} (hx : x ∈ d :: l) (hxb : f x = some b) : x ∈ l := by
            rcases List.mem_cons.mp hx with rfl | hx
            · rw [hd] at hxb
              cases hxb
            · exact hx
          exact ih h (hne ha hab) (hne hc hcb)
      | some r =>
          rw [List.filterMap_cons_some hd, List.nodup_cons] at h
          rcases List.mem_cons.mp ha with rfl | hal <;> rcases List.mem_cons.mp hc with rfl | hcl
          · rfl
          · exact absurd (Option.some.inj (hd.symm.trans hab) ▸ hrow hcl hcb) h.1
          · exact absurd (Option.some.inj (hd.symm.trans hcb) ▸ hrow hal hab) h.1
          · exact ih h.2 hal hcl

section

variable [DecidableEq κ] {key : α → κ} {key' : β → κ} {g : α → List β} {l : List α}

/-- In a list whose keys differ, a search by key finds exactly the members. -/
theorem find?_key_iff (h : (l.map key).Nodup) {s : κ} {a : α} :
    l.find? (key · = s) = some a ↔ a ∈ l ∧ key a = s := by
  induction l with
  | nil => simp
  | cons x l ih =>
      obtain ⟨hne, hl⟩ := List.nodup_cons.mp h
      by_cases hx : key x = s
      · rw [List.find?_cons_of_pos (by simpa using hx)]
        constructor
        · intro heq
          cases heq
          exact ⟨List.mem_cons_self, hx⟩
        · rintro ⟨hm, ha⟩
          rcases List.mem_cons.mp hm with rfl | hm
          · rfl
          · exact absurd (List.mem_map.mpr ⟨a, hm, ha.trans hx.symm⟩) hne
      · rw [List.find?_cons_of_neg (by simpa using hx), ih hl]
        refine and_congr_left fun ha => ⟨List.mem_cons_of_mem x, fun hm => ?_⟩
        exact (List.mem_cons.mp hm).resolve_left fun heq => hx (heq ▸ ha)

/-- The rows of a key that no element gives. -/
theorem filter_flatMap_of_notMem (key : α → κ) (hg : ∀ a ∈ l, ∀ b ∈ g a, key' b = key a) {k : κ}
    (hk : ∀ a ∈ l, key a ≠ k) : (l.flatMap g).filter (fun b => key' b = k) = [] := by
  refine List.filter_eq_nil_iff.mpr fun b hb => ?_
  obtain ⟨a, ha, hba⟩ := List.mem_flatMap.mp hb
  simp [hg a ha b hba, hk a ha]

/-- When every element has its own key, the rows of a key are those of its element. -/
theorem filter_flatMap_of_mem (hg : ∀ a ∈ l, ∀ b ∈ g a, key' b = key a) (hl : (l.map key).Nodup)
    {a : α} (ha : a ∈ l) : (l.flatMap g).filter (fun b => key' b = key a) = g a := by
  induction l with
  | nil => cases ha
  | cons c l ih =>
      rw [List.map_cons, List.nodup_cons] at hl
      have hg' : ∀ a ∈ l, ∀ b ∈ g a, key' b = key a := fun a ha => hg a (.tail _ ha)
      rw [List.flatMap_cons, List.filter_append]
      rcases List.mem_cons.mp ha with rfl | ha
      · have hrest : ∀ c ∈ l, key c ≠ key a := fun c hc heq =>
          hl.1 (heq ▸ List.mem_map_of_mem hc)
        rw [filter_flatMap_of_notMem key hg' hrest, List.append_nil]
        exact List.filter_eq_self.mpr fun b hb => by simp [hg a (.head _) b hb]
      · have hne : key c ≠ key a := fun heq => hl.1 (heq ▸ List.mem_map_of_mem ha)
        have hc : (g c).filter (fun b => key' b = key a) = [] :=
          List.filter_eq_nil_iff.mpr fun b hb => by simp [hg c (.head _) b hb, hne]
        rw [hc, List.nil_append]
        exact ih hg' hl.2 ha

end

end

/-! ## Running calls -/

section

open Finset

variable {κ : Type} {g : Option κ → Nat} {jobs : Nat → Option κ} {a b a' b' : Nat}

/-- `a` and the contributions of any finitely many clients stay within `b`. -/
def AtMost (a : Nat) (g : Option κ → Nat) (jobs : Nat → Option κ) (b : Nat) : Prop :=
  ∀ F : Finset Nat, a + ∑ i ∈ F, g (jobs i) ≤ b

theorem AtMost.le (h : AtMost a g jobs b) : a ≤ b := by
  simpa using h ∅

/-- While nothing runs there is nothing to count. -/
theorem AtMost.of_none (hg : g none = 0) (hj : ∀ i, jobs i = none) (h : a ≤ b) :
    AtMost a g jobs b := by
  intro F
  have hsum : ∑ i ∈ F, g (jobs i) = 0 := sum_eq_zero fun i _ => by rw [hj i, hg]
  omega

/-- One client changes its call, and the numbers change along with it. -/
theorem AtMost.update (h : AtMost a g jobs b) (i : Nat) (x : Option κ)
    (hx : a' + g x + b ≤ a + g (jobs i) + b') : AtMost a' g (Function.update jobs i x) b' := by
  intro F
  have hrest : ∑ j ∈ F.erase i, g (Function.update jobs i x j) = ∑ j ∈ F.erase i, g (jobs j) := by
    refine sum_congr rfl fun j hj => ?_
    rw [Function.update_of_ne (ne_of_mem_erase hj)]
  have hold : ∑ j ∈ insert i (F.erase i), g (jobs j) = g (jobs i) + ∑ j ∈ F.erase i, g (jobs j) :=
    sum_insert (notMem_erase i F)
  have hnew : ∑ j ∈ F, g (Function.update jobs i x j) ≤
      g x + ∑ j ∈ F.erase i, g (jobs j) := by
    have hsub : F ⊆ insert i (F.erase i) := fun j hj => by
      by_cases hji : j = i
      · simp [hji]
      · simp [hji, hj]
    have hins : ∑ j ∈ insert i (F.erase i), g (Function.update jobs i x j) =
        g x + ∑ j ∈ F.erase i, g (Function.update jobs i x j) := by
      rw [sum_insert (notMem_erase i F), Function.update_self]
    calc ∑ j ∈ F, g (Function.update jobs i x j)
        ≤ ∑ j ∈ insert i (F.erase i), g (Function.update jobs i x j) := sum_le_sum_of_subset hsub
      _ = g x + ∑ j ∈ F.erase i, g (jobs j) := by rw [hins, hrest]
  have hF := h (insert i (F.erase i))
  omega

end

end Basis
