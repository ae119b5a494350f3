import AutonomousEngine.Basis.JsonDict

/-!
# Tables that keep what came first

Records are put into a table one after another, each as a row under a key, and a key that is
taken stays as it is (`absorb`).  Records whose keys are taken change nothing
(`absorb_of_taken`).

The records may fill a dictionary first, in which the last one of a name stands in the place
of the first one.  The table is the same if records of one name make the same row
(`absorb_dictSet`).
-/

namespace Basis

variable {κ ρ σ δ : Type} [DecidableEq κ] [DecidableEq δ]

/-- A table with one more row, if its key is free. -/
def keep (row : Option (κ × ρ)) (m : κ → Option ρ) : κ → Option ρ :=
  match row with
  | none => m
  | some (k, r) => if (m k).isSome then m else Function.update m k (some r)

/-- A table with the rows of records, the first one of each key. -/
def absorb (row : σ → Option (κ × ρ)) : List σ → (κ → Option ρ) → κ → Option ρ
  | [], m => m
  | s :: ss, m => absorb row ss (keep (row s) m)

variable {row row' : σ → Option (κ × ρ)} {m : κ → Option ρ} {ss ts : List σ} {s : σ} {k : κ}
  {r : ρ}

@[simp] theorem absorb_nil : absorb row [] m = m := rfl

@[simp] theorem absorb_cons : absorb row (s :: ss) m = absorb row ss (keep (row s) m) := rfl

@[simp] theorem keep_none : keep none m = m := rfl

theorem absorb_append : absorb row (ss ++ ts) m = absorb row ts (absorb row ss m) := by
  induction ss generalizing m with
  | nil => rfl
  | cons s ss ih => exact ih

theorem keep_of_taken (h : (m k).isSome) : keep (some (k, r)) m = m := if_pos h

theorem keep_of_free (h : m k = none) : keep (some (k, r)) m = Function.update m k (some r) :=
  if_neg (by simp [h])

/-! ## What is there -/

theorem keep_of_some {row : Option (κ × ρ)} (h : m k = some r) : keep row m k = some r := by
  cases row with
  | none => exact h
  | some p =>
      obtain ⟨k', r'⟩ := p
      cases hk' : m k' with
      | some _ => rwa [keep_of_taken (by simp [hk'])]
      | none =>
          have hne : k ≠ k' := by
            intro heq
            rw [heq, hk'] at h
            cases h
          rwa [keep_of_free hk', Function.update_of_ne hne]

/-- A row that is there stays. -/
theorem absorb_of_some (h : m k = some r) : absorb row ss m k = some r := by
  induction ss generalizing m with
  | nil => exact h
  | cons s ss ih => exact ih (keep_of_some h)

theorem isSome_absorb_of_isSome (h : (m k).isSome) : (absorb row ss m k).isSome := by
  obtain ⟨r, hr⟩ := Option.isSome_iff_exists.mp h
  exact Option.isSome_iff_exists.mpr ⟨r, absorb_of_some hr⟩

theorem isSome_keep : (keep (some (k, r)) m k).isSome := by
  cases hk : m k with
  | some _ => simp [keep, hk]
  | none => simp [keep, hk]

/-- The key of a row is taken afterwards. -/
theorem isSome_absorb (hs : s ∈ ss) (hrow : row s = some (k, r)) :
    (absorb row ss m k).isSome := by
  induction ss generalizing m with
  | nil => cases hs
  | cons s' ss ih =>
      rcases List.mem_cons.mp hs with rfl | hs
      · rw [absorb_cons, hrow]
        exact isSome_absorb_of_isSome isSome_keep
      · exact ih hs

/-- A key under which no record makes a row stays as it is. -/
theorem absorb_of_notMem (h : ∀ s ∈ ss, ∀ r, row s ≠ some (k, r)) : absorb row ss m k = m k := by
  induction ss generalizing m with
  | nil => rfl
  | cons s ss ih =>
      rw [absorb_cons, ih fun s' hs' => h s' (.tail _ hs')]
      cases hrow : row s with
      | none => rfl
      | some p =>
          obtain ⟨k', r⟩ := p
          have hne : k ≠ k' := fun heq => h s (.head _) r (by rw [hrow, heq])
          rw [keep]
          split
          next => rfl
          next => exact Function.update_of_ne hne _ _

/-! ## What changes nothing -/

/-- Records whose keys are taken change nothing. -/
theorem absorb_of_taken (h : ∀ s ∈ ss, ∀ k r, row s = some (k, r) → (m k).isSome) :
    absorb row ss m = m := by
  induction ss with
  | nil => rfl
  | cons s ss ih =>
      have hkeep : keep (row s) m = m := by
        cases hrow : row s with
        | none => rfl
        | some p => exact keep_of_taken (h s (.head _) p.1 p.2 hrow)
      rw [absorb_cons, hkeep]
      exact ih fun s' hs' => h s' (.tail _ hs')

theorem absorb_congr (h : ∀ s ∈ ss, row s = row' s) : absorb row ss m = absorb row' ss m := by
  induction ss generalizing m with
  | nil => rfl
  | cons s ss ih =>
      rw [absorb_cons, absorb_cons, h s (.head _), ih fun s' hs' => h s' (.tail _ hs')]

/-- Records whose keys are taken may be left out. -/
theorem absorb_filter {p : σ → Bool}
    (h : ∀ s ∈ ss, p s = false → ∀ k r, row s = some (k, r) → (m k).isSome) :
    absorb row (ss.filter p) m = absorb row ss m := by
  induction ss generalizing m with
  | nil => rfl
  | cons s ss ih =>
      have hrest {m' : κ → Option ρ} (hm : ∀ k, (m k).isSome → (m' k).isSome) :
          absorb row (ss.filter p) m' = absorb row ss m' :=
        ih fun s' hs' hp k r hrow => hm k (h s' (.tail _ hs') hp k r hrow)
      cases hp : p s with
      | true =>
          rw [List.filter_cons_of_pos hp, absorb_cons, absorb_cons]
          refine hrest fun k hk => ?_
          obtain ⟨r, hr⟩ := Option.isSome_iff_exists.mp hk
          exact Option.isSome_iff_exists.mpr ⟨r, keep_of_some hr⟩
      | false =>
          have hnone : absorb row [s] m = m := by
            refine absorb_of_taken fun s' hs' k r hrow => ?_
            rw [List.mem_singleton.mp hs'] at hrow
            exact h s (.head _) hp k r hrow
          rw [absorb_cons, absorb_nil] at hnone
          rw [List.filter_cons_of_neg (by simp [hp]), absorb_cons, hnone]
          exact hrest fun _ hk => hk

/-- A record that replaces one of its name in a dictionary comes too late for the table. -/
theorem absorb_dictSet {n : δ} {d : List (δ × σ)} (h : ∀ e ∈ d, e.1 = n → row e.2 = row s) :
    absorb row ((dictSet n s d).map Prod.snd) m = absorb row (d.map Prod.snd ++ [s]) m := by
  induction d generalizing m with
  | nil => rfl
  | cons e d ih =>
      rw [dictSet]
      split
      next hname =>
        have hrow := h e (.head _) hname
        show absorb row (d.map Prod.snd) (keep (row s) m) = _
        rw [absorb_append, absorb_cons, absorb_nil, List.map_cons, absorb_cons, hrow]
        cases hs : row s with
        | none => rfl
        | some p => exact (keep_of_taken (isSome_absorb_of_isSome isSome_keep)).symm
      next => exact ih fun e' he' => h e' (.tail _ he')

end Basis
