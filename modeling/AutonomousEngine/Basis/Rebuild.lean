import Mathlib.Data.List.Induction

/-!
# Maps rebuilt from rows

A map that is built anew from a list of rows: each row may set the value of its
key, and the last one that does wins.  What no row sets is not in the map.
-/

namespace Basis

variable {ρ κ α β : Type*} [DecidableEq κ] {rows : List ρ} {key : ρ → κ} {val : ρ → Option α}
  {k : κ}

/-- What a row sets. -/
def setRow (key : ρ → κ) (val : ρ → Option α) (m : κ → Option α) (r : ρ) : κ → Option α :=
  match val r with
  | some v => Function.update m (key r) (some v)
  | none => m

/-- The map of a list of rows. -/
def rebuild (key : ρ → κ) (val : ρ → Option α) (rows : List ρ) : κ → Option α :=
  rows.foldl (setRow key val) fun _ => none

@[simp] theorem rebuild_nil : rebuild key val [] k = none := rfl

theorem rebuild_concat (r : ρ) :
    rebuild key val (rows ++ [r]) = setRow key val (rebuild key val rows) r := by
  unfold rebuild
  rw [List.foldl_append]
  rfl

theorem setRow_of_none {m : κ → Option α} {r : ρ} (hv : val r = none) :
    setRow key val m r = m := by
  unfold setRow
  rw [hv]

theorem setRow_of_some {m : κ → Option α} {r : ρ} {v : α} (hk : key r = k) (hv : val r = some v) :
    setRow key val m r k = some v := by
  unfold setRow
  rw [hv, ← hk]
  exact Function.update_self _ _ _

theorem setRow_of_ne {m : κ → Option α} {r : ρ} (h : key r ≠ k) : setRow key val m r k = m k := by
  cases hv : val r with
  | none => rw [setRow_of_none hv]
  | some v =>
      unfold setRow
      rw [hv]
      exact Function.update_of_ne (Ne.symm h) _ _

/-- A value of the map is the value of a row. -/
theorem exists_row_of_rebuild {v : α} (h : rebuild key val rows k = some v) :
    ∃ r ∈ rows, key r = k ∧ val r = some v := by
  induction rows using List.reverseRecOn with
  | nil => cases h
  | append_singleton rows r ih =>
      rw [rebuild_concat] at h
      by_cases hk : key r = k
      · cases hv : val r with
        | none =>
            rw [setRow_of_none hv] at h
            obtain ⟨r', hr', hkey, hval⟩ := ih h
            exact ⟨r', List.mem_append_left _ hr', hkey, hval⟩
        | some w =>
            rw [setRow_of_some hk hv] at h
            exact ⟨r, List.mem_append_right _ (.head _), hk, hv.trans h⟩
      · rw [setRow_of_ne hk] at h
        obtain ⟨r', hr', hkey, hval⟩ := ih h
        exact ⟨r', List.mem_append_left _ hr', hkey, hval⟩

/-- A key is in the map when a row sets it. -/
theorem isSome_rebuild {r : ρ} (hr : r ∈ rows) (hk : key r = k) (hv : (val r).isSome = true) :
    (rebuild key val rows k).isSome = true := by
  induction rows using List.reverseRecOn with
  | nil => cases hr
  | append_singleton rows r' ih =>
      rw [rebuild_concat]
      by_cases hk' : key r' = k
      · cases hv' : val r' with
        | some w =>
            rw [setRow_of_some hk' hv']
            rfl
        | none =>
            rw [setRow_of_none hv']
            rcases List.mem_append.mp hr with hmem | hlast
            · exact ih hmem
            · rw [List.mem_singleton.mp hlast, hv'] at hv
              cases hv
      · rw [setRow_of_ne hk']
        rcases List.mem_append.mp hr with hmem | hlast
        · exact ih hmem
        · rw [List.mem_singleton.mp hlast] at hk
          exact absurd hk hk'

/-- Values that are computed from the key and another value of the row. -/
theorem rebuild_map (f : κ → α → β) : rebuild key (fun r => (val r).map (f (key r))) rows k =
    (rebuild key val rows k).map (f k) := by
  induction rows using List.reverseRecOn with
  | nil => rfl
  | append_singleton rows r ih =>
      rw [rebuild_concat, rebuild_concat]
      by_cases hk : key r = k
      · cases hv : val r with
        | none =>
            rw [setRow_of_none hv, setRow_of_none, ih]
            rw [hv]
            rfl
        | some w =>
            rw [setRow_of_some hk hv]
            rw [setRow_of_some hk]
            · rfl
            · rw [hv, hk]
              rfl
      · rw [setRow_of_ne hk, setRow_of_ne hk, ih]

end Basis
