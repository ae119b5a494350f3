import AutonomousEngine.Basis.JsonDict
import Mathlib.Algebra.BigOperators.Group.List.Basic

/-!
# Dictionaries in the order of their keys' arrival

A dictionary is a list of pairs in which no key stands twice.  A key that is set
again stays where it is, and a new one comes last.  The order matters to who walks
over a dictionary, and to nothing else: two facts say what a lookup finds after a
change (`get?_set`, `get?_erase`), and two what a change does to a sum over the
entries (`sumBy_set`, `sumBy_erase`).
-/

namespace Basis

/-- Pairs with different keys. -/
structure Dict (κ α : Type) where
  entries : List (κ × α)
  nodup : (entries.map Prod.fst).Nodup

namespace Dict

variable {κ α : Type} [DecidableEq κ]

def empty : Dict κ α := ⟨[], List.nodup_nil⟩

def get? (d : Dict κ α) (k : κ) : Option α := dictGet k d.entries

def set (d : Dict κ α) (k : κ) (v : α) : Dict κ α :=
  ⟨dictSet k v d.entries, nodup_dictSet k v d.nodup⟩

def erase (d : Dict κ α) (k : κ) : Dict κ α :=
  ⟨d.entries.filter fun e => decide (e.1 ≠ k), d.nodup.sublist (List.filter_sublist.map Prod.fst)⟩

/-- Keeps the entries of some keys. -/
def filterKeys (p : κ → Bool) (d : Dict κ α) : Dict κ α :=
  ⟨d.entries.filter fun e => p e.1, d.nodup.sublist (List.filter_sublist.map Prod.fst)⟩

/-- Changes every value. -/
def mapValues (f : κ → α → α) (d : Dict κ α) : Dict κ α where
  entries := d.entries.map fun e => (e.1, f e.1 e.2)
  nodup := by
    rw [List.map_map]
    exact d.nodup

/-- The sum of a function of the entries. -/
def sumBy {M : Type} [AddCommMonoid M] (f : κ → α → M) (d : Dict κ α) : M :=
  (d.entries.map fun e => f e.1 e.2).sum

/-! ## Lookups -/

@[simp] theorem get?_empty (k : κ) : (empty : Dict κ α).get? k = none := rfl

theorem mem_entries_iff {d : Dict κ α} {k : κ} {v : α} :
    (k, v) ∈ d.entries ↔ d.get? k = some v :=
  (dictGet_eq_some_iff d.nodup).symm

theorem get?_eq_none_iff {d : Dict κ α} {k : κ} : d.get? k = none ↔ k ∉ d.entries.map Prod.fst := by
  rw [Option.eq_none_iff_forall_ne_some]
  constructor
  · intro h hk
    obtain ⟨⟨k', v⟩, he, rfl⟩ := List.mem_map.mp hk
    exact h v (mem_entries_iff.mp he)
  · intro h v hv
    exact h (List.mem_map_of_mem (mem_entries_iff.mpr hv))

@[simp] theorem get?_set (d : Dict κ α) (k k' : κ) (v : α) :
    (d.set k v).get? k' = if k = k' then some v else d.get? k' :=
  dictGet_dictSet k k' v d.entries

@[simp] theorem get?_erase (d : Dict κ α) (k k' : κ) :
    (d.erase k).get? k' = if k = k' then none else d.get? k' := by
  refine Option.ext fun v => ?_
  rw [← mem_entries_iff]
  split
  next h => simp [erase, h]
  next h =>
    rw [← mem_entries_iff]
    simp [erase, Ne.symm h]

@[simp] theorem get?_filterKeys (p : κ → Bool) (d : Dict κ α) (k : κ) :
    (d.filterKeys p).get? k = if p k then d.get? k else none := by
  refine Option.ext fun v => ?_
  rw [← mem_entries_iff]
  split
  next h =>
    rw [← mem_entries_iff]
    simp [filterKeys, h]
  next h => simp [filterKeys, h]

@[simp] theorem get?_mapValues (f : κ → α → α) (d : Dict κ α) (k : κ) :
    (d.mapValues f).get? k = (d.get? k).map (f k) := by
  refine Option.ext fun v => ?_
  rw [← mem_entries_iff, Option.map_eq_some_iff]
  simp only [mapValues, List.mem_map, Prod.exists, Prod.mk.injEq]
  constructor
  · rintro ⟨k', w, hmem, rfl, rfl⟩
    exact ⟨w, mem_entries_iff.mp hmem, rfl⟩
  · rintro ⟨w, hw, rfl⟩
    exact ⟨k, w, mem_entries_iff.mpr hw, rfl, rfl⟩

/-! ## Sums -/

section

variable {M : Type} [AddCommGroup M]

omit [DecidableEq κ] in
@[simp] theorem sumBy_empty (f : κ → α → M) : (empty : Dict κ α).sumBy f = 0 := rfl

/-- What an entry contributes to a sum. -/
def part (f : κ → α → M) (d : Dict κ α) (k : κ) : M := (d.get? k).elim 0 (f k)

theorem sumBy_erase (f : κ → α → M) (d : Dict κ α) (k : κ) :
    (d.erase k).sumBy f = d.sumBy f - d.part f k := by
  cases hk : d.get? k with
  | none =>
      have hall : d.entries.filter (fun e => decide (e.1 ≠ k)) = d.entries :=
        List.filter_eq_self.mpr fun e he => by
          simp only [decide_eq_true_eq]
          rintro rfl
          exact get?_eq_none_iff.mp hk (List.mem_map_of_mem he)
      simp only [sumBy, erase, hall, part, hk, Option.elim_none, sub_zero]
  | some v =>
      have hperm := perm_cons_filter d.nodup (mem_entries_iff.mpr hk)
      have hsum := (hperm.map fun e => f e.1 e.2).sum_eq
      rw [List.map_cons, List.sum_cons] at hsum
      simp only [sumBy, erase, part, hk, Option.elim_some]
      rw [hsum, add_sub_cancel_left]

theorem filter_dictSet (k : κ) (v : α) (entries : List (κ × α)) :
    (dictSet k v entries).filter (fun e => decide (e.1 ≠ k)) =
      entries.filter fun e => decide (e.1 ≠ k) := by
  induction entries with
  | nil => simp [dictSet]
  | cons e entries ih =>
      rw [dictSet]
      split
      next he => simp [he]
      next he =>
        rw [List.filter_cons_of_pos (by simpa using he), List.filter_cons_of_pos (by simpa using he),
          ih]

theorem sumBy_set (f : κ → α → M) (d : Dict κ α) (k : κ) (v : α) :
    (d.set k v).sumBy f = d.sumBy f - d.part f k + f k v := by
  have hset := sumBy_erase f (d.set k v) k
  have herase : ((d.set k v).erase k).sumBy f = (d.erase k).sumBy f := by
    simp only [sumBy, erase, set, filter_dictSet]
  have hpart : (d.set k v).part f k = f k v := by
    simp [part]
  rw [herase, sumBy_erase, hpart] at hset
  rw [hset, sub_add_cancel]

omit [DecidableEq κ] in
theorem sumBy_mapValues (f : κ → α → M) (g : κ → α → α) (d : Dict κ α) :
    (d.mapValues g).sumBy f = d.sumBy fun k v => f k (g k v) := by
  simp [sumBy, mapValues, Function.comp_def]

omit [DecidableEq κ] in
theorem sumBy_add (f g : κ → α → M) (d : Dict κ α) :
    (d.sumBy fun k v => f k v + g k v) = d.sumBy f + d.sumBy g :=
  List.sum_map_add

theorem sumBy_congr {f g : κ → α → M} {d : Dict κ α}
    (h : ∀ k v, d.get? k = some v → f k v = g k v) : d.sumBy f = d.sumBy g := by
  unfold sumBy
  congr 1
  exact List.map_congr_left fun e he => h e.1 e.2 (mem_entries_iff.mp he)

end

end Dict

end Basis
