import Mathlib.Data.List.Forall2
import Mathlib.Data.List.Induction
import Mathlib.Data.Option.Basic

/-!
# Hash chains

Every record of a chain names the hash of the record before it and carries the hash
of its own content.  A walk from the start checks both.  When the hash determines
the content, the last hash of a walk of known length determines all its records
(`commit`).
-/

namespace Basis

/-- How records are chained. -/
structure HashChain (α H : Type) where
  /-- The hash of the record before, as a record names it. -/
  prev : α → Option H
  /-- The hash a record carries. -/
  hash : α → Option H
  /-- The hash of the content of a record. -/
  digest : α → H

namespace HashChain

variable {α H : Type} [DecidableEq H] (C : HashChain α H)

/-- The hash at the end of a chain that starts at a hash, nothing when it is
broken. -/
def walk : H → List α → Option H
  | p, [] => some p
  | p, e :: es =>
      if C.prev e = some p ∧ C.hash e = some (C.digest e) then walk (C.digest e) es else none

@[simp] theorem walk_nil (p : H) : C.walk p [] = some p := rfl

theorem walk_cons_eq_some {p h : H} {e : α} {es : List α} : C.walk p (e :: es) = some h ↔
    (C.prev e = some p ∧ C.hash e = some (C.digest e)) ∧ C.walk (C.digest e) es = some h := by
  rw [walk]
  split
  next hlink => exact (and_iff_right hlink).symm
  next hlink =>
    constructor
    · intro hnone
      cases hnone
    · exact fun hwalk => absurd hwalk.1 hlink

/-- A chain goes on where its first part ends. -/
theorem walk_append (p : H) (es fs : List α) :
    C.walk p (es ++ fs) = (C.walk p es).bind fun q => C.walk q fs := by
  induction es generalizing p with
  | nil => rfl
  | cons e es ih =>
      rw [List.cons_append, walk, walk]
      split
      next => exact ih _
      next => rfl

theorem walk_concat_eq_some {p h : H} {es : List α} {e : α} :
    C.walk p (es ++ [e]) = some h ↔ ∃ q, C.walk p es = some q ∧ C.prev e = some q ∧
      C.hash e = some (C.digest e) ∧ C.digest e = h := by
  rw [walk_append, Option.bind_eq_some_iff]
  simp only [walk_cons_eq_some, walk_nil, Option.some.injEq, and_assoc]

/-- Every record of a chain carries its hash. -/
theorem hash_of_mem {p h : H} {es : List α} (hwalk : C.walk p es = some h) {e : α} (he : e ∈ es) :
    C.hash e = some (C.digest e) := by
  induction es generalizing p with
  | nil => cases he
  | cons f es ih =>
      obtain ⟨hlink, hrest⟩ := C.walk_cons_eq_some.mp hwalk
      rcases List.mem_cons.mp he with rfl | he
      · exact hlink.2
      · exact ih hrest he

/-- Records that are chained alike. -/
theorem walk_map {β : Type} {D : HashChain β H} {f : α → β} {p : H} {es : List α}
    (h : ∀ e ∈ es, D.prev (f e) = C.prev e ∧ D.hash (f e) = C.hash e ∧
      D.digest (f e) = C.digest e) : D.walk p (es.map f) = C.walk p es := by
  induction es generalizing p with
  | nil => rfl
  | cons e es ih =>
      obtain ⟨hprev, hhash, hdigest⟩ := h e (.head _)
      rw [List.map_cons, walk, walk, hprev, hhash, hdigest, ih fun e he => h e (.tail _ he)]

/-- A chain up to a record ends with the hash of the record. -/
theorem walk_take {p h : H} {es : List α} (hwalk : C.walk p es = some h) {j : ℕ} {e : α}
    (he : es[j]? = some e) : C.walk p (es.take (j + 1)) = some (C.digest e) := by
  rw [← List.take_append_drop (j + 1) es, walk_append, Option.bind_eq_some_iff] at hwalk
  obtain ⟨q, hq, -⟩ := hwalk
  rw [hq]
  rw [List.take_add_one, he, Option.toList_some, walk_concat_eq_some] at hq
  obtain ⟨-, -, -, -, rfl⟩ := hq
  rfl

/-- Two chains of one length that end at one hash have the same records, when the
hash of a record determines it. -/
theorem commit {R : α → α → Prop} {p q h : H} {es fs : List α}
    (hR : ∀ a ∈ es, ∀ b ∈ fs, C.hash a = some (C.digest a) → C.hash b = some (C.digest b) →
      C.digest a = C.digest b → R a b ∧ C.prev a = C.prev b)
    (hlen : es.length = fs.length) (he : C.walk p es = some h) (hf : C.walk q fs = some h) :
    List.Forall₂ R es fs := by
  induction es using List.reverseRecOn generalizing fs h with
  | nil =>
      obtain rfl : fs = [] := List.length_eq_zero_iff.mp hlen.symm
      exact .nil
  | append_singleton es e ih =>
      cases fs using List.reverseRecOn with
      | nil => simp at hlen
      | append_singleton fs f =>
          obtain ⟨p', hes, hpe, hhe, hde⟩ := C.walk_concat_eq_some.mp he
          obtain ⟨q', hfs, hpf, hhf, hdf⟩ := C.walk_concat_eq_some.mp hf
          obtain ⟨hef, hprev⟩ := hR e (List.mem_append_right _ (.head _)) f
            (List.mem_append_right _ (.head _)) hhe hhf (hde.trans hdf.symm)
          have hpq : p' = q' := Option.some.inj (hpe.symm.trans (hprev.trans hpf))
          rw [List.length_append, List.length_append, List.length_singleton,
            List.length_singleton, Nat.add_right_cancel_iff] at hlen
          have hrest := ih (fun a ha b hb => hR a (List.mem_append_left _ ha) b
            (List.mem_append_left _ hb)) hlen hes (hpq ▸ hfs)
          exact List.rel_append hrest (.cons hef .nil)

end HashChain

end Basis
