import AutonomousEngine.Basis.Dict

/-!
# Dictionaries that are built by loops

A loop over a list that sets one key after the other leaves, at each key, what the
last element of that key has set, and what was there before if there is none
(`get?_collect`).  A loop over a dictionary comes to each key once
(`get?_collect_entries`).

`pushLast` sets a key and moves it to the end, and `popFirst` takes the first entry
away: a dictionary used as a queue.  Two dictionaries that answer every lookup alike
have the same entries in another order (`perm_of_get?_eq`).
-/

namespace Basis

namespace Dict

variable {κ α β : Type} [DecidableEq κ]

/-- The keys in their order. -/
def keys (d : Dict κ α) : List κ := d.entries.map Prod.fst

/-- Sets a key, or leaves the dictionary as it is. -/
def put (d : Dict κ α) (k : κ) : Option α → Dict κ α
  | none => d
  | some v => d.set k v

/-- Sets a key and moves it to the end. -/
def pushLast (d : Dict κ α) (k : κ) (v : α) : Dict κ α := (d.erase k).set k v

/-- Takes the first entry away. -/
def popFirst (d : Dict κ α) : Dict κ α :=
  ⟨d.entries.tail, d.nodup.sublist ((List.tail_sublist _).map Prod.fst)⟩

/-- Takes the first `n` entries away. -/
def dropFirst (d : Dict κ α) (n : Nat) : Dict κ α :=
  ⟨d.entries.drop n, d.nodup.sublist ((List.drop_sublist n _).map Prod.fst)⟩

section

variable {d d' : Dict κ α} {k k' : κ} {v : α}

omit [DecidableEq κ] in
theorem ext_entries (h : d.entries = d'.entries) : d = d' := by
  cases d
  cases d'
  cases h
  rfl

omit [DecidableEq κ] in
theorem nodup_keys (d : Dict κ α) : d.keys.Nodup := d.nodup

omit [DecidableEq κ] in
theorem length_keys (d : Dict κ α) : d.keys.length = d.entries.length := List.length_map _

theorem mem_keys : k ∈ d.keys ↔ (d.get? k).isSome := by
  rw [Option.isSome_iff_ne_none, ne_eq, get?_eq_none_iff, not_not]
  rfl

theorem mem_keys_of_get? (h : d.get? k = some v) : k ∈ d.keys := by
  rw [mem_keys, h]
  rfl

@[simp] theorem get?_put (d : Dict κ α) (k k' : κ) (o : Option α) :
    (d.put k o).get? k' = if k = k' then o.or (d.get? k') else d.get? k' := by
  cases o with
  | none => simp [put]
  | some v => simp [put]

@[simp] theorem get?_pushLast (d : Dict κ α) (k k' : κ) (v : α) :
    (d.pushLast k v).get? k' = if k = k' then some v else d.get? k' := by
  rw [pushLast, get?_set]
  split
  next => rfl
  next h => rw [get?_erase, if_neg h]

theorem entries_pushLast (d : Dict κ α) (k : κ) (v : α) :
    (d.pushLast k v).entries = d.entries.filter (fun e => decide (e.1 ≠ k)) ++ [(k, v)] := by
  refine dictSet_of_notMem v ?_
  simp only [erase, List.mem_map, List.mem_filter]
  rintro ⟨e, ⟨-, he⟩, rfl⟩
  simp at he

theorem keys_pushLast (d : Dict κ α) (k : κ) (v : α) :
    (d.pushLast k v).keys = d.keys.filter (fun k' => decide (k' ≠ k)) ++ [k] := by
  rw [keys, entries_pushLast, List.map_append, keys, List.filter_map]
  rfl

omit [DecidableEq κ] in
@[simp] theorem keys_dropFirst (d : Dict κ α) (n : Nat) : (d.dropFirst n).keys = d.keys.drop n :=
  List.map_drop

/-- What is left keeps its values. -/
theorem get?_dropFirst (d : Dict κ α) (n : Nat) (k : κ) :
    (d.dropFirst n).get? k = if k ∈ d.keys.drop n then d.get? k else none := by
  split
  next h =>
    rw [← keys_dropFirst] at h
    obtain ⟨v, hv⟩ := Option.isSome_iff_exists.mp (mem_keys.mp h)
    have hmem : (k, v) ∈ d.entries := List.mem_of_mem_drop (mem_entries_iff.mpr hv)
    rw [hv, mem_entries_iff.mp hmem]
  next h =>
    rw [get?_eq_none_iff]
    rwa [← keys_dropFirst] at h

omit [DecidableEq κ] in
theorem dropFirst_zero (d : Dict κ α) : d.dropFirst 0 = d := ext_entries rfl

omit [DecidableEq κ] in
theorem dropFirst_popFirst (d : Dict κ α) (n : Nat) :
    d.popFirst.dropFirst n = d.dropFirst (n + 1) := by
  refine ext_entries ?_
  show d.entries.tail.drop n = d.entries.drop (n + 1)
  rw [List.drop_tail]

/-- Two dictionaries that answer alike have the same entries. -/
theorem perm_of_get?_eq (h : ∀ k, d.get? k = d'.get? k) : d.entries.Perm d'.entries := by
  refine (List.perm_ext_iff_of_nodup (List.Nodup.of_map _ d.nodup)
    (List.Nodup.of_map _ d'.nodup)).mpr ?_
  rintro ⟨k, v⟩
  rw [mem_entries_iff, mem_entries_iff, h k]

end

/-! ## Loops -/

/-- A loop that sets the key of each element to a function of what is there. -/
def collect {ι : Type} (key : ι → κ) (f : ι → Option α → Option α) (is : List ι)
    (d : Dict κ α) : Dict κ α :=
  is.foldl (fun d i => d.put (key i) (f i (d.get? (key i)))) d

/-- What a loop makes of a value, going over the elements of one key. -/
def collectAt {ι : Type} (f : ι → Option α → Option α) (is : List ι) (o : Option α) : Option α :=
  is.foldl (fun o i => (f i o).or o) o

section

variable {ι : Type} {key : ι → κ} {f : ι → Option α → Option α}

/-- After a loop a key has what its own elements have made of it. -/
theorem get?_collect (is : List ι) (d : Dict κ α) (k : κ) :
    (collect key f is d).get? k = collectAt f (is.filter fun i => key i = k) (d.get? k) := by
  induction is generalizing d with
  | nil => rfl
  | cons i is ih =>
      show (collect key f is (d.put (key i) (f i (d.get? (key i))))).get? k = _
      rw [ih, get?_put]
      by_cases h : key i = k
      · rw [if_pos h, List.filter_cons_of_pos (by simpa using h), h]
        rfl
      · rw [if_neg h, List.filter_cons_of_neg (by simpa using h)]

/-- A loop over keys that looks each of them up. -/
theorem get?_collect_keys (g : κ → Option α) (ks : List κ) (d : Dict κ α) (k : κ) :
    (collect id (fun k _ => g k) ks d).get? k =
      if k ∈ ks then (g k).or (d.get? k) else d.get? k := by
  induction ks generalizing d with
  | nil => rfl
  | cons k' ks ih =>
      show (collect id (fun k _ => g k) ks (d.put k' (g k'))).get? k = _
      rw [ih, get?_put]
      by_cases hk : k' = k
      · subst hk
        cases g k' <;> simp
      · simp [hk, Ne.symm hk]

/-- The entries of one key: at most one. -/
theorem filter_entries (d : Dict κ β) (k : κ) :
    (d.entries.filter fun e => e.1 = k) = ((d.get? k).map fun v => (k, v)).toList := by
  obtain ⟨entries, hnodup⟩ := d
  show entries.filter _ = ((dictGet k entries).map fun v => (k, v)).toList
  induction entries with
  | nil => rfl
  | cons e entries ih =>
      rw [List.map_cons, List.nodup_cons] at hnodup
      rw [dictGet_cons]
      by_cases h : e.1 = k
      · have hrest : entries.filter (fun e => decide (e.1 = k)) = [] := by
          rw [List.filter_eq_nil_iff]
          intro e' he' hk
          refine hnodup.1 (List.mem_map.mpr ⟨e', he', ?_⟩)
          rw [h]
          simpa using hk
        rw [List.filter_cons_of_pos (by simpa using h), hrest, if_pos h]
        obtain ⟨k', v⟩ := e
        obtain rfl : k' = k := h
        rfl
      · rw [List.filter_cons_of_neg (by simpa using h), if_neg h]
        exact ih hnodup.2

/-- A loop over the entries of a dictionary comes to each key once. -/
theorem get?_collect_entries {f : κ × β → Option α → Option α} (b : Dict κ β) (d : Dict κ α)
    (k : κ) : (collect Prod.fst f b.entries d).get? k =
      match b.get? k with
      | none => d.get? k
      | some v => (f (k, v) (d.get? k)).or (d.get? k) := by
  rw [get?_collect, filter_entries]
  cases b.get? k <;> rfl

end

end Dict

end Basis
