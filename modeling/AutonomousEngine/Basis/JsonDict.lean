import AutonomousEngine.Basis.JsonReading
import Mathlib.Data.List.Sort

/-!
# JSON objects as dictionaries

`json.loads` makes a dictionary of an object, in which the last member of a name
wins, and `json.dumps` can write the members in the order of their names.  Two
values that are written alike in this order are equal as dictionaries are
(`same_of_canon`).
-/

namespace Basis

variable {F : Type}

/-! ## Induction over values -/

/-- A property of all values, from that of the values in them. -/
@[elab_as_elim] theorem Json.ind {P : Json F → Prop} (null : P .null) (bool : ∀ b, P (.bool b))
    (int : ∀ n, P (.int n)) (float : ∀ x, P (.float x)) (str : ∀ us, P (.str us))
    (arr : ∀ xs, (∀ v ∈ xs, P v) → P (.arr xs)) (obj : ∀ ms, (∀ m ∈ ms, P m.2) → P (.obj ms))
    (v : Json F) : P v :=
  @Json.rec F P (fun xs => ∀ v ∈ xs, P v) (fun ms => ∀ m ∈ ms, P m.2) (fun m => P m.2)
    null bool int float str arr obj
    (fun _ h => by cases h)
    (fun _ _ hv hxs _ h => by
      cases h with
      | head => exact hv
      | tail _ h => exact hxs _ h)
    (fun _ h => by cases h)
    (fun _ _ hm hms _ h => by
      cases h with
      | head => exact hm
      | tail _ h => exact hms _ h)
    (fun _ _ hv => hv) v

/-! ## Dictionaries -/

section

variable {κ α : Type} [DecidableEq κ]

/-- Sets a key of a dictionary, which stays where it is when it is there. -/
def dictSet (k : κ) (v : α) : List (κ × α) → List (κ × α)
  | [] => [(k, v)]
  | e :: d => if e.1 = k then (k, v) :: d else e :: dictSet k v d

/-- The dictionary of some pairs. -/
def dictOf (ps : List (κ × α)) : List (κ × α) := ps.foldl (fun d p => dictSet p.1 p.2 d) []

/-- The value of a key. -/
def dictGet (k : κ) (d : List (κ × α)) : Option α := (d.find? (·.1 = k)).map Prod.snd

theorem dictSet_of_notMem {k : κ} (v : α) {d : List (κ × α)} (h : k ∉ d.map Prod.fst) :
    dictSet k v d = d ++ [(k, v)] := by
  induction d with
  | nil => rfl
  | cons e d ih =>
      rw [List.map_cons, List.mem_cons, not_or] at h
      rw [dictSet, if_neg (Ne.symm h.1), ih h.2, List.cons_append]

theorem map_fst_dictSet_of_mem {k : κ} (v : α) {d : List (κ × α)} (h : k ∈ d.map Prod.fst) :
    (dictSet k v d).map Prod.fst = d.map Prod.fst := by
  induction d with
  | nil => cases h
  | cons e d ih =>
      rw [dictSet]
      split
      next he => rw [List.map_cons, List.map_cons, he]
      next he =>
        rw [List.map_cons, List.mem_cons] at h
        rw [List.map_cons, List.map_cons, ih (h.resolve_left (Ne.symm he))]

theorem mem_dictSet (k : κ) (v : α) (d : List (κ × α)) : (k, v) ∈ dictSet k v d := by
  induction d with
  | nil => exact .head _
  | cons e d ih =>
      rw [dictSet]
      split
      · exact .head _
      · exact .tail _ ih

theorem of_mem_dictSet {k : κ} {v : α} {d : List (κ × α)} {e : κ × α} (h : e ∈ dictSet k v d) :
    e = (k, v) ∨ e ∈ d := by
  induction d with
  | nil => exact .inl (List.mem_singleton.mp h)
  | cons e' d ih =>
      rw [dictSet] at h
      split at h
      next => exact (List.mem_cons.mp h).imp_right (.tail e')
      next =>
        rcases List.mem_cons.mp h with rfl | h
        · exact .inr (.head _)
        · exact (ih h).imp_right (.tail e')

theorem mem_dictSet_of_ne {k : κ} (v : α) {e : κ × α} {d : List (κ × α)} (he : e ∈ d)
    (hk : e.1 ≠ k) : e ∈ dictSet k v d := by
  induction d with
  | nil => cases he
  | cons e' d ih =>
      rw [dictSet]
      split
      next hkey =>
        rcases List.mem_cons.mp he with rfl | he
        · exact absurd hkey hk
        · exact .tail _ he
      next =>
        rcases List.mem_cons.mp he with rfl | he
        · exact .head _
        · exact .tail _ (ih he)

theorem dictSet_append_of_notMem {k : κ} (v : α) {d : List (κ × α)} (h : k ∉ d.map Prod.fst)
    (d' : List (κ × α)) : dictSet k v (d ++ d') = d ++ dictSet k v d' := by
  induction d with
  | nil => rfl
  | cons e d ih =>
      rw [List.map_cons, List.mem_cons, not_or] at h
      rw [List.cons_append, dictSet, if_neg (Ne.symm h.1), ih h.2, List.cons_append]

theorem dictGet_cons (k : κ) (e : κ × α) (d : List (κ × α)) :
    dictGet k (e :: d) = if e.1 = k then some e.2 else dictGet k d := by
  rw [dictGet]
  split
  next he => rw [List.find?_cons_of_pos (by simpa using he), Option.map_some]
  next he => rw [List.find?_cons_of_neg (by simpa using he), dictGet]

theorem dictGet_dictSet (k k' : κ) (v : α) (d : List (κ × α)) :
    dictGet k' (dictSet k v d) = if k = k' then some v else dictGet k' d := by
  induction d with
  | nil => exact dictGet_cons k' (k, v) []
  | cons e d ih =>
      rw [dictSet]
      split
      next he =>
        rw [dictGet_cons, dictGet_cons, he]
        split <;> rfl
      next he =>
        rw [dictGet_cons, dictGet_cons, ih]
        split
        next he' => rw [if_neg fun hk => he (he'.trans hk.symm)]
        next => rfl

theorem nodup_dictSet (k : κ) (v : α) {d : List (κ × α)} (h : (d.map Prod.fst).Nodup) :
    ((dictSet k v d).map Prod.fst).Nodup := by
  by_cases hk : k ∈ d.map Prod.fst
  · rwa [map_fst_dictSet_of_mem v hk]
  · rw [dictSet_of_notMem v hk, List.map_append]
    exact h.append (List.nodup_singleton k) (by simpa using hk)

/-- A dictionary has every key once. -/
theorem nodup_dictOf (ps : List (κ × α)) : ((dictOf ps).map Prod.fst).Nodup := by
  have hfold : ∀ d : List (κ × α), (d.map Prod.fst).Nodup →
      ((ps.foldl (fun d p => dictSet p.1 p.2 d) d).map Prod.fst).Nodup := by
    induction ps with
    | nil => exact fun d hd => hd
    | cons p ps ih => exact fun d hd => ih _ (nodup_dictSet p.1 p.2 hd)
  exact hfold [] List.nodup_nil

/-- Pairs with different keys are a dictionary already. -/
theorem dictOf_of_nodup {ps : List (κ × α)} (h : (ps.map Prod.fst).Nodup) : dictOf ps = ps := by
  have hfold : ∀ d : List (κ × α), ((d ++ ps).map Prod.fst).Nodup →
      ps.foldl (fun d p => dictSet p.1 p.2 d) d = d ++ ps := by
    induction ps with
    | nil => exact fun d _ => (List.append_nil d).symm
    | cons p ps ih =>
        intro d hd
        rw [List.map_append, List.map_cons] at hd
        have hp : p.1 ∉ d.map Prod.fst := fun hm =>
          (List.nodup_append.mp hd).2.2 _ hm _ (.head _) rfl
        rw [List.foldl_cons, dictSet_of_notMem _ hp, ih (List.nodup_cons.mp h).2]
        · rw [List.append_assoc, List.singleton_append]
        · rw [List.append_assoc, List.singleton_append, List.map_append, List.map_cons]
          exact hd
  exact hfold [] h

theorem mem_of_mem_dictOf {ps : List (κ × α)} {k : κ} (h : k ∈ (dictOf ps).map Prod.fst) :
    k ∈ ps.map Prod.fst := by
  have hfold : ∀ d : List (κ × α), k ∈ (ps.foldl (fun d p => dictSet p.1 p.2 d) d).map Prod.fst →
      k ∈ d.map Prod.fst ∨ k ∈ ps.map Prod.fst := by
    clear h
    induction ps with
    | nil => exact fun d hd => .inl hd
    | cons p ps ih =>
        intro d hd
        rw [List.map_cons, List.mem_cons]
        rcases ih (dictSet p.1 p.2 d) hd with hset | hps
        · by_cases hp : p.1 ∈ d.map Prod.fst
          · rw [map_fst_dictSet_of_mem p.2 hp] at hset
            exact .inl hset
          · rw [dictSet_of_notMem p.2 hp, List.map_append, List.mem_append] at hset
            rcases hset with hd | hk
            · exact .inl hd
            · exact .inr (.inl (List.mem_singleton.mp hk))
        · exact .inr (.inr hps)
  rcases hfold [] h with hnil | hps
  · cases hnil
  · exact hps

/-- A new key stands at the end. -/
theorem dictOf_concat {ps : List (κ × α)} {k : κ} (v : α) (h : k ∉ ps.map Prod.fst) :
    dictOf (ps ++ [(k, v)]) = dictOf ps ++ [(k, v)] := by
  rw [dictOf, List.foldl_append]
  exact dictSet_of_notMem v fun hk => h (mem_of_mem_dictOf hk)

/-- A dictionary is one of its pairs and the pairs with other keys. -/
theorem perm_cons_filter {p : κ × α} {d : List (κ × α)} (h : (d.map Prod.fst).Nodup)
    (hp : p ∈ d) : d.Perm (p :: d.filter fun e => decide (e.1 ≠ p.1)) := by
  induction d with
  | nil => cases hp
  | cons e d ih =>
      rw [List.map_cons, List.nodup_cons] at h
      rcases List.mem_cons.mp hp with rfl | hp
      · rw [List.filter_cons_of_neg (by simp), List.filter_eq_self.mpr]
        intro e he
        rw [decide_eq_true_iff]
        exact fun hkey => h.1 (hkey ▸ List.mem_map_of_mem he)
      · have hne : e.1 ≠ p.1 := fun hkey => h.1 (hkey ▸ List.mem_map_of_mem hp)
        rw [List.filter_cons_of_pos (by simpa using hne)]
        exact ((ih h.2 hp).cons e).trans (.swap p e _)

theorem dictGet_eq_some_iff {k : κ} {v : α} {d : List (κ × α)} (h : (d.map Prod.fst).Nodup) :
    dictGet k d = some v ↔ (k, v) ∈ d := by
  induction d with
  | nil => simp [dictGet]
  | cons e d ih =>
      rw [List.map_cons, List.nodup_cons] at h
      by_cases he : e.1 = k
      · rw [dictGet, List.find?_cons_of_pos (by simpa using he), List.mem_cons]
        constructor
        · intro hv
          left
          rw [← he, ← Option.some.inj hv]
        · rintro (rfl | hm)
          · rfl
          · exact absurd (List.mem_map_of_mem hm) (he ▸ h.1)
      · have hne : (k, v) ≠ e := fun heq => he (by rw [← heq])
        rw [dictGet, List.find?_cons_of_neg (by simpa using he), List.mem_cons,
          or_iff_right hne, ← ih h.2, dictGet]

end

/-! ## Values with dictionaries -/

mutual

/-- A value with a dictionary for every object. -/
def Json.asDict : Json F → Json F
  | .null => .null
  | .bool b => .bool b
  | .int n => .int n
  | .float x => .float x
  | .str us => .str us
  | .arr xs => .arr (dictItems xs)
  | .obj ms => .obj (dictOf (dictMembers ms))

def dictItems : List (Json F) → List (Json F)
  | [] => []
  | v :: xs => v.asDict :: dictItems xs

def dictMembers : List (List CodeUnit × Json F) → List (List CodeUnit × Json F)
  | [] => []
  | (k, v) :: ms => (k, v.asDict) :: dictMembers ms

end

/-- `json.loads`. -/
def loads (fl : Floats) (cs : List Char) : Option (Json fl.F) := (parseJson fl cs).map Json.asDict

theorem dictItems_eq (xs : List (Json F)) : dictItems xs = xs.map Json.asDict := by
  induction xs with
  | nil => rw [dictItems, List.map_nil]
  | cons v xs ih => rw [dictItems, ih, List.map_cons]

theorem dictMembers_eq (ms : List (List CodeUnit × Json F)) :
    dictMembers ms = ms.map fun m => (m.1, m.2.asDict) := by
  induction ms with
  | nil => rw [dictMembers, List.map_nil]
  | cons m ms ih => rw [dictMembers, ih, List.map_cons]

/-- What is loaded has every key once. -/
theorem nodup_of_loads {fl : Floats} {cs : List Char} {ms : List (List CodeUnit × Json fl.F)}
    (h : loads fl cs = some (.obj ms)) : (ms.map Prod.fst).Nodup := by
  obtain ⟨v, -, hv⟩ := Option.map_eq_some_iff.mp h
  cases v with
  | obj ms' =>
      rw [Json.asDict] at hv
      obtain rfl := Json.obj.inj hv
      exact nodup_dictOf _
  | _ => rw [Json.asDict] at hv; cases hv

/-! ## Members in the order of their names -/

/-- The order of the names of members. -/
def memberLe {α : Type} (a b : List CodeUnit × α) : Bool := strLe (decode a.1) (decode b.1)

def sortMembers {α : Type} (ms : List (List CodeUnit × α)) : List (List CodeUnit × α) :=
  ms.insertionSort fun a b => memberLe a b = true

mutual

/-- A value with the members of every object in the order of their names. -/
def Json.canon : Json F → Json F
  | .null => .null
  | .bool b => .bool b
  | .int n => .int n
  | .float x => .float x
  | .str us => .str us
  | .arr xs => .arr (canonItems xs)
  | .obj ms => .obj (sortMembers (canonMembers ms))

def canonItems : List (Json F) → List (Json F)
  | [] => []
  | v :: xs => v.canon :: canonItems xs

def canonMembers : List (List CodeUnit × Json F) → List (List CodeUnit × Json F)
  | [] => []
  | (k, v) :: ms => (k, v.canon) :: canonMembers ms

end

theorem canonItems_eq (xs : List (Json F)) : canonItems xs = xs.map Json.canon := by
  induction xs with
  | nil => rw [canonItems, List.map_nil]
  | cons v xs ih => rw [canonItems, ih, List.map_cons]

theorem canonMembers_eq (ms : List (List CodeUnit × Json F)) :
    canonMembers ms = ms.map fun m => (m.1, m.2.canon) := by
  induction ms with
  | nil => rw [canonMembers, List.map_nil]
  | cons m ms ih => rw [canonMembers, ih, List.map_cons]

section

variable {α : Type}

theorem sortMembers_perm (ms : List (List CodeUnit × α)) : (sortMembers ms).Perm ms :=
  List.perm_insertionSort _ ms

instance : Std.Total fun a b : List CodeUnit × α => memberLe a b = true where
  total a b := by
    rw [← Bool.or_eq_true]
    exact strLe_total _ _

instance : IsTrans (List CodeUnit × α) fun a b => memberLe a b = true where
  trans _ _ _ h h' := strLe_trans h h'

theorem sortMembers_pairwise (ms : List (List CodeUnit × α)) :
    (sortMembers ms).Pairwise fun a b => memberLe a b = true :=
  List.pairwise_insertionSort _ ms

/-- Members with different names have one order only. -/
theorem sortMembers_unique {ms ns : List (List CodeUnit × α)} (hperm : ns.Perm ms)
    (hnodup : (ms.map Prod.fst).Nodup) (hsorted : ns.Pairwise fun a b => memberLe a b = true) :
    sortMembers ms = ns := by
  refine List.Perm.eq_of_pairwise (fun a b ha hb hab hba => ?_) (sortMembers_pairwise ms) hsorted
    ((sortMembers_perm ms).trans hperm.symm)
  have hkey : a.1 = b.1 := decode_injective (strLe_antisymm hab hba)
  exact List.inj_on_of_nodup_map hnodup ((sortMembers_perm ms).subset ha) (hperm.subset hb) hkey

end

/-- A string stands in an object in the order of the names where it stood before. -/
theorem mem_canonMembers {k us : List CodeUnit} {ms : List (List CodeUnit × Json F)} :
    (k, .str us) ∈ sortMembers (canonMembers ms) ↔ (k, .str us) ∈ ms := by
  rw [(sortMembers_perm _).mem_iff, canonMembers_eq, List.mem_map]
  constructor
  · rintro ⟨⟨k', v⟩, hm, heq⟩
    obtain ⟨rfl, hv⟩ := Prod.mk.inj heq
    cases v with
    | str us' =>
        rw [Json.canon] at hv
        rwa [← hv]
    | _ => rw [Json.canon] at hv; cases hv
  · exact fun hm => ⟨_, hm, by rw [Json.canon]⟩

/-- Objects are alike in the order of the names when one member is, and so are the
others. -/
theorem canon_eq_of_filter {ms ns : List (List CodeUnit × Json F)} {m : List CodeUnit × Json F}
    (hms : (ms.map Prod.fst).Nodup) (hns : (ns.map Prod.fst).Nodup) (hm : m ∈ ms) (hn : m ∈ ns)
    (h : Json.canon (.obj (ms.filter fun e => decide (e.1 ≠ m.1))) =
      Json.canon (.obj (ns.filter fun e => decide (e.1 ≠ m.1)))) :
    Json.canon (.obj ms) = Json.canon (.obj ns) := by
  rw [Json.canon, Json.canon, canonMembers_eq, canonMembers_eq, Json.obj.injEq] at h ⊢
  let f (e : List CodeUnit × Json F) := (e.1, e.2.canon)
  have hsort {l : List (List CodeUnit × Json F)} (hl : (l.map Prod.fst).Nodup) (hml : m ∈ l) :
      sortMembers (l.map f) =
        sortMembers (f m :: sortMembers ((l.filter fun e => decide (e.1 ≠ m.1)).map f)) := by
    refine sortMembers_unique ?_ (by rwa [List.map_map]) (sortMembers_pairwise _)
    refine (sortMembers_perm _).trans (((sortMembers_perm _).cons _).trans ?_)
    exact ((perm_cons_filter hl hml).map f).symm
  rw [hsort hms hm, hsort hns hn, h]

/-! ## Equality -/

/-- Equality of loaded values.  The order of the members of an object does not
matter. -/
inductive Same : Json F → Json F → Prop where
  | refl (v : Json F) : Same v v
  | arr {xs ys : List (Json F)} (h : List.Forall₂ Same xs ys) : Same (.arr xs) (.arr ys)
  | obj {ms ns ns' : List (List CodeUnit × Json F)} (perm : List.Perm ns' ns)
      (keys : List.map Prod.fst ms = List.map Prod.fst ns')
      (values : List.Forall₂ Same (List.map Prod.snd ms) (List.map Prod.snd ns')) :
      Same (.obj ms) (.obj ns)

/-- Lists that a function makes alike up to the order. -/
theorem exists_perm_of_perm_map {α β : Type} {f : α → β} {l : List β} {ns : List α}
    (h : l.Perm (ns.map f)) : ∃ ns' : List α, ns'.Perm ns ∧ ns'.map f = l := by
  induction l generalizing ns with
  | nil =>
      obtain rfl : ns = [] := List.map_eq_nil_iff.mp h.nil_eq.symm
      exact ⟨[], .nil, rfl⟩
  | cons b l ih =>
      obtain ⟨a, ha, rfl⟩ := List.mem_map.mp (h.subset (.head _))
      obtain ⟨s, t, rfl⟩ := List.append_of_mem ha
      have hrest : l.Perm ((s ++ t).map f) := by
        rw [List.map_append, List.map_cons] at h
        rw [List.map_append]
        exact (h.trans List.perm_middle).cons_inv
      obtain ⟨ns', hperm, rfl⟩ := ih hrest
      exact ⟨a :: ns', (hperm.cons a).trans List.perm_middle.symm, rfl⟩

/-- Lists of values that are alike item by item. -/
theorem forall₂_same {xs ys : List (Json F)} (h : xs.map Json.canon = ys.map Json.canon)
    (ih : ∀ v ∈ xs, ∀ {w}, Json.canon v = w.canon → Same v w) : List.Forall₂ Same xs ys := by
  induction xs generalizing ys with
  | nil =>
      obtain rfl : ys = [] := List.map_eq_nil_iff.mp h.symm
      exact .nil
  | cons x xs ihs =>
      cases ys with
      | nil => cases h
      | cons y ys =>
          obtain ⟨hxy, hrest⟩ := List.cons.inj h
          exact .cons (ih x (.head _) hxy) (ihs hrest fun v hv => ih v (.tail _ hv))

/-- Values that are alike in the order of the names are equal. -/
theorem same_of_canon {v w : Json F} (h : v.canon = w.canon) : Same v w := by
  induction v using Json.ind generalizing w with
  | null =>
      cases w with
      | null => exact .refl _
      | _ => simp only [Json.canon] at h; cases h
  | bool b =>
      cases w with
      | bool b' =>
          simp only [Json.canon] at h
          rw [h]
          exact .refl _
      | _ => simp only [Json.canon] at h; cases h
  | int n =>
      cases w with
      | int n' =>
          simp only [Json.canon] at h
          rw [h]
          exact .refl _
      | _ => simp only [Json.canon] at h; cases h
  | float x =>
      cases w with
      | float x' =>
          simp only [Json.canon] at h
          rw [h]
          exact .refl _
      | _ => simp only [Json.canon] at h; cases h
  | str us =>
      cases w with
      | str us' =>
          simp only [Json.canon] at h
          rw [h]
          exact .refl _
      | _ => simp only [Json.canon] at h; cases h
  | arr xs ih =>
      cases w with
      | arr ys =>
          rw [Json.canon, Json.canon, canonItems_eq, canonItems_eq] at h
          exact .arr (forall₂_same (Json.arr.inj h) fun v hv _ hvw => ih v hv hvw)
      | _ => simp only [Json.canon] at h; cases h
  | obj ms ih =>
      cases w with
      | obj ns =>
          rw [Json.canon, Json.canon, canonMembers_eq, canonMembers_eq] at h
          have hns := sortMembers_perm (ns.map fun m => (m.1, m.2.canon))
          rw [← Json.obj.inj h] at hns
          obtain ⟨ns', hperm, heq⟩ := exists_perm_of_perm_map ((sortMembers_perm _).symm.trans hns)
          have hkeys := congrArg (List.map Prod.fst) heq
          have hvalues := congrArg (List.map Prod.snd) heq
          simp only [List.map_map] at hkeys hvalues
          refine .obj hperm hkeys.symm (forall₂_same ?_ fun v hv _ hvw => ?_)
          · simp only [List.map_map]
            exact hvalues.symm
          · obtain ⟨m, hm, rfl⟩ := List.mem_map.mp hv
            exact ih m hm hvw
      | _ => simp only [Json.canon] at h; cases h

end Basis
