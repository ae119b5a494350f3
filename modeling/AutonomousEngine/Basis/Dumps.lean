import AutonomousEngine.Basis.ExtRat
import AutonomousEngine.Basis.JsonDict

/-!
# `json.dumps` of Python values

A Python value has dictionaries with keys of several types, and `json.dumps` makes
texts of all of them.  With `sort_keys` it takes the items in the order of the
keys, not of their texts: 2 stands before 10 and `"10"` before `"2"`.  A value is
`stable` when the two orders agree in every dictionary in it.  These are the
values whose sorted text is also the one of what is read back from their text
(`sortedTree_iff`).
-/

namespace Basis

/-- Floating point numbers with their values. -/
structure PyFloats extends Floats where
  value : F → ExtRat

/-- A key that can be written. -/
inductive PyKey (F : Type) where
  | none
  | bool (b : Bool)
  | int (n : ℤ)
  | float (x : F)
  | str (s : List CodePoint)

/-- A value that can be written, with the items of a dictionary in the order they
were set. -/
inductive PyVal (F : Type) where
  | none
  | bool (b : Bool)
  | int (n : ℤ)
  | float (x : F)
  | str (s : List CodePoint)
  | list (xs : List (PyVal F))
  | tuple (xs : List (PyVal F))
  | dict (items : List (PyKey F × PyVal F))

/-- A property of all values, from that of the values in them. -/
@[elab_as_elim] theorem PyVal.ind {F : Type} {P : PyVal F → Prop} (none : P .none)
    (bool : ∀ b, P (.bool b)) (int : ∀ n, P (.int n)) (float : ∀ x, P (.float x))
    (str : ∀ s, P (.str s)) (list : ∀ xs, (∀ v ∈ xs, P v) → P (.list xs))
    (tuple : ∀ xs, (∀ v ∈ xs, P v) → P (.tuple xs))
    (dict : ∀ items, (∀ m ∈ items, P m.2) → P (.dict items)) (v : PyVal F) : P v :=
  @PyVal.rec F P (fun xs => ∀ v ∈ xs, P v) (fun ms => ∀ m ∈ ms, P m.2) (fun m => P m.2)
    none bool int float str list tuple dict
    (fun _ h => by cases h)
    (fun _ _ hv hxs _ h => by
      cases h with
      | head => exact hv
      | tail _ h => exact hxs _ h)
    (fun _ h => by cases h)
    (fun _ _ hm hms _ h => by
      cases h with
      | head => exact hm
      | tail _ h => exact hms _ h)
    (fun _ _ hv => hv) v

variable (fl : PyFloats)

/-! ## The text of a key and the order of keys -/

/-- What is written for a key. -/
def keyText : PyKey fl.F → List CodeUnit
  | .none => unitsOfText "null".toList
  | .bool b => unitsOfText (if b then "true".toList else "false".toList)
  | .int n => unitsOfText (intText n)
  | .float x => unitsOfText (fl.text x)
  | .str s => encode s

/-- Items with the texts of their keys. -/
def named {α : Type} (items : List (PyKey fl.F × α)) : List (List CodeUnit × α) :=
  items.map fun m => (keyText fl m.1, m.2)

def keyString : PyKey fl.F → Option (List CodePoint)
  | .str s => some s
  | _ => none

/-- The number of a key, `True` is 1 and `False` is 0. -/
def keyNumber : PyKey fl.F → Option ExtRat
  | .bool b => some (.of (if b then 1 else 0))
  | .int n => some (.of n)
  | .float x => some (fl.value x)
  | _ => none

/-- Items in the order of their keys.  Several keys are compared, which fails
unless all are strings or all are numbers. -/
def sortItems {α : Type} (items : List (PyKey fl.F × α)) : Option (List (PyKey fl.F × α)) :=
  if items.length ≤ 1 then some items
  else if items.all fun m => (keyString fl m.1).isSome then
    some (items.insertionSort fun a b =>
      strLe ((keyString fl a.1).getD []) ((keyString fl b.1).getD []) = true)
  else if items.all fun m => (keyNumber fl m.1).isSome then
    some (items.insertionSort fun a b =>
      ¬(keyNumber fl b.1).getD .nan < (keyNumber fl a.1).getD .nan)
  else none

theorem sortItems_perm {α : Type} {items s : List (PyKey fl.F × α)}
    (h : sortItems fl items = some s) : s.Perm items := by
  rw [sortItems] at h
  split_ifs at h
  · rw [Option.some.inj h]
  · rw [← Option.some.inj h]
    exact List.perm_insertionSort _ _
  · rw [← Option.some.inj h]
    exact List.perm_insertionSort _ _

/-- All keys that can be compared with a string are strings. -/
theorem isSome_keyString_of_sortItems {α : Type} {items s : List (PyKey fl.F × α)}
    (h : sortItems fl items = some s) {m m' : PyKey fl.F × α} (hm : m ∈ items)
    (hstr : (keyString fl m.1).isSome) (hm' : m' ∈ items) : (keyString fl m'.1).isSome := by
  rw [sortItems] at h
  split_ifs at h with hlen hstrings hnumbers
  · obtain ⟨n, rfl⟩ := List.length_eq_one_iff.mp
      (le_antisymm hlen (List.length_pos_of_mem hm))
    rw [List.mem_singleton.mp hm']
    rwa [List.mem_singleton.mp hm] at hstr
  · exact List.all_eq_true.mp hstrings m' hm'
  · have hnumber := List.all_eq_true.mp hnumbers m hm
    cases hk : m.1 with
    | str t =>
        rw [hk] at hnumber
        cases hnumber
    | _ =>
        rw [hk] at hstr
        cases hstr

/-- The order does not depend on the values. -/
theorem sortItems_map {α β : Type} (f : α → β) (items : List (PyKey fl.F × α)) :
    sortItems fl (items.map fun m => (m.1, f m.2)) =
      (sortItems fl items).map (List.map fun m => (m.1, f m.2)) := by
  simp only [sortItems, List.length_map, List.all_map, Function.comp_def]
  split_ifs
  · rfl
  · refine congrArg some (List.map_insertionSort _ _ _ _ ?_).symm
    exact fun a _ b _ => Iff.rfl
  · refine congrArg some (List.map_insertionSort _ _ _ _ ?_).symm
    exact fun a _ b _ => Iff.rfl
  · rfl

/-- Keys that are strings are in the order of the strings. -/
theorem sortItems_str {α : Type} (ms : List (List CodeUnit × α)) :
    (sortItems fl (ms.map fun m => (.str (decode m.1), m.2))).map (named fl) =
      some (sortMembers ms) := by
  have hnamed (l : List (List CodeUnit × α)) :
      named fl (l.map fun m => (.str (decode m.1), m.2)) = l := by
    simp only [named, List.map_map, Function.comp_def, keyText, encode_decode]
    exact List.map_id l
  have hall : ((ms.map fun m => ((.str (decode m.1) : PyKey fl.F), m.2)).all
      fun m => (keyString fl m.1).isSome) = true := by
    simp [keyString]
  rw [sortItems, if_pos hall]
  split
  next hlen =>
    rw [List.length_map] at hlen
    rw [Option.map_some, hnamed]
    refine congrArg some (List.Pairwise.insertionSort_eq ?_).symm
    cases ms with
    | nil => exact .nil
    | cons m rest =>
        obtain rfl : rest = [] := List.length_eq_zero_iff.mp (by simpa using hlen)
        exact List.pairwise_singleton _ m
  next =>
    have hsort := List.map_insertionSort (fun a b => memberLe a b = true) (fun a b =>
      strLe ((keyString fl a.1).getD []) ((keyString fl b.1).getD []) = true)
      (fun m => ((.str (decode m.1) : PyKey fl.F), m.2)) ms fun a _ b _ => Iff.rfl
    rw [Option.map_some, ← hsort, hnamed]
    rfl

/-! ## Writing -/

mutual

/-- What is written without `sort_keys`. -/
def plain : PyVal fl.F → Json fl.F
  | .none => .null
  | .bool b => .bool b
  | .int n => .int n
  | .float x => .float x
  | .str s => .str (encode s)
  | .list xs => .arr (plainItems xs)
  | .tuple xs => .arr (plainItems xs)
  | .dict items => .obj (plainMembers items)

def plainItems : List (PyVal fl.F) → List (Json fl.F)
  | [] => []
  | v :: xs => plain v :: plainItems xs

def plainMembers : List (PyKey fl.F × PyVal fl.F) → List (List CodeUnit × Json fl.F)
  | [] => []
  | (k, v) :: items => (keyText fl k, plain v) :: plainMembers items

end

mutual

/-- What is written with `sort_keys`, nothing when keys cannot be compared. -/
def sortedTree : PyVal fl.F → Option (Json fl.F)
  | .none => some .null
  | .bool b => some (.bool b)
  | .int n => some (.int n)
  | .float x => some (.float x)
  | .str s => some (.str (encode s))
  | .list xs => (sortedItems xs).map .arr
  | .tuple xs => (sortedItems xs).map .arr
  | .dict items => (sortedMembers items).bind fun ts =>
      (sortItems fl ts).map fun s => .obj (named fl s)

def sortedItems : List (PyVal fl.F) → Option (List (Json fl.F))
  | [] => some []
  | v :: xs => (sortedTree v).bind fun t => (sortedItems xs).map fun ts => t :: ts

def sortedMembers : List (PyKey fl.F × PyVal fl.F) → Option (List (PyKey fl.F × Json fl.F))
  | [] => some []
  | (k, v) :: items => (sortedTree v).bind fun t =>
      (sortedMembers items).map fun ts => (k, t) :: ts

end

/-- `json.dumps(v)`. -/
def dumps (v : PyVal fl.F) : List Char := print fl.toFloats (plain fl v)

/-- `json.dumps(v, sort_keys=True)`. -/
def dumpsSorted (v : PyVal fl.F) : Option (List Char) :=
  (sortedTree fl v).map (print fl.toFloats)

/-! ## Reading -/

mutual

/-- A value that was read. -/
def ofJson : Json fl.F → PyVal fl.F
  | .null => .none
  | .bool b => .bool b
  | .int n => .int n
  | .float x => .float x
  | .str us => .str (decode us)
  | .arr xs => .list (ofJsonItems xs)
  | .obj ms => .dict (ofJsonMembers ms)

def ofJsonItems : List (Json fl.F) → List (PyVal fl.F)
  | [] => []
  | v :: xs => ofJson v :: ofJsonItems xs

def ofJsonMembers : List (List CodeUnit × Json fl.F) → List (PyKey fl.F × PyVal fl.F)
  | [] => []
  | (k, v) :: ms => (.str (decode k), ofJson v) :: ofJsonMembers ms

end

/-! ## The parts of a value -/

theorem plainItems_eq (xs : List (PyVal fl.F)) : plainItems fl xs = xs.map (plain fl) := by
  induction xs with
  | nil => rw [plainItems, List.map_nil]
  | cons v xs ih => rw [plainItems, ih, List.map_cons]

theorem plainMembers_eq (items : List (PyKey fl.F × PyVal fl.F)) :
    plainMembers fl items = items.map fun m => (keyText fl m.1, plain fl m.2) := by
  induction items with
  | nil => rw [plainMembers, List.map_nil]
  | cons m items ih => rw [plainMembers, ih, List.map_cons]

theorem ofJsonItems_eq (xs : List (Json fl.F)) : ofJsonItems fl xs = xs.map (ofJson fl) := by
  induction xs with
  | nil => rw [ofJsonItems, List.map_nil]
  | cons v xs ih => rw [ofJsonItems, ih, List.map_cons]

theorem ofJsonMembers_eq (ms : List (List CodeUnit × Json fl.F)) :
    ofJsonMembers fl ms = ms.map fun m => (.str (decode m.1), ofJson fl m.2) := by
  induction ms with
  | nil => rw [ofJsonMembers, List.map_nil]
  | cons m ms ih => rw [ofJsonMembers, ih, List.map_cons]

/-- The items are written one by one. -/
theorem sortedItems_eq_some {xs : List (PyVal fl.F)} {ts : List (Json fl.F)} :
    sortedItems fl xs = some ts ↔
      List.Forall₂ (fun v t => sortedTree fl v = some t) xs ts := by
  induction xs generalizing ts with
  | nil =>
      rw [sortedItems, Option.some.injEq, List.forall₂_nil_left_iff]
      exact eq_comm
  | cons v xs ih =>
      rw [sortedItems, Option.bind_eq_some_iff]
      constructor
      · rintro ⟨t, ht, hts⟩
        obtain ⟨ts', hts', rfl⟩ := Option.map_eq_some_iff.mp hts
        exact .cons ht (ih.mp hts')
      · rintro (_ | ⟨ht, hts⟩)
        exact ⟨_, ht, by rw [ih.mpr hts, Option.map_some]⟩

/-- The values of a dictionary are written one by one. -/
theorem sortedMembers_eq_some {items : List (PyKey fl.F × PyVal fl.F)}
    {ts : List (PyKey fl.F × Json fl.F)} : sortedMembers fl items = some ts ↔
      List.Forall₂ (fun m t => m.1 = t.1 ∧ sortedTree fl m.2 = some t.2) items ts := by
  induction items generalizing ts with
  | nil =>
      rw [sortedMembers, Option.some.injEq, List.forall₂_nil_left_iff]
      exact eq_comm
  | cons m items ih =>
      rw [sortedMembers, Option.bind_eq_some_iff]
      constructor
      · rintro ⟨t, ht, hts⟩
        obtain ⟨ts', hts', rfl⟩ := Option.map_eq_some_iff.mp hts
        exact .cons ⟨rfl, ht⟩ (ih.mp hts')
      · rintro (_ | ⟨⟨hk, ht⟩, hts⟩)
        refine ⟨_, ht, ?_⟩
        rw [ih.mpr hts, Option.map_some, hk]

/-- What was read is written in the order of the names. -/
theorem sortedTree_ofJson (v : Json fl.F) : sortedTree fl (ofJson fl v) = some v.canon := by
  induction v using Json.ind with
  | null => rw [ofJson, sortedTree, Json.canon]
  | bool b => rw [ofJson, sortedTree, Json.canon]
  | int n => rw [ofJson, sortedTree, Json.canon]
  | float x => rw [ofJson, sortedTree, Json.canon]
  | str us => rw [ofJson, sortedTree, Json.canon, encode_decode]
  | arr xs ih =>
      have hitems : sortedItems fl (xs.map (ofJson fl)) = some (xs.map Json.canon) := by
        rw [sortedItems_eq_some, List.forall₂_map_left_iff, List.forall₂_map_right_iff,
          List.forall₂_same]
        exact ih
      rw [ofJson, ofJsonItems_eq, sortedTree, hitems, Json.canon, canonItems_eq, Option.map_some]
  | obj ms ih =>
      have hmembers : sortedMembers fl (ms.map fun m => (.str (decode m.1), ofJson fl m.2)) =
          some (ms.map fun m => (.str (decode m.1), m.2.canon)) := by
        rw [sortedMembers_eq_some, List.forall₂_map_left_iff, List.forall₂_map_right_iff,
          List.forall₂_same]
        exact fun m hm => ⟨rfl, ih m hm⟩
      have hsort := sortItems_str fl (ms.map fun m => (m.1, m.2.canon))
      rw [List.map_map] at hsort
      obtain ⟨s, hs, hnamed⟩ := Option.map_eq_some_iff.mp hsort
      rw [ofJson, ofJsonMembers_eq, sortedTree, hmembers, Json.canon, canonMembers_eq, ← hnamed,
        Option.bind_some]
      exact congrArg (Option.map _) hs

/-! ## Stable values -/

/-- Whether one string stands before another. -/
def strLt (s t : List CodePoint) : Bool := strLe s t && s != t

/-- Whether the names of members go up. -/
def Ascending {α : Type} (ms : List (List CodeUnit × α)) : Prop :=
  ms.Pairwise fun a b => strLt (decode a.1) (decode b.1) = true

instance {α : Type} (ms : List (List CodeUnit × α)) : Decidable (Ascending ms) :=
  inferInstanceAs (Decidable (ms.Pairwise _))

mutual

/-- Whether in every dictionary of a value the texts of the keys go up when the
keys do. -/
def stable : PyVal fl.F → Bool
  | .none => true
  | .bool _ => true
  | .int _ => true
  | .float _ => true
  | .str _ => true
  | .list xs => stableItems xs
  | .tuple xs => stableItems xs
  | .dict items => stableMembers items &&
      (sortItems fl (items.map fun m => (m.1, ()))).all fun s => decide (Ascending (named fl s))

def stableItems : List (PyVal fl.F) → Bool
  | [] => true
  | v :: xs => stable v && stableItems xs

def stableMembers : List (PyKey fl.F × PyVal fl.F) → Bool
  | [] => true
  | (_, v) :: items => stable v && stableMembers items

end

theorem stableItems_iff (xs : List (PyVal fl.F)) :
    stableItems fl xs = true ↔ ∀ v ∈ xs, stable fl v = true := by
  induction xs with
  | nil => simp [stableItems]
  | cons v xs ih => simp [stableItems, ih]

theorem stableMembers_iff (items : List (PyKey fl.F × PyVal fl.F)) :
    stableMembers fl items = true ↔ ∀ m ∈ items, stable fl m.2 = true := by
  induction items with
  | nil => simp [stableMembers]
  | cons m items ih => simp [stableMembers, ih]

theorem ascending_map {α β : Type} (f : α → β) (ms : List (List CodeUnit × α)) :
    Ascending (ms.map fun m => (m.1, f m.2)) ↔ Ascending ms :=
  List.pairwise_map

theorem ascending_iff {α : Type} {ms : List (List CodeUnit × α)} : Ascending ms ↔
    (ms.map Prod.fst).Nodup ∧ ms.Pairwise fun a b => memberLe a b = true := by
  rw [List.Nodup, List.pairwise_map, ← List.pairwise_and_iff, Ascending]
  refine List.Pairwise.iff fun a b => ?_
  rw [strLt, Bool.and_eq_true, bne_iff_ne, ne_eq, decode_injective.eq_iff]
  exact and_comm

/-- A dictionary whose values are stable is stable when the texts of its keys go up
in the order of the keys. -/
theorem stable_dict_iff {items : List (PyKey fl.F × PyVal fl.F)} {α : Type}
    {ts s : List (PyKey fl.F × α)} (hkeys : items.map Prod.fst = ts.map Prod.fst)
    (hs : sortItems fl ts = some s) :
    stable fl (.dict items) = true ↔
      (∀ m ∈ items, stable fl m.2 = true) ∧ Ascending (named fl s) := by
  have hunit : items.map (fun m => (m.1, ())) = ts.map fun m => (m.1, ()) := by
    have h := congrArg (List.map fun k => (k, ())) hkeys
    rwa [List.map_map, List.map_map] at h
  have hnamed : named fl (s.map fun m => (m.1, ())) = (named fl s).map fun m => (m.1, ()) := by
    simp only [named, List.map_map]
    rfl
  have hsort := sortItems_map fl (fun _ => ()) ts
  have hasc := ascending_map (fun _ => ()) (named fl s)
  rw [stable, Bool.and_eq_true, stableMembers_iff, hunit, hsort, hs, Option.map_some,
    Option.all_some, decide_eq_true_eq, hnamed, hasc]

/-- The members of a dictionary as they are read back. -/
theorem canon_plain_dict (items : List (PyKey fl.F × PyVal fl.F)) :
    (plain fl (.dict items)).asDict.canon = .obj (sortMembers ((dictOf (items.map fun m =>
      (keyText fl m.1, (plain fl m.2).asDict))).map fun m => (m.1, m.2.canon))) := by
  rw [plain, plainMembers_eq, Json.asDict, dictMembers_eq, Json.canon, canonMembers_eq,
    List.map_map]
  rfl

/-- Items whose values are written as they are read back. -/
theorem eq_map_of_forall₂ {items : List (PyKey fl.F × PyVal fl.F)}
    {ts : List (PyKey fl.F × Json fl.F)}
    (h : List.Forall₂ (fun m t => m.1 = t.1 ∧ sortedTree fl m.2 = some t.2) items ts)
    (heq : ∀ m ∈ items, ∀ t, sortedTree fl m.2 = some t → t = (plain fl m.2).asDict.canon) :
    ts = items.map fun m => (m.1, (plain fl m.2).asDict.canon) := by
  induction h with
  | nil => rfl
  | @cons m t items ts hmt _ ih =>
      rw [List.map_cons, ih fun m hm => heq m (.tail _ hm), hmt.1, ← heq m (.head _) _ hmt.2]

/-- The items of a list are written as they are read back when they are stable. -/
theorem eq_map_iff_stable {xs : List (PyVal fl.F)} {ts : List (Json fl.F)}
    (h : List.Forall₂ (fun v t => sortedTree fl v = some t) xs ts)
    (hiff : ∀ v ∈ xs, ∀ t, sortedTree fl v = some t →
      (t = (plain fl v).asDict.canon ↔ stable fl v = true)) :
    ts = xs.map (fun v => (plain fl v).asDict.canon) ↔ ∀ v ∈ xs, stable fl v = true := by
  induction h with
  | nil => simp
  | @cons v t xs ts hvt _ ih =>
      rw [List.map_cons, List.cons.injEq, ih fun w hw => hiff w (.tail _ hw),
        hiff v (.head _) t hvt, List.forall_mem_cons]

theorem exists_of_mem_of_forall₂ {α β : Type} {R : α → β → Prop} {xs : List α} {ys : List β}
    (h : List.Forall₂ R xs ys) {x : α} (hx : x ∈ xs) : ∃ y ∈ ys, R x y := by
  induction h with
  | nil => cases hx
  | @cons a b xs ys hab _ ih =>
      rcases List.mem_cons.mp hx with rfl | hx
      · exact ⟨b, .head _, hab⟩
      · obtain ⟨y, hy, hxy⟩ := ih hx
        exact ⟨y, .tail _ hy, hxy⟩

/-- Items with different texts of their keys are written as they are read back when
the written members are among those that are read back. -/
theorem forall_mem_stable {items : List (PyKey fl.F × PyVal fl.F)}
    {ts : List (PyKey fl.F × Json fl.F)}
    (h : List.Forall₂ (fun m t => m.1 = t.1 ∧ sortedTree fl m.2 = some t.2) items ts)
    (hnodup : (items.map fun m => keyText fl m.1).Nodup)
    (hsub : named fl ts ⊆ items.map fun m => (keyText fl m.1, (plain fl m.2).asDict.canon))
    (ih : ∀ m ∈ items, ∀ t, sortedTree fl m.2 = some t →
      (t = (plain fl m.2).asDict.canon ↔ stable fl m.2 = true)) :
    ∀ m ∈ items, stable fl m.2 = true := by
  intro m hm
  obtain ⟨t, ht, hkey, htree⟩ := exists_of_mem_of_forall₂ h hm
  obtain ⟨m', hm', heq⟩ := List.mem_map.mp (hsub (List.mem_map_of_mem ht))
  obtain ⟨hname, hvalue⟩ := Prod.mk.inj heq
  rw [← hkey] at hname
  obtain rfl := List.inj_on_of_nodup_map hnodup hm' hm hname
  exact (ih m' hm t.2 htree).mp hvalue.symm

theorem sortedTree_dict {items : List (PyKey fl.F × PyVal fl.F)} {t : Json fl.F}
    (h : sortedTree fl (.dict items) = some t) : ∃ ts s : List (PyKey fl.F × Json fl.F),
      List.Forall₂ (fun m t => m.1 = t.1 ∧ sortedTree fl m.2 = some t.2) items ts ∧
        sortItems fl ts = some s ∧ t = .obj (named fl s) := by
  rw [sortedTree, Option.bind_eq_some_iff] at h
  obtain ⟨ts, hts, hrest⟩ := h
  obtain ⟨s, hs, rfl⟩ := Option.map_eq_some_iff.mp hrest
  exact ⟨ts, s, (sortedMembers_eq_some fl).mp hts, hs, rfl⟩

/-- The sorted items have the keys of the dictionary. -/
theorem keys_eq_of_forall₂ {items : List (PyKey fl.F × PyVal fl.F)}
    {ts : List (PyKey fl.F × Json fl.F)}
    (h : List.Forall₂ (fun m t => m.1 = t.1 ∧ sortedTree fl m.2 = some t.2) items ts) :
    items.map Prod.fst = ts.map Prod.fst := by
  rw [← List.forall₂_eq_eq_eq, List.forall₂_map_left_iff, List.forall₂_map_right_iff]
  exact h.imp fun _ _ hmt => hmt.1

theorem names_eq {α β : Type} {items : List (PyKey fl.F × α)} {ts : List (PyKey fl.F × β)}
    (h : items.map Prod.fst = ts.map Prod.fst) :
    (named fl ts).map Prod.fst = items.map fun m => keyText fl m.1 := by
  have hmap := congrArg (List.map (keyText fl)) h
  rw [List.map_map, List.map_map] at hmap
  rw [named, List.map_map]
  exact hmap.symm

/-- The texts of the keys of a stable dictionary differ. -/
theorem nodup_keyText {items : List (PyKey fl.F × PyVal fl.F)} {t : Json fl.F}
    (h : sortedTree fl (.dict items) = some t) (hstable : stable fl (.dict items) = true) :
    (items.map fun m => keyText fl m.1).Nodup := by
  obtain ⟨ts, s, hts, hs, -⟩ := sortedTree_dict fl h
  have hkeys := keys_eq_of_forall₂ fl hts
  obtain ⟨hdistinct, -⟩ := ascending_iff.mp ((stable_dict_iff fl hkeys hs).mp hstable).2
  rw [← names_eq fl hkeys]
  exact (((sortItems_perm fl hs).map _).map _).nodup_iff.mp hdistinct

/-- A dictionary is written as it is read back exactly when it is stable, if that
holds of its values. -/
theorem sortedTree_dict_iff {items : List (PyKey fl.F × PyVal fl.F)} {t : Json fl.F}
    (h : sortedTree fl (.dict items) = some t)
    (ih : ∀ m ∈ items, ∀ t, sortedTree fl m.2 = some t →
      (t = (plain fl m.2).asDict.canon ↔ stable fl m.2 = true)) :
    t = (plain fl (.dict items)).asDict.canon ↔ stable fl (.dict items) = true := by
  obtain ⟨ts, s, hts, hs, rfl⟩ := sortedTree_dict fl h
  have hkeys := keys_eq_of_forall₂ fl hts
  have hperm : (named fl s).Perm (named fl ts) := (sortItems_perm fl hs).map _
  have hdict (hnodup : (items.map fun m => keyText fl m.1).Nodup) :
      (plain fl (.dict items)).asDict.canon = .obj (sortMembers (items.map fun m =>
        (keyText fl m.1, (plain fl m.2).asDict.canon))) := by
    rw [canon_plain_dict, dictOf_of_nodup (by rwa [List.map_map]), List.map_map]
    rfl
  constructor
  · intro heq
    rw [canon_plain_dict] at heq
    have hsorted := Json.obj.inj heq
    have hdistinct : ((named fl s).map Prod.fst).Nodup := by
      rw [hsorted]
      refine ((sortMembers_perm _).map _).nodup_iff.mpr ?_
      rw [List.map_map]
      exact nodup_dictOf _
    have hnodup : (items.map fun m => keyText fl m.1).Nodup := by
      rw [← names_eq fl hkeys]
      exact (hperm.map _).nodup_iff.mp hdistinct
    have heq' := (canon_plain_dict fl items).symm.trans (hdict hnodup)
    rw [← heq] at heq'
    refine (stable_dict_iff fl hkeys hs).mpr ⟨forall_mem_stable fl hts hnodup (fun m hm => ?_) ih,
      ascending_iff.mpr ⟨hdistinct, hsorted ▸ sortMembers_pairwise _⟩⟩
    have hmem := hperm.symm.subset hm
    rw [Json.obj.inj heq'] at hmem
    exact (sortMembers_perm _).subset hmem
  · intro hstable
    have hnodup := nodup_keyText fl h hstable
    obtain ⟨hvalues, hasc⟩ := (stable_dict_iff fl hkeys hs).mp hstable
    have hmap : items.map (fun m => (keyText fl m.1, (plain fl m.2).asDict.canon)) =
        named fl ts := by
      rw [eq_map_of_forall₂ fl hts fun m hm t ht => (ih m hm t ht).mpr (hvalues m hm), named,
        List.map_map]
      rfl
    rw [hdict hnodup, hmap, sortMembers_unique hperm (names_eq fl hkeys ▸ hnodup)
      (ascending_iff.mp hasc).2]

/-- The sorted text of a value is that of what is read back from its text exactly
when the value is stable. -/
theorem sortedTree_iff (v : PyVal fl.F) : ∀ {t}, sortedTree fl v = some t →
    (t = (plain fl v).asDict.canon ↔ stable fl v = true) := by
  have hlist {xs : List (PyVal fl.F)} {t : Json fl.F} (h : (sortedItems fl xs).map .arr = some t)
      (ih : ∀ v ∈ xs, ∀ {t}, sortedTree fl v = some t →
        (t = (plain fl v).asDict.canon ↔ stable fl v = true)) :
      t = (Json.arr (plainItems fl xs)).asDict.canon ↔ stableItems fl xs = true := by
    obtain ⟨ts, hts, rfl⟩ := Option.map_eq_some_iff.mp h
    rw [plainItems_eq, Json.asDict, dictItems_eq, Json.canon, canonItems_eq, Json.arr.injEq,
      stableItems_iff, List.map_map, List.map_map]
    exact eq_map_iff_stable fl ((sortedItems_eq_some fl).mp hts) fun v hv t ht => ih v hv ht
  induction v using PyVal.ind with
  | none => simp [sortedTree, plain, Json.asDict, Json.canon, stable]
  | bool b => simp [sortedTree, plain, Json.asDict, Json.canon, stable, eq_comm]
  | int n => simp [sortedTree, plain, Json.asDict, Json.canon, stable, eq_comm]
  | float x => simp [sortedTree, plain, Json.asDict, Json.canon, stable, eq_comm]
  | str s => simp [sortedTree, plain, Json.asDict, Json.canon, stable, eq_comm]
  | list xs ih =>
      intro t h
      rw [sortedTree] at h
      rw [plain, stable]
      exact hlist h ih
  | tuple xs ih =>
      intro t h
      rw [sortedTree] at h
      rw [plain, stable]
      exact hlist h ih
  | dict items ih =>
      intro t h
      exact sortedTree_dict_iff fl h fun m hm t ht => ih m hm ht

end Basis
