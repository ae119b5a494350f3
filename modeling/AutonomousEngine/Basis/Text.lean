import Mathlib.Data.List.Basic
import Mathlib.Tactic.IntervalCases

/-!
# Texts in upper case, without blanks around them, and cut at a separator

What `str.upper` and `str.strip` do with a text.  The letters come from a table,
which may write one letter as several, and which leaves alone what it has written.

`splitAtMost` cuts a list at the first occurrences of a separator, at most a
given number of times.  What has been joined by separators comes apart again as
long as the cut parts are free of them: from the front by the first separator
(`append_cons_inj_of_notMem_left`), from the back by the last one
(`append_cons_inj_of_notMem_right`).
-/

namespace Basis

/-- A table of letters in upper case. -/
structure UpperCase where
  table : Char → List Char
  table_table : ∀ c, ∀ d ∈ table c, table d = [d]

/-- A blank, as `str.isspace` has it. -/
def isSpace (c : Char) : Bool :=
  let n := c.toNat
  (9 ≤ n && n ≤ 13) || (28 ≤ n && n ≤ 32) || n == 0x85 || n == 0xA0 || n == 0x1680
    || (0x2000 ≤ n && n ≤ 0x200A) || n == 0x2028 || n == 0x2029 || n == 0x202F || n == 0x205F
    || n == 0x3000

/-- A text without the blanks around it. -/
def strip (l : List Char) : List Char := ((l.dropWhile isSpace).reverse.dropWhile isSpace).reverse

theorem mem_of_mem_strip {l : List Char} {c : Char} (h : c ∈ strip l) : c ∈ l := by
  unfold strip at h
  rw [List.mem_reverse] at h
  have hback := (List.dropWhile_suffix _).subset h
  rw [List.mem_reverse] at hback
  exact (List.dropWhile_suffix _).subset hback

namespace UpperCase

variable (U : UpperCase)

def upper (s : String) : String := String.ofList (s.toList.flatMap U.table)

/-- In upper case and without the blanks around it. -/
def norm (s : String) : String := String.ofList (strip (U.upper s).toList)

/-- A text of letters that the table leaves alone. -/
theorem upper_eq_self {s : String} (h : ∀ c ∈ s.toList, U.table c = [c]) : U.upper s = s := by
  have hfix : ∀ l : List Char, (∀ c ∈ l, U.table c = [c]) → l.flatMap U.table = l := by
    intro l hl
    induction l with
    | nil => rfl
    | cons c l ih =>
        rw [List.flatMap_cons, hl c (.head _), ih fun d hd => hl d (.tail _ hd)]
        rfl
  unfold upper
  rw [hfix _ h, String.ofList_toList]

theorem table_of_mem_upper {s : String} {c : Char} (h : c ∈ (U.upper s).toList) :
    U.table c = [c] := by
  unfold upper at h
  rw [String.toList_ofList, List.mem_flatMap] at h
  obtain ⟨d, _, hd⟩ := h
  exact U.table_table d c hd

@[simp] theorem upper_norm (s : String) : U.upper (U.norm s) = U.norm s := by
  refine U.upper_eq_self fun c hc => ?_
  unfold norm at hc
  rw [String.toList_ofList] at hc
  exact U.table_of_mem_upper (mem_of_mem_strip hc)

/-- The letters of ASCII. -/
def ascii : UpperCase where
  table c := if 97 ≤ c.toNat ∧ c.toNat ≤ 122 then [Char.ofNat (c.toNat - 32)] else [c]
  table_table := by
    have hupper : ∀ n, 65 ≤ n → n ≤ 90 → (Char.ofNat n).toNat = n := by
      intro n hlow hhigh
      interval_cases n <;> rfl
    intro c d hd
    split at hd
    next hlower =>
      have hn := hupper (c.toNat - 32) (by omega) (by omega)
      rw [List.mem_singleton.mp hd, if_neg (by omega)]
    next hother => rw [List.mem_singleton.mp hd, if_neg hother]

end UpperCase

/-! ## Splitting at a separator -/

section

universe u

variable {α : Type u}

/-- Cuts a list at the first separators, at most `n` times. -/
def splitAtMost [DecidableEq α] (sep : α) : Nat → List α → List (List α)
  | _, [] => [[]]
  | n, x :: l =>
      if n = 0 then [x :: l]
      else if x = sep then [] :: splitAtMost sep (n - 1) l
      else
        match splitAtMost sep n l with
        | [] => [[x]]
        | a :: as => (x :: a) :: as

@[simp] theorem splitAtMost_zero [DecidableEq α] (sep : α) (l : List α) :
    splitAtMost sep 0 l = [l] := by
  cases l <;> simp [splitAtMost]

theorem splitAtMost_of_notMem [DecidableEq α] {sep : α} {l : List α} (h : sep ∉ l) (n : Nat) :
    splitAtMost sep n l = [l] := by
  induction l with
  | nil => rfl
  | cons x l ih =>
      have hx : x ≠ sep := fun heq => h (heq ▸ List.mem_cons_self)
      cases n with
      | zero => exact splitAtMost_zero sep _
      | succ n => simp [splitAtMost, hx, ih fun hm => h (List.mem_cons_of_mem x hm)]

theorem splitAtMost_append [DecidableEq α] {sep : α} {a : List α} (h : sep ∉ a) (n : Nat)
    (rest : List α) :
    splitAtMost sep (n + 1) (a ++ sep :: rest) = a :: splitAtMost sep n rest := by
  induction a with
  | nil => simp [splitAtMost]
  | cons x a ih =>
      have hx : x ≠ sep := fun heq => h (heq ▸ List.mem_cons_self)
      simp [splitAtMost, hx, ih fun hm => h (List.mem_cons_of_mem x hm)]

/-- The first separator of two equal joins is the same one. -/
theorem append_cons_inj_of_notMem_left {sep : α} {a b s t : List α} (ha : sep ∉ a) (hb : sep ∉ b)
    (h : a ++ sep :: s = b ++ sep :: t) : a = b ∧ s = t := by
  rcases List.append_eq_append_iff.mp h with ⟨l, rfl, hs⟩ | ⟨l, rfl, ht⟩
  · cases l with
    | nil => exact ⟨by simp, by simpa using hs⟩
    | cons x l =>
        obtain ⟨rfl, -⟩ := List.cons.inj hs
        simp at hb
  · cases l with
    | nil => exact ⟨by simp, by simpa using ht.symm⟩
    | cons x l =>
        obtain ⟨rfl, -⟩ := List.cons.inj ht
        simp at ha

/-- The last separator of two equal joins is the same one. -/
theorem append_cons_inj_of_notMem_right {sep : α} {a b s t : List α} (hs : sep ∉ s)
    (ht : sep ∉ t) (h : a ++ sep :: s = b ++ sep :: t) : a = b ∧ s = t := by
  rcases List.append_eq_append_iff.mp h with ⟨l, hb, hcs⟩ | ⟨l, ha, hct⟩
  · cases l with
    | nil => exact ⟨by simpa using hb.symm, by simpa using hcs⟩
    | cons x l =>
        obtain ⟨-, rfl⟩ := List.cons.inj hcs
        simp at hs
  · cases l with
    | nil => exact ⟨by simpa using ha, by simpa using hct.symm⟩
    | cons x l =>
        obtain ⟨-, rfl⟩ := List.cons.inj hct
        simp at ht

/-- A part without the separator is on one side of it. -/
theorem infix_of_infix_append_cons {sep : α} {p a b : List α} (hp : sep ∉ p)
    (h : p <:+: a ++ sep :: b) : p <:+: a ∨ p <:+: b := by
  obtain ⟨s, t, h⟩ := h
  rcases List.append_eq_append_iff.mp h with ⟨l, ha, -⟩ | ⟨l, hsp, ht⟩
  · exact .inl ⟨s, l, ha.symm⟩
  cases l with
  | nil => exact .inl ⟨s, [], by simpa using hsp⟩
  | cons x l =>
      obtain ⟨rfl, rfl⟩ := List.cons.inj ht
      -- the separator is before the part
      rcases List.append_eq_append_iff.mp hsp with ⟨m, -, hm⟩ | ⟨m, -, hm⟩
      · exact absurd (by simp [hm]) hp
      · cases m with
        | nil =>
            obtain rfl : sep :: l = p := hm
            exact absurd List.mem_cons_self hp
        | cons y m =>
            obtain ⟨-, rfl⟩ := List.cons.inj hm
            exact .inr ⟨m, t, rfl⟩

/-- A list is cut into three parts by two cuts exactly when it has two
separators. -/
theorem splitAtMost_two_eq_iff [DecidableEq α] {sep : α} {l a b c : List α} :
    splitAtMost sep 2 l = [a, b, c] ↔
      sep ∉ a ∧ sep ∉ b ∧ l = a ++ sep :: (b ++ sep :: c) := by
  constructor
  · intro h
    by_cases hl : sep ∈ l
    · obtain ⟨a', r, rfl, ha'⟩ := List.eq_append_cons_of_mem hl
      rw [splitAtMost_append ha'] at h
      obtain ⟨rfl, hr⟩ := List.cons.inj h
      by_cases hm : sep ∈ r
      · obtain ⟨b', c', rfl, hb'⟩ := List.eq_append_cons_of_mem hm
        rw [splitAtMost_append hb'] at hr
        obtain ⟨rfl, hc⟩ := List.cons.inj hr
        obtain rfl : c' = c := by simpa [splitAtMost] using hc
        exact ⟨ha', hb', rfl⟩
      · simp [splitAtMost_of_notMem hm] at hr
    · simp [splitAtMost_of_notMem hl] at h
  · rintro ⟨ha, hb, rfl⟩
    rw [splitAtMost_append ha, splitAtMost_append hb, splitAtMost_zero]

end

end Basis
