import Mathlib.Data.List.Basic
import Mathlib.Order.Fin.Basic

/-!
# Code points and UTF-16

A Python string is a list of code points, and halves of surrogate pairs are code
points too.  In UTF-16 a code point beyond the first 65536 becomes a pair of
halves, and reading joins every such pair.  So what is read can be written back
as it was (`encode_decode`), and a string is read back as it was when no half
stands in it (`decode_encode`).
-/

namespace Basis

/-- A code unit of UTF-16. -/
abbrev CodeUnit := Fin 0x10000

/-- A code point, possibly half of a surrogate pair. -/
abbrev CodePoint := Fin 0x110000

/-- The first half of a pair. -/
def IsHigh (n : ℕ) : Prop := 0xD800 ≤ n ∧ n < 0xDC00

/-- The second half of a pair. -/
def IsLow (n : ℕ) : Prop := 0xDC00 ≤ n ∧ n < 0xE000

instance (n : ℕ) : Decidable (IsHigh n) := inferInstanceAs (Decidable (_ ∧ _))

instance (n : ℕ) : Decidable (IsLow n) := inferInstanceAs (Decidable (_ ∧ _))

/-- The code units of a code point. -/
def unitsOf (c : CodePoint) : List CodeUnit :=
  if h : c.val < 0x10000 then [⟨c.val, h⟩]
  else
    [⟨0xD800 + (c.val - 0x10000) / 0x400, by omega⟩, ⟨0xDC00 + (c.val - 0x10000) % 0x400, by omega⟩]

/-- A string in UTF-16. -/
def encode (s : List CodePoint) : List CodeUnit := s.flatMap unitsOf

/-- A code unit on its own. -/
def single (u : CodeUnit) : CodePoint := ⟨u.val, by omega⟩

/-- A string from UTF-16, with the pairs joined. -/
def decode : List CodeUnit → List CodePoint
  | [] => []
  | [u] => [single u]
  | u :: v :: rest =>
      if h : IsHigh u ∧ IsLow v then
        ⟨0x10000 + ((u.val - 0xD800) * 0x400 + (v.val - 0xDC00)), by
          obtain ⟨⟨_, _⟩, _, _⟩ := h
          omega⟩ :: decode rest
      else single u :: decode (v :: rest)

@[simp] theorem encode_nil : encode [] = [] := rfl

@[simp] theorem encode_cons (c : CodePoint) (s : List CodePoint) :
    encode (c :: s) = unitsOf c ++ encode s := rfl

@[simp] theorem encode_append (s t : List CodePoint) : encode (s ++ t) = encode s ++ encode t :=
  List.flatMap_append

@[simp] theorem unitsOf_single (u : CodeUnit) : unitsOf (single u) = [u] := dif_pos u.isLt

/-- What is read can be written back as it was. -/
theorem encode_decode (us : List CodeUnit) : encode (decode us) = us := by
  induction us using decode.induct with
  | case1 => rfl
  | case2 u => simp [decode]
  | case3 u v rest h ih =>
      obtain ⟨⟨hu, hu'⟩, hv, hv'⟩ := h
      rw [decode, dif_pos ⟨⟨hu, hu'⟩, hv, hv'⟩, encode_cons, ih, unitsOf, dif_neg (by simp)]
      have hhigh : 0xD800 + (0x10000 + ((u.val - 0xD800) * 0x400 + (v.val - 0xDC00)) - 0x10000) /
          0x400 = u.val := by omega
      have hlow : 0xDC00 + (0x10000 + ((u.val - 0xD800) * 0x400 + (v.val - 0xDC00)) - 0x10000) %
          0x400 = v.val := by omega
      simp only [hhigh, hlow, Fin.eta, List.cons_append, List.nil_append]
  | case4 u v rest h ih =>
      rw [decode, dif_neg h, encode_cons, ih, unitsOf_single]
      rfl

theorem decode_injective : Function.Injective decode :=
  Function.LeftInverse.injective encode_decode

/-- A unit that is no first half is read on its own. -/
theorem decode_cons_of_not_high {u : CodeUnit} (h : ¬IsHigh u) (us : List CodeUnit) :
    decode (u :: us) = single u :: decode us := by
  cases us with
  | nil => rfl
  | cons v rest => rw [decode, dif_neg fun hp => h hp.1]

/-- A string without halves of pairs is read back as it was. -/
theorem decode_encode {s : List CodePoint} (h : ∀ c ∈ s, ¬IsHigh c ∧ ¬IsLow c) :
    decode (encode s) = s := by
  induction s with
  | nil => rfl
  | cons c s ih =>
      have hs := ih fun d hd => h d (.tail _ hd)
      rw [encode_cons, unitsOf]
      split
      next hc =>
        rw [List.cons_append, List.nil_append, decode_cons_of_not_high (h c (.head _)).1, hs]
        rfl
      next hc =>
        have hpair : IsHigh (0xD800 + (c.val - 0x10000) / 0x400) ∧
            IsLow (0xDC00 + (c.val - 0x10000) % 0x400) :=
          ⟨⟨by omega, by omega⟩, by omega, by omega⟩
        rw [List.cons_append, List.cons_append, List.nil_append, decode, dif_pos hpair, hs]
        refine congrArg (· :: s) (Fin.ext ?_)
        dsimp only
        omega

/-- A string below the halves of pairs has no other string with its text. -/
theorem eq_of_encode_eq {s t : List CodePoint} (ht : ∀ c ∈ t, c.val < 0xD800)
    (h : encode s = encode t) : s = t := by
  induction t generalizing s with
  | nil =>
      cases s with
      | nil => rfl
      | cons c s =>
          rw [encode_cons, unitsOf] at h
          split at h <;> cases h
  | cons d t ih =>
      have hd := ht d (.head _)
      cases s with
      | nil =>
          rw [encode_cons, unitsOf, dif_pos (by omega)] at h
          cases h
      | cons c s =>
          rw [encode_cons, encode_cons, unitsOf, unitsOf, dif_pos (by omega : d.val < 0x10000)] at h
          split at h
          next hc =>
            obtain ⟨hhead, htail⟩ := List.cons.inj h
            rw [ih (fun e he => ht e (.tail _ he)) htail, Fin.ext (Fin.mk.inj hhead)]
          next hc =>
            have hhead := Fin.mk.inj (List.cons.inj h).1
            omega

/-! ## Characters -/

theorem toNat_lt (c : Char) : c.toNat < 0x110000 := by
  have h : c.toNat < 0xD800 ∨ 0xDFFF < c.toNat ∧ c.toNat < 0x110000 := c.valid
  omega

/-- A character as a code point. -/
def ofChar (c : Char) : CodePoint := ⟨c.toNat, toNat_lt c⟩

/-- A text as a string. -/
def ofText (cs : List Char) : List CodePoint := cs.map ofChar

theorem not_half_of_mem_ofText {cs : List Char} {c : CodePoint} (h : c ∈ ofText cs) :
    ¬IsHigh c ∧ ¬IsLow c := by
  obtain ⟨d, -, rfl⟩ := List.mem_map.mp h
  have hd : d.toNat < 0xD800 ∨ 0xDFFF < d.toNat ∧ d.toNat < 0x110000 := d.valid
  simp only [IsHigh, IsLow, ofChar]
  omega

theorem ofText_injective : Function.Injective ofText := by
  refine List.map_injective_iff.mpr fun c d h => ?_
  exact Char.toNat_inj.mp (Fin.mk.inj h)

/-- A text in UTF-16. -/
def unitsOfText (cs : List Char) : List CodeUnit := encode (ofText cs)

theorem unitsOfText_injective : Function.Injective unitsOfText := by
  intro cs ds h
  have hdecode := congrArg decode h
  rw [unitsOfText, unitsOfText, decode_encode fun c hc => not_half_of_mem_ofText hc,
    decode_encode fun c hc => not_half_of_mem_ofText hc] at hdecode
  exact ofText_injective hdecode

/-! ## The order of strings -/

/-- The order of strings, by their code points. -/
def strLe : List CodePoint → List CodePoint → Bool
  | [], _ => true
  | _ :: _, [] => false
  | c :: s, d :: t => decide (c < d) || c == d && strLe s t

theorem strLe_total (s t : List CodePoint) : (strLe s t || strLe t s) = true := by
  induction s generalizing t with
  | nil => simp [strLe]
  | cons c s ih =>
      cases t with
      | nil => simp [strLe]
      | cons d t =>
          rcases lt_trichotomy c d with h | rfl | h
          · simp [strLe, h]
          · simpa [strLe] using ih t
          · simp [strLe, h]

theorem strLe_antisymm {s t : List CodePoint} (h : strLe s t = true) (h' : strLe t s = true) :
    s = t := by
  induction s generalizing t with
  | nil =>
      cases t with
      | nil => rfl
      | cons d t => simp [strLe] at h'
  | cons c s ih =>
      cases t with
      | nil => simp [strLe] at h
      | cons d t =>
          simp only [strLe, Bool.or_eq_true, decide_eq_true_eq, Bool.and_eq_true, beq_iff_eq] at h h'
          rcases h with h | ⟨rfl, h⟩
          · rcases h' with h' | ⟨rfl, -⟩
            · exact absurd h' h.asymm
            · exact absurd h (lt_irrefl _)
          · rcases h' with h' | ⟨-, h'⟩
            · exact absurd h' (lt_irrefl _)
            · rw [ih h h']

theorem strLe_trans {s t u : List CodePoint} (h : strLe s t = true) (h' : strLe t u = true) :
    strLe s u = true := by
  induction s generalizing t u with
  | nil => rfl
  | cons c s ih =>
      cases t with
      | nil => simp [strLe] at h
      | cons d t =>
          cases u with
          | nil => simp [strLe] at h'
          | cons e u =>
              simp only [strLe, Bool.or_eq_true, decide_eq_true_eq, Bool.and_eq_true,
                beq_iff_eq] at h h' ⊢
              rcases h with h | ⟨rfl, h⟩
              · rcases h' with h' | ⟨rfl, -⟩
                · exact .inl (h.trans h')
                · exact .inl h
              · rcases h' with h' | ⟨rfl, h'⟩
                · exact .inl h'
                · exact .inr ⟨rfl, ih h h'⟩

end Basis
