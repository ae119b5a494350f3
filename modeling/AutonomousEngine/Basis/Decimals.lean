import AutonomousEngine.Basis.Calendar
import AutonomousEngine.Basis.Rounding

/-!
# Decimal texts

The text of a number with a fixed number of decimal places, and the number a text
writes.  What is written is read as the number rounded to these places
(`readDecimal_formatFixed`).
-/

namespace Basis

/-! ## Digits -/

theorem parseDigits_concat_of_some {l : List Char} {a d : ℕ} (h : parseDigits l = some a)
    (hd : d < 10) : parseDigits (l ++ [Nat.digitChar d]) = some (10 * a + d) := by
  rw [parseDigits_concat, h, digitValue_digitChar hd]
  rfl

/-- The digits of a number write it. -/
theorem parseDigits_toDigits (n : ℕ) : parseDigits (Nat.toDigits 10 n) = some n := by
  induction n using Nat.strong_induction_on with
  | _ n ih =>
      rw [Nat.toDigits_eq_if (by decide)]
      split
      next h =>
        have hdigit := parseDigits_concat_of_some (l := []) (a := 0) rfl h
        rw [Nat.mul_zero, Nat.zero_add] at hdigit
        exact hdigit
      next h =>
        rw [parseDigits_concat_of_some (ih (n / 10) (by omega)) (Nat.mod_lt n (by decide))]
        exact congrArg some (Nat.div_add_mod n 10)

/-- Digits before the last `k` digits of a number. -/
theorem parseDigits_append_padded {l : List Char} {a : ℕ} (h : parseDigits l = some a) (k n : ℕ) :
    parseDigits (l ++ padded k n) = some (a * 10 ^ k + n % 10 ^ k) := by
  induction k generalizing n with
  | zero => rw [padded, List.append_nil, h, pow_zero, Nat.mod_one, Nat.mul_one, Nat.add_zero]
  | succ k ih =>
      rw [padded, ← List.append_assoc,
        parseDigits_concat_of_some (ih (n / 10)) (Nat.mod_lt n (by decide))]
      have hmod : n % 10 ^ (k + 1) = 10 * (n / 10 % 10 ^ k) + n % 10 := by
        rw [pow_succ', Nat.mod_mul, Nat.add_comm]
      rw [hmod, pow_succ']
      congr 1
      ring

theorem dot_notMem_toDigits (n : ℕ) : '.' ∉ Nat.toDigits 10 n := by
  intro h
  have hdigit := Nat.isDigit_of_mem_toDigits (by decide) (by decide) h
  exact absurd hdigit (by decide)

/-! ## Texts -/

/-- The text of a number of the last place, with its sign. -/
def fixedText (d : ℕ) (neg : Bool) (n : ℕ) : List Char :=
  (if neg then ['-'] else []) ++ (Nat.toDigits 10 (n / 10 ^ d) ++
    if d = 0 then [] else '.' :: padded d (n % 10 ^ d))

/-- A number with `d` decimal places. -/
def formatFixed (d : ℕ) (x : ℚ) : List Char :=
  fixedText d (decide (x < 0)) (roundHalfEven (x * 10 ^ d)).natAbs

/-- The sign of a text and the rest. -/
def splitMinus : List Char → Bool × List Char
  | '-' :: cs => (true, cs)
  | cs => (false, cs)

/-- The number of a text without a sign. -/
def readUnsigned (cs : List Char) : Option ℚ :=
  let whole := cs.takeWhile (· ≠ '.')
  let frac := (cs.dropWhile (· ≠ '.')).drop 1
  (parseDigits (whole ++ frac)).map fun n : ℕ => (n : ℚ) / 10 ^ frac.length

/-- The number of a text. -/
def readDecimal (cs : List Char) : Option ℚ :=
  (readUnsigned (splitMinus cs).2).map fun x => if (splitMinus cs).1 then -x else x

theorem splitMinus_toDigits (n : ℕ) (cs : List Char) :
    splitMinus (Nat.toDigits 10 n ++ cs) = (false, Nat.toDigits 10 n ++ cs) := by
  cases h : Nat.toDigits 10 n with
  | nil => exact absurd h Nat.toDigits_ne_nil
  | cons c ds =>
      have hc : c.isDigit = true :=
        Nat.isDigit_of_mem_toDigits (b := 10) (n := n) (by decide) (by decide) (by rw [h]; simp)
      rw [List.cons_append, splitMinus]
      intro cs' hminus
      rw [(List.cons.inj hminus).1] at hc
      exact absurd hc (by decide)

/-- Reading digits in front of a tail that holds no digit of the whole part. -/
theorem readUnsigned_toDigits (a : ℕ) {tail : List Char} (h : tail.head?.all (· == '.') = true) :
    readUnsigned (Nat.toDigits 10 a ++ tail) =
      (parseDigits (Nat.toDigits 10 a ++ tail.drop 1)).map fun n : ℕ =>
        (n : ℚ) / 10 ^ (tail.drop 1).length := by
  have hdigits : ∀ c ∈ Nat.toDigits 10 a, decide (c ≠ '.') = true := by
    intro c hc
    rw [decide_eq_true_eq]
    rintro rfl
    exact dot_notMem_toDigits a hc
  rw [readUnsigned, List.takeWhile_append_of_pos hdigits, List.dropWhile_append_of_pos hdigits]
  cases tail with
  | nil => rw [List.takeWhile_nil, List.dropWhile_nil, List.append_nil, List.drop_nil,
      List.append_nil]
  | cons c cs =>
      rw [List.head?_cons, Option.all_some, beq_iff_eq] at h
      rw [h, List.takeWhile_cons_of_neg (by decide), List.dropWhile_cons_of_neg (by decide),
        List.append_nil]

theorem readUnsigned_fixedText (d n : ℕ) :
    readUnsigned (fixedText d false n) = some ((n : ℚ) / 10 ^ d) := by
  rw [fixedText, if_neg Bool.false_ne_true, List.nil_append]
  split
  next hd =>
    rw [hd, pow_zero, Nat.div_one, readUnsigned_toDigits n (by rfl), List.drop_nil, List.append_nil,
      parseDigits_toDigits]
    rfl
  next hd =>
    rw [readUnsigned_toDigits _ (by rfl), List.drop_one, List.tail_cons,
      parseDigits_append_padded (parseDigits_toDigits _), Nat.mod_mod, length_padded,
      Nat.mul_comm, Nat.div_add_mod]
    rfl

theorem splitMinus_fixedText (d n : ℕ) (neg : Bool) :
    splitMinus (fixedText d neg n) = (neg, fixedText d false n) := by
  cases neg with
  | false =>
      rw [fixedText, if_neg Bool.false_ne_true, List.nil_append]
      exact splitMinus_toDigits _ _
  | true => rfl

/-- What is written is read as the rounded number. -/
theorem readDecimal_formatFixed (d : ℕ) (x : ℚ) :
    readDecimal (formatFixed d x) = some (roundTo d x) := by
  have hpos : (0 : ℚ) < 10 ^ d := by positivity
  rw [readDecimal, formatFixed, splitMinus_fixedText, readUnsigned_fixedText, Option.map_some,
    roundTo]
  dsimp only
  split
  next h =>
    have hx := mul_nonpos_of_nonpos_of_nonneg (of_decide_eq_true h).le hpos.le
    have hround : roundHalfEven (x * 10 ^ d) ≤ 0 :=
      roundHalfEven_le (by rw [Int.cast_zero]; exact hx)
    rw [← neg_div, ← Int.cast_natCast (roundHalfEven (x * 10 ^ d)).natAbs,
      Int.ofNat_natAbs_of_nonpos hround, Int.cast_neg, neg_neg]
  next h =>
    have hx := mul_nonneg (not_lt.mp fun hlt => h (decide_eq_true hlt)) hpos.le
    have hround : 0 ≤ roundHalfEven (x * 10 ^ d) :=
      le_roundHalfEven (by rw [Int.cast_zero]; exact hx)
    rw [← Int.cast_natCast (roundHalfEven (x * 10 ^ d)).natAbs, Int.natAbs_of_nonneg hround]

/-- Numbers that are rounded alike and have one sign have one text. -/
theorem formatFixed_congr {d : ℕ} {x y : ℚ} (h : roundTo d x = roundTo d y)
    (hsign : x < 0 ↔ y < 0) : formatFixed d x = formatFixed d y := by
  have hpos : (0 : ℚ) < 10 ^ d := by positivity
  have hround : roundHalfEven (x * 10 ^ d) = roundHalfEven (y * 10 ^ d) := by
    rw [roundTo, roundTo, div_left_inj' hpos.ne'] at h
    exact_mod_cast h
  rw [formatFixed, formatFixed, hround, decide_eq_decide.mpr hsign]

end Basis
