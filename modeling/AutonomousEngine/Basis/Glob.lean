import Mathlib.Data.List.Basic

/-!
# Glob patterns

A glob pattern is a list of pieces: a star, a single character, or a class of
characters.  What a pattern matches depends on its pieces only (`matchesPieces`).

There are two dialects.  In that of Python (`fnmatchcase`) a class is negated by `!`
and closed by a bracket that is not its first character, and a bracket that is never
closed is a character.  In that of Redis (`redisGlob`) a class is negated by `^`, and
a backslash makes the next character a plain one.  Without brackets and backslashes
they are the same (`fnmatchcase_eq_redisGlob`).
-/

namespace Basis

/-- A piece of a pattern.  A class is a list of ranges, which may be negated. -/
inductive GlobPiece where
  | star
  | any
  | char (c : Char)
  | cls (negated : Bool) (ranges : List (Char × Char))
deriving DecidableEq, Repr

/-- Whether a piece matches a character. -/
def GlobPiece.fits : GlobPiece → Char → Bool
  | .star, _ => true
  | .any, _ => true
  | .char d, c => c = d
  | .cls negated ranges, c => negated != ranges.any fun r => r.1 ≤ c && c ≤ r.2

/-- Whether pieces match a whole text. -/
def matchesPieces : List GlobPiece → List Char → Bool
  | [], cs => cs.isEmpty
  | .star :: ps, cs => cs.tails.any (matchesPieces ps)
  | _ :: _, [] => false
  | p :: ps, c :: cs => p.fits c && matchesPieces ps cs

/-! ## Python -/

/-- The ranges of a class between its brackets.  A range whose bounds are the wrong way
round has no character. -/
def pythonRanges : List Char → List (Char × Char)
  | a :: '-' :: b :: cs => (a, b) :: pythonRanges cs
  | c :: cs => (c, c) :: pythonRanges cs
  | [] => []

/-- What stands before the closing bracket, and after it.  The first character does not
close the class. -/
def splitClass : List Char → Option (List Char × List Char)
  | [] => none
  | c :: cs =>
      let inner := cs.takeWhile (· ≠ ']')
      match cs.dropWhile (· ≠ ']') with
      | [] => none
      | _ :: rest => some (c :: inner, rest)

/-- A class after its opening bracket. -/
def pythonClass (cs : List Char) : Option (GlobPiece × List Char) :=
  match cs with
  | '!' :: cs => (splitClass cs).map fun p => (.cls true (pythonRanges p.1), p.2)
  | cs => (splitClass cs).map fun p => (.cls false (pythonRanges p.1), p.2)

/-- The pieces of a pattern, with as much fuel as it has characters. -/
def pythonPieces : ℕ → List Char → List GlobPiece
  | 0, _ => []
  | _, [] => []
  | n + 1, '*' :: cs => .star :: pythonPieces n cs
  | n + 1, '?' :: cs => .any :: pythonPieces n cs
  | n + 1, '[' :: cs =>
      match pythonClass cs with
      | none => .char '[' :: pythonPieces n cs
      | some (p, rest) => p :: pythonPieces n rest
  | n + 1, c :: cs => .char c :: pythonPieces n cs

/-- `fnmatch.fnmatchcase`. -/
def fnmatchcase (name pattern : String) : Bool :=
  matchesPieces (pythonPieces pattern.length pattern.toList) name.toList

/-! ## Redis -/

/-- The ranges of a class after its opening bracket, and what follows the class.  A
class that is never closed ends with the pattern. -/
def redisRanges : ℕ → List Char → List (Char × Char) × List Char
  | 0, cs => ([], cs)
  | _, [] => ([], [])
  | n + 1, '\\' :: c :: cs => ((c, c) :: (redisRanges n cs).1, (redisRanges n cs).2)
  | _, ']' :: cs => ([], cs)
  | n + 1, a :: '-' :: b :: cs =>
      ((if a ≤ b then (a, b) else (b, a)) :: (redisRanges n cs).1, (redisRanges n cs).2)
  | n + 1, c :: cs => ((c, c) :: (redisRanges n cs).1, (redisRanges n cs).2)

/-- A class after its opening bracket. -/
def redisClass (cs : List Char) : GlobPiece × List Char :=
  match cs with
  | '^' :: cs => (.cls true (redisRanges cs.length cs).1, (redisRanges cs.length cs).2)
  | cs => (.cls false (redisRanges cs.length cs).1, (redisRanges cs.length cs).2)

/-- The pieces of a pattern, with as much fuel as it has characters. -/
def redisPieces : ℕ → List Char → List GlobPiece
  | 0, _ => []
  | _, [] => []
  | n + 1, '*' :: cs => .star :: redisPieces n cs
  | n + 1, '?' :: cs => .any :: redisPieces n cs
  | n + 1, '[' :: cs => (redisClass cs).1 :: redisPieces n (redisClass cs).2
  | n + 1, '\\' :: c :: cs => .char c :: redisPieces n cs
  | n + 1, c :: cs => .char c :: redisPieces n cs

/-- The patterns of `KEYS`. -/
def redisGlob (name pattern : String) : Bool :=
  matchesPieces (redisPieces pattern.length pattern.toList) name.toList

/-! ## What they share -/

/-- A character without a meaning of its own in one dialect only. -/
def plainGlob (c : Char) : Bool := c ≠ '[' && c ≠ '\\'

theorem pythonPieces_eq_redisPieces {cs : List Char} (h : cs.all plainGlob = true) (n : ℕ) :
    pythonPieces n cs = redisPieces n cs := by
  induction cs generalizing n with
  | nil => cases n <;> rfl
  | cons c cs ih =>
      rw [List.all_cons, Bool.and_eq_true] at h
      obtain ⟨hc, hcs⟩ := h
      simp only [plainGlob, Bool.and_eq_true, decide_eq_true_eq] at hc
      cases n with
      | zero => rfl
      | succ n =>
          have ih := ih hcs n
          by_cases hstar : c = '*'
          · subst hstar
            rw [pythonPieces, redisPieces, ih]
          · by_cases hany : c = '?'
            · subst hany
              rw [pythonPieces, redisPieces, ih]
            · rw [pythonPieces, redisPieces, ih] <;> simp_all

/-- Patterns without brackets and backslashes mean the same in both dialects. -/
theorem fnmatchcase_eq_redisGlob {pattern : String} (h : pattern.toList.all plainGlob = true)
    (name : String) : fnmatchcase name pattern = redisGlob name pattern := by
  rw [fnmatchcase, redisGlob, pythonPieces_eq_redisPieces h]

end Basis
