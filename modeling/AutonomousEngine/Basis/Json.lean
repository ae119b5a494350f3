import AutonomousEngine.Basis.Utf16
import Mathlib.Tactic.IntervalCases

/-!
# JSON texts

The values of JSON, the text `json.dumps` writes for one, and the value
`json.loads` reads from a text.  Strings are in UTF-16, which is how `dumps`
writes them, and an object keeps its members in the order and the number they are
written in.  Numbers with a fraction are a parameter (`Floats`): how they are
written and read is left to it.
-/

namespace Basis

/-! ## Strings -/

/-- The characters with an escape of one letter. -/
def shortEscapes : List (ℕ × Char) :=
  [(34, '"'), (92, '\\'), (10, 'n'), (13, 'r'), (9, 't'), (12, 'f'), (8, 'b')]

/-- The letter of the escape of a code unit. -/
def escapeOf (n : ℕ) : Option Char := (shortEscapes.find? (·.1 = n)).map Prod.snd

/-- The code unit of an escape of one letter. -/
def unescape (e : Char) : Option ℕ := (((47, '/') :: shortEscapes).find? (·.2 = e)).map Prod.fst

/-- The four hexadecimal digits of a code unit. -/
def hex4 (n : ℕ) : List Char :=
  [Nat.digitChar (n / 4096 % 16), Nat.digitChar (n / 256 % 16), Nat.digitChar (n / 16 % 16),
    Nat.digitChar (n % 16)]

/-- The value of a hexadecimal digit. -/
def hexValue (c : Char) : Option ℕ :=
  if c.isDigit then some (c.toNat - 48)
  else if 'a' ≤ c ∧ c ≤ 'f' then some (c.toNat - 87)
  else if 'A' ≤ c ∧ c ≤ 'F' then some (c.toNat - 55)
  else none

def hexValue4 (a b c d : Char) : Option ℕ :=
  (hexValue a).bind fun w => (hexValue b).bind fun x => (hexValue c).bind fun y =>
    (hexValue d).map fun z => ((w * 16 + x) * 16 + y) * 16 + z

/-- What is written for a code unit. -/
def unitText (u : CodeUnit) : List Char :=
  match escapeOf u with
  | some e => ['\\', e]
  | none => if 32 ≤ u.val ∧ u.val ≤ 126 then [Char.ofNat u] else '\\' :: 'u' :: hex4 u

/-- What is written for a string behind its opening quote. -/
def stringRest (us : List CodeUnit) : List Char := us.flatMap unitText ++ ['"']

/-- Reads a string behind its opening quote. -/
def scanString : List Char → Option (List CodeUnit × List Char)
  | [] => none
  | c :: cs =>
      if c = '"' then some ([], cs)
      else if c = '\\' then
        match cs with
        | [] => none
        | e :: cs =>
            if e = 'u' then
              match cs with
              | a :: b :: c :: d :: cs =>
                  (hexValue4 a b c d).bind fun n =>
                    (scanString cs).map fun p => (Fin.ofNat 0x10000 n :: p.1, p.2)
              | _ => none
            else
              (unescape e).bind fun n =>
                (scanString cs).map fun p => (Fin.ofNat 0x10000 n :: p.1, p.2)
      else if c.toNat < 32 then none
      else (scanString cs).map fun p => (unitsOf (ofChar c) ++ p.1, p.2)

theorem scanString_quote (cs : List Char) : scanString ('"' :: cs) = some ([], cs) := by
  rw [scanString.eq_def]
  rfl

theorem scanString_escape {e : Char} (he : e ≠ 'u') (cs : List Char) :
    scanString ('\\' :: e :: cs) = (unescape e).bind fun n =>
      (scanString cs).map fun p => (Fin.ofNat 0x10000 n :: p.1, p.2) := by
  rw [scanString.eq_def]
  simp [he]

theorem scanString_hex (a b c d : Char) (cs : List Char) :
    scanString ('\\' :: 'u' :: a :: b :: c :: d :: cs) = (hexValue4 a b c d).bind fun n =>
      (scanString cs).map fun p => (Fin.ofNat 0x10000 n :: p.1, p.2) := by
  rw [scanString.eq_def]
  rfl

theorem scanString_char {c : Char} (hq : c ≠ '"') (hb : c ≠ '\\') (hc : 32 ≤ c.toNat)
    (cs : List Char) : scanString (c :: cs) =
      (scanString cs).map fun p => (unitsOf (ofChar c) ++ p.1, p.2) := by
  rw [scanString.eq_def]
  dsimp only
  rw [if_neg hq, if_neg hb, if_neg (not_lt.mpr hc)]

theorem hexValue_digitChar {n : ℕ} (h : n < 16) : hexValue (Nat.digitChar n) = some n := by
  interval_cases n <;> rfl

theorem hexValue4_hex4 {n : ℕ} (h : n < 0x10000) :
    hexValue4 (Nat.digitChar (n / 4096 % 16)) (Nat.digitChar (n / 256 % 16))
      (Nat.digitChar (n / 16 % 16)) (Nat.digitChar (n % 16)) = some n := by
  have hlt (m : ℕ) : m % 16 < 16 := Nat.mod_lt m (by decide)
  simp only [hexValue4, hexValue_digitChar (hlt _), Option.bind_some, Option.map_some]
  congr 1
  omega

theorem unescape_of_escapeOf {n : ℕ} {e : Char} (h : escapeOf n = some e) :
    unescape e = some n ∧ e ≠ 'u' := by
  obtain ⟨⟨m, e'⟩, hfind, rfl⟩ := Option.map_eq_some_iff.mp h
  have hmem := List.mem_of_find?_eq_some hfind
  have hm : m = n := by simpa using List.find?_some hfind
  subst hm
  simp only [shortEscapes, List.mem_cons, Prod.mk.injEq, List.not_mem_nil, or_false] at hmem
  rcases hmem with ⟨rfl, rfl⟩ | ⟨rfl, rfl⟩ | ⟨rfl, rfl⟩ | ⟨rfl, rfl⟩ | ⟨rfl, rfl⟩ | ⟨rfl, rfl⟩ |
    ⟨rfl, rfl⟩ <;> decide

/-- A code unit that is written is read back. -/
theorem scanString_unitText (u : CodeUnit) (cs : List Char) :
    scanString (unitText u ++ cs) = (scanString cs).map fun p => (u :: p.1, p.2) := by
  have hu : Fin.ofNat 0x10000 u.val = u := Fin.ext (Nat.mod_eq_of_lt u.isLt)
  unfold unitText
  cases hesc : escapeOf u with
  | some e =>
      obtain ⟨hun, hne⟩ := unescape_of_escapeOf hesc
      rw [List.cons_append, List.cons_append, List.nil_append, scanString_escape hne, hun,
        Option.bind_some, hu]
  | none =>
      dsimp only
      split
      next hplain =>
        have hnat : (Char.ofNat u.val).toNat = u.val := by
          rw [Char.ofNat, dif_pos (.inl (by omega))]
          rfl
        have hquote : Char.ofNat u.val ≠ '"' := by
          intro h
          rw [h] at hnat
          rw [← hnat] at hesc
          cases hesc
        have hback : Char.ofNat u.val ≠ '\\' := by
          intro h
          rw [h] at hnat
          rw [← hnat] at hesc
          cases hesc
        have hunits : unitsOf (ofChar (Char.ofNat u.val)) = [u] := by
          have hlt : (ofChar (Char.ofNat u.val)).val < 0x10000 := by
            simp only [ofChar, hnat]
            exact u.isLt
          rw [unitsOf, dif_pos hlt]
          exact congrArg (fun v => [v]) (Fin.ext hnat)
        rw [List.cons_append, List.nil_append, scanString_char hquote hback (by omega), hunits]
        rfl
      next =>
        simp only [hex4, List.cons_append, List.nil_append]
        rw [scanString_hex, hexValue4_hex4 u.isLt, Option.bind_some, hu]

/-- A string that is written is read back. -/
theorem scanString_stringRest (us : List CodeUnit) (cs : List Char) :
    scanString (stringRest us ++ cs) = some (us, cs) := by
  induction us with
  | nil => exact scanString_quote cs
  | cons u us ih =>
      have hrest : stringRest (u :: us) ++ cs = unitText u ++ (stringRest us ++ cs) := by
        simp [stringRest]
      rw [hrest, scanString_unitText, ih]
      rfl

/-! ## Numbers -/

/-- The characters a number is written with. -/
def numberChar (c : Char) : Bool :=
  c.isDigit || c == '.' || c == 'e' || c == 'E' || c == '+' || c == '-'

/-- The sign of a number and the text behind it. -/
def splitSign : List Char → Bool × List Char
  | [] => (false, [])
  | c :: cs => if c = '-' then (true, cs) else (false, c :: cs)

/-- The natural number of some digits, without zeros before it. -/
def naturalOf (ds : List Char) : Option ℕ :=
  if ds = [] ∨ ds.head? = some '0' ∧ ds ≠ ['0'] then none else some (Nat.ofDigitChars 10 ds 0)

/-- Whether a text is an exponent. -/
def isExponent : List Char → Bool
  | [] => false
  | e :: cs =>
      let ds := match cs with
        | [] => []
        | c :: ds => if c = '+' ∨ c = '-' then ds else c :: ds
      (e == 'e' || e == 'E') && !ds.isEmpty && ds.all Char.isDigit

/-- Whether a text is a fraction, an exponent or both. -/
def isFractional : List Char → Bool
  | [] => false
  | c :: cs =>
      if c = '.' then
        let rest := cs.dropWhile Char.isDigit
        !(cs.takeWhile Char.isDigit).isEmpty && (rest.isEmpty || isExponent rest)
      else isExponent (c :: cs)

/-- What is written for the numbers that are no numbers. -/
def specials : List (List Char) := ["NaN".toList, "Infinity".toList, "-Infinity".toList]

/-- Whether a text is a number with a fraction or an exponent. -/
def isFloatLiteral (cs : List Char) : Bool :=
  let body := (splitSign cs).2
  cs.all numberChar && (naturalOf (body.takeWhile Char.isDigit)).isSome &&
    isFractional (body.dropWhile Char.isDigit)

/-- The floating point numbers with what is written for them and what is read from
a text.  What is written for a number is read as the number. -/
structure Floats where
  F : Type
  text : F → List Char
  ofText : List Char → F
  ofText_text : ∀ x, ofText (text x) = x
  text_shape : ∀ x, text x ∈ specials ∨ isFloatLiteral (text x) = true

/-- What is written for an integer. -/
def intText (n : ℤ) : List Char :=
  if n < 0 then '-' :: Nat.toDigits 10 n.natAbs else Nat.toDigits 10 n.natAbs

/-! ## Values -/

/-- A value as it is written, the members of an object in their order. -/
inductive Json (F : Type) where
  | null
  | bool (b : Bool)
  | int (n : ℤ)
  | float (x : F)
  | str (us : List CodeUnit)
  | arr (xs : List (Json F))
  | obj (ms : List (List CodeUnit × Json F))

variable (fl : Floats)

section

variable {F : Type}

/-- Reads a number. -/
def parseNumber (ofText : List Char → F) (cs : List Char) : Option (Json F) :=
  let neg := (splitSign cs).1
  let body := (splitSign cs).2
  let rest := body.dropWhile Char.isDigit
  (naturalOf (body.takeWhile Char.isDigit)).bind fun n =>
    if rest = [] then some (.int (if neg then -n else n))
    else if isFractional rest then some (.float (ofText cs))
    else none

end

/-- Parts with commas between them and a bracket at the end. -/
def joined (close : Char) : List (List Char) → List Char
  | [] => [close]
  | [t] => t ++ [close]
  | t :: t' :: ts => t ++ ',' :: ' ' :: joined close (t' :: ts)

mutual

/-- `json.dumps` without its options. -/
def print : Json fl.F → List Char
  | .null => "null".toList
  | .bool true => "true".toList
  | .bool false => "false".toList
  | .int n => intText n
  | .float x => fl.text x
  | .str us => '"' :: stringRest us
  | .arr xs => '[' :: joined ']' (printItems xs)
  | .obj ms => '{' :: joined '}' (printMembers ms)

/-- The texts of the items of an array. -/
def printItems : List (Json fl.F) → List (List Char)
  | [] => []
  | v :: vs => print v :: printItems vs

/-- The texts of the members of an object. -/
def printMembers : List (List CodeUnit × Json fl.F) → List (List Char)
  | [] => []
  | (k, v) :: ms => ('"' :: (stringRest k ++ ':' :: ' ' :: print v)) :: printMembers ms

end

/-! ## Reading -/

def isWs (c : Char) : Bool := c == ' ' || c == '\t' || c == '\n' || c == '\r'

def skipWs (cs : List Char) : List Char := cs.dropWhile isWs

/-- Reads a word or a number.  A number is all of the characters that may belong to
one, since none of them may follow a number. -/
def parseAtom (cs : List Char) : Option (Json fl.F × List Char) :=
  if "null".toList.isPrefixOf cs then some (.null, cs.drop 4)
  else if "true".toList.isPrefixOf cs then some (.bool true, cs.drop 4)
  else if "false".toList.isPrefixOf cs then some (.bool false, cs.drop 5)
  else
    match specials.find? (·.isPrefixOf cs) with
    | some w => some (.float (fl.ofText w), cs.drop w.length)
    | none => (parseNumber fl.ofText (cs.takeWhile numberChar)).map
        fun v => (v, cs.dropWhile numberChar)

/-- Reads parts with commas between them and a bracket at the end, with fuel for
the parts. -/
def parseList {α : Type} (read : List Char → Option (α × List Char)) (close : Char) :
    ℕ → List Char → Option (List α × List Char)
  | 0, _ => none
  | n + 1, cs =>
      (read cs).bind fun p =>
        match skipWs p.2 with
        | [] => none
        | c :: rest =>
            if c = close then some ([p.1], rest)
            else if c = ',' then
              (parseList read close n (skipWs rest)).map fun q => (p.1 :: q.1, q.2)
            else none

/-- Reads a member of an object. -/
def parseMember {α : Type} (read : List Char → Option (α × List Char)) :
    List Char → Option ((List CodeUnit × α) × List Char)
  | [] => none
  | q :: cs =>
      if q = '"' then
        (scanString cs).bind fun k =>
          match skipWs k.2 with
          | [] => none
          | c :: rest =>
              if c = ':' then (read (skipWs rest)).map fun p => ((k.1, p.1), p.2) else none
      else none

/-- Reads a value, with fuel for the values in it. -/
def parseValue : ℕ → List Char → Option (Json fl.F × List Char)
  | 0, _ => none
  | _ + 1, [] => none
  | n + 1, c :: cs =>
      if c = '"' then (scanString cs).map fun p => (.str p.1, p.2)
      else if c = '[' then
        if (skipWs cs).head? = some ']' then some (.arr [], (skipWs cs).tail)
        else (parseList (parseValue n) ']' n (skipWs cs)).map fun p => (.arr p.1, p.2)
      else if c = '{' then
        if (skipWs cs).head? = some '}' then some (.obj [], (skipWs cs).tail)
        else (parseList (parseMember (parseValue n)) '}' n (skipWs cs)).map
          fun p => (.obj p.1, p.2)
      else parseAtom fl (c :: cs)

/-- `json.loads`, with an object as it is written.  The fuel is never used up
(`parseValue_fuel`). -/
def parseJson (cs : List Char) : Option (Json fl.F) :=
  (parseValue fl (cs.length + 1) (skipWs cs)).bind fun p =>
    if skipWs p.2 = [] then some p.1 else none

end Basis
