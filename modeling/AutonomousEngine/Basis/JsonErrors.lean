import AutonomousEngine.Basis.JsonDict

/-!
# What `json.loads` raises

A text that is no JSON raises a `JSONDecodeError`.  An integer with too many digits raises a
`ValueError`, as soon as its digits were read, and a bracket inside too many others a
`RecursionError`, as soon as it is read: what stands behind them is not looked at.  So a text is
scanned here once more, with the first of the three errors (`loadsOrError`).

A scan agrees with what is read without errors (`agrees_loads`): its value is the value that is
read, and where it raises a `JSONDecodeError` nothing is read.
-/

namespace Basis

/-- The most digits of an integer that are read. -/
def intMaxStrDigits : ℕ := 4300

inductive LoadsError where
  | jsonDecodeError
  | valueError
  | recursionError
deriving DecidableEq

/-- What is read in a text, and the text behind it. -/
abbrev Scan (α : Type) : Type := Except LoadsError (α × List Char)

def orDecodeError {α : Type} : Option α → Except LoadsError α
  | none => .error .jsonDecodeError
  | some a => .ok a

variable (fl : Floats) (limit : ℕ)

/-- Whether a number goes on behind its digits, with a digit behind a point or in an exponent. -/
def goesOn : List Char → Bool
  | [] => false
  | c :: cs =>
      if c = '.' then (cs.headD ' ').isDigit
      else if c = 'e' ∨ c = 'E' then
        let digits := if cs.headD ' ' = '+' ∨ cs.headD ' ' = '-' then cs.tail else cs
        (digits.headD ' ').isDigit
      else false

/-- Whether an integer with too many digits stands at the start of a text.  A zero at the start is
an integer of its own. -/
def longInteger (cs : List Char) : Bool :=
  let body := (splitSign cs).2
  let digits := body.takeWhile Char.isDigit
  digits.head? ≠ some '0' && decide (limit < digits.length) &&
    !goesOn (body.dropWhile Char.isDigit)

def scanAtom (cs : List Char) : Scan (Json fl.F) :=
  if longInteger limit cs then .error .valueError else orDecodeError (parseAtom fl cs)

/-- Scans parts with commas between them and a bracket at the end. -/
def scanList {α : Type} (read : List Char → Scan α) (close : Char) : ℕ → List Char → Scan (List α)
  | 0, _ => .error .jsonDecodeError
  | n + 1, cs =>
      (read cs).bind fun p =>
        match skipWs p.2 with
        | [] => .error .jsonDecodeError
        | c :: rest =>
            if c = close then .ok ([p.1], rest)
            else if c = ',' then
              (scanList read close n (skipWs rest)).map fun q => (p.1 :: q.1, q.2)
            else .error .jsonDecodeError

/-- Scans a member of an object. -/
def scanMember {α : Type} (read : List Char → Scan α) : List Char → Scan (List CodeUnit × α)
  | [] => .error .jsonDecodeError
  | q :: cs =>
      if q = '"' then
        (orDecodeError (scanString cs)).bind fun k =>
          match skipWs k.2 with
          | [] => .error .jsonDecodeError
          | c :: rest =>
              if c = ':' then (read (skipWs rest)).map fun p => ((k.1, p.1), p.2)
              else .error .jsonDecodeError
      else .error .jsonDecodeError

/-- Scans behind a bracket, with the depth that is left there. -/
def nested {α : Type} (scan : ℕ → Except LoadsError α) : ℕ → Except LoadsError α
  | 0 => .error .recursionError
  | depth + 1 => scan depth

/-- Scans a value with at most `depth` brackets inside each other, with fuel for the values in it. -/
def scanValue : ℕ → ℕ → List Char → Scan (Json fl.F)
  | 0, _, _ => .error .jsonDecodeError
  | _ + 1, _, [] => .error .jsonDecodeError
  | n + 1, depth, c :: cs =>
      if c = '"' then orDecodeError ((scanString cs).map fun p => (.str p.1, p.2))
      else if c = '[' then
        nested (fun depth =>
          if (skipWs cs).head? = some ']' then .ok (.arr [], (skipWs cs).tail)
          else (scanList (scanValue n depth) ']' n (skipWs cs)).map fun p => (.arr p.1, p.2)) depth
      else if c = '{' then
        nested (fun depth =>
          if (skipWs cs).head? = some '}' then .ok (.obj [], (skipWs cs).tail)
          else (scanList (scanMember (scanValue n depth)) '}' n (skipWs cs)).map
            fun p => (.obj p.1, p.2)) depth
      else scanAtom fl limit (c :: cs)

/-- `json.loads` with its errors, where integers have at most `limit` digits and brackets stand in
less than `depth` others. -/
def loadsOrError (depth : ℕ) (cs : List Char) : Except LoadsError (Json fl.F) :=
  (scanValue fl limit (cs.length + 1) depth (skipWs cs)).bind fun p =>
    if skipWs p.2 = [] then .ok p.1.asDict else .error .jsonDecodeError

/-! ## Agreement -/

/-- A scan agrees with what is read without errors.  A `ValueError` or a
`RecursionError` says nothing of the rest. -/
def Agrees {α : Type} (x : Option α) : Except LoadsError α → Prop
  | .ok a => x = some a
  | .error .jsonDecodeError => x = none
  | .error .valueError => True
  | .error .recursionError => True

section

variable {α β : Type}

theorem agrees_orDecodeError (x : Option α) : Agrees x (orDecodeError x) := by
  cases x with
  | none => exact (rfl : none = none)
  | some a => exact (rfl : some a = some a)

theorem agrees_decodeError : Agrees (none : Option α) (.error .jsonDecodeError) := rfl

theorem agrees_ok (a : α) : Agrees (some a) (.ok a) := rfl

theorem Agrees.bind {x : Option α} {y : Except LoadsError α} (h : Agrees x y)
    {f : α → Option β} {g : α → Except LoadsError β} (hfg : ∀ a, Agrees (f a) (g a)) :
    Agrees (x.bind f) (y.bind g) := by
  cases y with
  | ok a =>
      obtain rfl : x = some a := h
      exact hfg a
  | error e =>
      cases e with
      | jsonDecodeError =>
          obtain rfl : x = none := h
          exact agrees_decodeError
      | valueError => exact trivial
      | recursionError => exact trivial

theorem Agrees.map {x : Option α} {y : Except LoadsError α} (h : Agrees x y) (f : α → β) :
    Agrees (x.map f) (y.map f) := by
  cases y with
  | ok a =>
      obtain rfl : x = some a := h
      exact agrees_ok (f a)
  | error e =>
      cases e with
      | jsonDecodeError =>
          obtain rfl : x = none := h
          exact agrees_decodeError
      | valueError => exact trivial
      | recursionError => exact trivial

theorem agrees_scanAtom (cs : List Char) : Agrees (parseAtom fl cs) (scanAtom fl limit cs) := by
  rw [scanAtom]
  split
  · exact trivial
  · exact agrees_orDecodeError _

theorem agrees_scanList {read : List Char → Option (α × List Char)} {read' : List Char → Scan α}
    (h : ∀ cs, Agrees (read cs) (read' cs)) (close : Char) (n : ℕ) (cs : List Char) :
    Agrees (parseList read close n cs) (scanList read' close n cs) := by
  induction n generalizing cs with
  | zero => exact agrees_decodeError
  | succ n ih =>
      rw [parseList, scanList]
      refine (h cs).bind fun p => ?_
      cases skipWs p.2 with
      | nil => exact agrees_decodeError
      | cons c rest =>
          dsimp only
          split_ifs
          · exact agrees_ok _
          · exact (ih _).map _
          · exact agrees_decodeError

theorem agrees_scanMember {read : List Char → Option (α × List Char)} {read' : List Char → Scan α}
    (h : ∀ cs, Agrees (read cs) (read' cs)) (cs : List Char) :
    Agrees (parseMember read cs) (scanMember read' cs) := by
  cases cs with
  | nil => exact agrees_decodeError
  | cons q cs =>
      rw [parseMember, scanMember]
      split
      · refine (agrees_orDecodeError _).bind fun k => ?_
        cases skipWs k.2 with
        | nil => exact agrees_decodeError
        | cons c rest =>
            dsimp only
            split
            · exact (h _).map _
            · exact agrees_decodeError
      · exact agrees_decodeError

theorem agrees_nested {x : Option α} {scan : ℕ → Except LoadsError α}
    (h : ∀ depth, Agrees x (scan depth)) (depth : ℕ) : Agrees x (nested scan depth) := by
  cases depth with
  | zero => exact trivial
  | succ depth => exact h depth

theorem agrees_scanValue (n depth : ℕ) (cs : List Char) :
    Agrees (parseValue fl n cs) (scanValue fl limit n depth cs) := by
  induction n generalizing depth cs with
  | zero => exact agrees_decodeError
  | succ n ih =>
      cases cs with
      | nil => exact agrees_decodeError
      | cons c cs =>
          rw [parseValue, scanValue]
          by_cases hquote : c = '"'
          · rw [if_pos hquote, if_pos hquote]
            exact agrees_orDecodeError _
          rw [if_neg hquote, if_neg hquote]
          by_cases hlist : c = '['
          · rw [if_pos hlist, if_pos hlist]
            refine agrees_nested (fun depth => ?_) depth
            split
            · exact agrees_ok _
            · exact (agrees_scanList (ih depth) _ _ _).map _
          rw [if_neg hlist, if_neg hlist]
          by_cases hobj : c = '{'
          · rw [if_pos hobj, if_pos hobj]
            refine agrees_nested (fun depth => ?_) depth
            split
            · exact agrees_ok _
            · exact (agrees_scanList (agrees_scanMember (ih depth)) _ _ _).map _
          rw [if_neg hobj, if_neg hobj]
          exact agrees_scanAtom fl limit _

theorem agrees_loads (depth : ℕ) (cs : List Char) :
    Agrees (loads fl cs) (loadsOrError fl limit depth cs) := by
  have hbind : loads fl cs = (parseValue fl (cs.length + 1) (skipWs cs)).bind fun p =>
      if skipWs p.2 = [] then some p.1.asDict else none := by
    rw [loads, parseJson, Option.map_bind]
    refine Option.bind_congr fun p _ => ?_
    rw [Function.comp_apply]
    split <;> rfl
  rw [hbind]
  refine (agrees_scanValue fl limit _ depth _).bind fun p => ?_
  split
  · exact agrees_ok _
  · exact agrees_decodeError

theorem loads_of_ok {depth : ℕ} {cs : List Char} {v : Json fl.F}
    (h : loadsOrError fl limit depth cs = .ok v) : loads fl cs = some v := by
  have hagrees := agrees_loads fl limit depth cs
  rwa [h] at hagrees

theorem loads_of_decodeError {depth : ℕ} {cs : List Char}
    (h : loadsOrError fl limit depth cs = .error .jsonDecodeError) : loads fl cs = none := by
  have hagrees := agrees_loads fl limit depth cs
  rwa [h] at hagrees

end

/-! ## Depth -/

section

variable {F : Type}

mutual

/-- How many brackets of a value stand inside each other. -/
def Json.depth : Json F → ℕ
  | .arr xs => depthItems xs + 1
  | .obj ms => depthMembers ms + 1
  | _ => 0

def depthItems : List (Json F) → ℕ
  | [] => 0
  | v :: xs => max v.depth (depthItems xs)

def depthMembers : List (List CodeUnit × Json F) → ℕ
  | [] => 0
  | (_, v) :: ms => max v.depth (depthMembers ms)

end

end

end Basis
