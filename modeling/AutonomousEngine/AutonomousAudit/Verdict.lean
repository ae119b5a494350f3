import AutonomousEngine.AutonomousAudit.Agreement
import AutonomousEngine.Basis.JsonErrors

/-!
# Corrupt files

`verify_chain` and the writer read lines that anyone may have written.  Both expect a
`JSONDecodeError` and nothing else.  A line that is JSON but no object raises an `AttributeError`
when a key of it is asked for.  An integer with too many digits raises a `ValueError` while it is
read, and brackets that nest too deep a `RecursionError`.  The verifier writes the record once more
to hash it, which may be too deep where the reading was not.

So the two functions stand here once more, with what they raise.  Where they return they do what
the functions without errors do (`verifyChainOrError_ok`, `resumeLinesOrError_ok`).
-/

namespace AutonomousAudit

open Basis

variable (P : Python)

/-- What is raised that is no verdict. -/
inductive PyError where
  | attributeError
  | valueError
  | recursionError
  | typeError
deriving DecidableEq

/-- How many brackets may stand inside each other where a line is read, and where a record is
written to be hashed, some calls further down.  `str` of a value that was read needs no more than
its reading. -/
structure Nesting where
  loads : ℕ
  dumps : ℕ

variable (D : Nesting)

/-- `json.loads` of a line. -/
def readLine (line : List Char) : Except LoadsError (Json P.F) :=
  loadsOrError P.toFloats maxStrDigits D.loads (strip line)

variable {P}

/-- A record behind a hash is written to be hashed, and nests too deep for it. -/
def TooDeep (prev : List CodePoint) (ms : Members P) : Prop :=
  stringAt P "prev_hash" ms = some prev ∧ D.dumps < (Json.obj (body P ms)).depth

instance (prev : List CodePoint) (ms : Members P) : Decidable (TooDeep D prev ms) :=
  inferInstanceAs (Decidable (_ ∧ _))

/-- A verdictOf is a verdict unless it is raised. -/
def verdictOf {α : Type} : Failure P → Except PyError (Except (Failure P) α)
  | .attributeError => .error .attributeError
  | .typeError => .error .typeError
  | e => .ok (.error e)

def IsMessage : Failure P → Prop
  | .attributeError => False
  | .typeError => False
  | _ => True

theorem verdictOf_of_isMessage {α : Type} {e : Failure P} (h : IsMessage e) :
    (verdictOf e : Except PyError (Except (Failure P) α)) = .ok (.error e) := by
  cases e with
  | attributeError => exact h.elim
  | typeError => exact h.elim
  | _ => rfl

/-- Walks the lines of a file, with what is raised. -/
def checkLinesOrError (expected : Option (ℤ × List CodePoint)) (i n : ℕ) (prev : List CodePoint) :
    List (List Char) → Except PyError (Except (Failure P) ℕ)
  | [] => .ok (.ok n)
  | line :: lines =>
      if strip line = [] then checkLinesOrError expected (i + 1) n prev lines
      else
        match readLine P D line with
        | .error .jsonDecodeError => verdictOf (.invalidJson i)
        | .error .valueError => .error .valueError
        | .error .recursionError => .error .recursionError
        | .ok (.obj ms) =>
            if TooDeep D prev ms then .error .recursionError
            else
              match checkEntry i prev (ofJsonMembers P.toPyFloats ms) with
              | .error e => verdictOf e
              | .ok h =>
                  match checkAnchor expected (n + 1) h with
                  | .error e => verdictOf e
                  | .ok () => checkLinesOrError expected (i + 1) (n + 1) h lines
        | .ok _ => .error .attributeError

def checkFileOrError (genesis : List CodePoint) (expected : Option (ℤ × List CodePoint)) :
    Option (List Char) → Except PyError (Except (Failure P) Unit)
  | none => verdictOf .fileNotFound
  | some text =>
      (checkLinesOrError D expected 1 0 genesis (splitLines isNewline false text)).bind fun r =>
        match r with
        | .error e => verdictOf e
        | .ok n =>
            match checkCount expected n with
            | .error e => verdictOf e
            | .ok () => .ok (.ok ())

variable (P) in
/-- `verify_chain` with what it raises. -/
def verifyChainOrError (file : Option (List Char)) (genesis : List CodePoint)
    (expectedAnchor : Option (List CodePoint)) : Except PyError (Except (Failure P) Unit) :=
  match expectedAnchor with
  | none => checkFileOrError D genesis none file
  | some anchor =>
      match parseAnchor P.digits anchor with
      | none => verdictOf (.invalidAnchor anchor)
      | some expected => checkFileOrError D genesis (some expected) file

/-- What a new writer raises. -/
inductive OpenError where
  | auditIntegrity (line : ℕ)
  | raised (e : PyError)
deriving DecidableEq

variable (P)

/-- Reads the last hash from the lines of a file, with what is raised. -/
def resumeLinesOrError (last : PyVal P.F) (i : ℕ) :
    List (List Char) → Except OpenError (PyVal P.F)
  | [] => .ok last
  | line :: lines =>
      if strip line = [] then resumeLinesOrError last (i + 1) lines
      else
        match readLine P D line with
        | .error .jsonDecodeError => .error (.auditIntegrity i)
        | .error .valueError => .error (.raised .valueError)
        | .error .recursionError => .error (.raised .recursionError)
        | .ok (.obj ms) =>
            resumeLinesOrError ((get P (lit "hash") (ofJsonMembers P.toPyFloats ms)).getD last)
              (i + 1) lines
        | .ok _ => .error (.raised .attributeError)

def resumeLastHashOrError (genesis : List CodePoint) :
    Option (List Char) → Except OpenError (PyVal P.F)
  | none => .ok (.str genesis)
  | some text => resumeLinesOrError P D (.str genesis) 1 (splitLines isNewline false text)

/-- A new writer on a file, with what is raised. -/
def AuditChainWriter.initOrError (file : Option (List Char)) (genesis : List CodePoint)
    (minFree : ℕ) (schema : Option RecordSchema) : Except OpenError (AuditChainWriter P) :=
  (resumeLastHashOrError P D genesis file).map fun last =>
    { file := file, minFree := minFree, schema := schema, lastHash := last }

/-! ## Lines -/

/-- A line that raises something else than a `JSONDecodeError`: a value that is no object, an
integer with too many digits, or brackets that nest too deep. -/
def Raises (line : List Char) : Prop :=
  readLine P D line = .error .valueError ∨ readLine P D line = .error .recursionError ∨
    ∃ v, readLine P D line = .ok v ∧ objectOf P v = none

def NotJson (line : List Char) : Prop :=
  strip line ≠ [] ∧ readLine P D line = .error .jsonDecodeError

/-- A line raises behind a hash: when it is read, or when it is hashed. -/
def RaisesAt (prev : List CodePoint) (line : List Char) : Prop :=
  Raises P D line ∨ ∃ ms, readLine P D line = .ok (.obj ms) ∧ TooDeep D prev ms

variable {P} {D} {line : List Char} {lines : List (List Char)} {expected : Option (ℤ × List CodePoint)}
  {i n m : ℕ} {prev : List CodePoint}

theorem line_cases (hblank : strip line ≠ []) :
    NotJson P D line ∨ Raises P D line ∨ ∃ ms, readLine P D line = .ok (.obj ms) := by
  cases h : readLine P D line with
  | error e =>
      cases e with
      | jsonDecodeError => exact .inl ⟨hblank, h⟩
      | valueError => exact .inr (.inl (.inl h))
      | recursionError => exact .inr (.inl (.inr (.inl h)))
  | ok v =>
      cases v with
      | obj ms => exact .inr (.inr ⟨ms, rfl⟩)
      | _ => exact .inr (.inl (.inr (.inr ⟨_, h, rfl⟩)))

theorem not_raises_of_obj {ms : Members P} (h : readLine P D line = .ok (.obj ms)) :
    ¬Raises P D line := by
  rintro (herr | herr | ⟨v, hv, hobj⟩)
  · cases h.symm.trans herr
  · cases h.symm.trans herr
  · obtain rfl := Except.ok.inj (h.symm.trans hv)
    cases hobj

theorem not_raises_of_decodeError (h : readLine P D line = .error .jsonDecodeError) :
    ¬Raises P D line := by
  rintro (herr | herr | ⟨v, hv, -⟩)
  · cases h.symm.trans herr
  · cases h.symm.trans herr
  · cases h.symm.trans hv

theorem readLine_of_blank (h : strip line = []) :
    readLine P D line = .error .jsonDecodeError := by
  rw [readLine, h]
  rfl

theorem not_raises_of_blank (h : strip line = []) : ¬Raises P D line :=
  not_raises_of_decodeError (readLine_of_blank h)

theorem not_raisesAt_of_decodeError (h : readLine P D line = .error .jsonDecodeError) :
    ¬RaisesAt P D prev line := by
  rintro (hraises | ⟨ms, hread, -⟩)
  · exact not_raises_of_decodeError h hraises
  · cases h.symm.trans hread

theorem raisesAt_obj_iff {ms : Members P} (h : readLine P D line = .ok (.obj ms)) :
    RaisesAt P D prev line ↔ TooDeep D prev ms := by
  rw [RaisesAt, or_iff_right (not_raises_of_obj h), h]
  simp

theorem loads_of_obj {ms : Members P} (h : readLine P D line = .ok (.obj ms)) :
    loads P.toFloats (strip line) = some (.obj ms) := loads_of_ok P.toFloats _ h

/-! ## Where nothing is raised -/

/-- The check of an object that was read fails with a message. -/
theorem isMessage_checkEntry {ms : Members P} {e : Failure P}
    (h : checkEntry i prev (ofJsonMembers P.toPyFloats ms) = .error e) : IsMessage e := by
  rw [checkEntry, entryHash_ofJsonMembers] at h
  dsimp only at h
  split at h
  · rw [← Except.error.inj h]
    exact trivial
  · split at h
    · rw [← Except.error.inj h]
      exact trivial
    · cases h

theorem isMessage_checkAnchor {h : List CodePoint} {e : Failure P}
    (herr : checkAnchor expected n h = .error e) : IsMessage e := by
  cases expected with
  | none => cases herr
  | some a =>
      simp only [checkAnchor] at herr
      split at herr
      · rw [← Except.error.inj herr]
        exact trivial
      · cases herr

theorem isMessage_checkCount {e : Failure P} (h : checkCount expected n = .error e) :
    IsMessage e := by
  rw [checkCount.eq_def] at h
  split at h
  · rw [← Except.error.inj h]
    exact trivial
  · cases expected with
    | none => cases h
    | some a =>
        dsimp only at h
        split at h
        · rw [← Except.error.inj h]
          exact trivial
        · cases h

theorem checkLinesOrError_blank (h : strip line = []) :
    checkLinesOrError (P := P) D expected i n prev (line :: lines) =
      checkLinesOrError D expected (i + 1) n prev lines := by
  rw [checkLinesOrError, if_pos h]

variable (expected i n prev lines) in
theorem checkLinesOrError_notJson (h : NotJson P D line) :
    checkLinesOrError (P := P) D expected i n prev (line :: lines) = .ok (.error (.invalidJson i)) ∧
      checkLines (P := P) expected i n prev (line :: lines) = .error (.invalidJson i) := by
  rw [checkLinesOrError, if_neg h.1, h.2, checkLines, if_neg h.1,
    loads_of_decodeError P.toFloats _ h.2]
  exact ⟨rfl, rfl⟩

variable (expected i n prev lines) in
theorem checkLinesOrError_raises (h : RaisesAt P D prev line) :
    ∃ e, checkLinesOrError (P := P) D expected i n prev (line :: lines) = .error e := by
  have hblank : strip line ≠ [] := fun hblank =>
    not_raisesAt_of_decodeError (readLine_of_blank hblank) h
  rw [checkLinesOrError, if_neg hblank]
  rcases h with (hread | hread | ⟨v, hread, hobj⟩) | ⟨ms, hread, hdeep⟩
  · rw [hread]
    exact ⟨_, rfl⟩
  · rw [hread]
    exact ⟨_, rfl⟩
  · rw [hread]
    cases v with
    | obj ms => cases hobj
    | _ => exact ⟨_, rfl⟩
  · rw [hread]
    dsimp only
    rw [if_pos hdeep]
    exact ⟨_, rfl⟩

variable (expected n prev) in
/-- A record is chained behind a hash and agrees with the anchor. -/
def Passes (ms : Members P) : Prop :=
  ((chain P).prev ms = some prev ∧ (chain P).hash ms = some ((chain P).digest ms)) ∧
    AgreesAt expected (n + 1) ((chain P).digest ms)

variable (expected i n prev) in
/-- At an object that can be hashed a walk fails with a message or goes on. -/
theorem checkLinesOrError_obj {ms : Members P} (hblank : strip line ≠ [])
    (hread : readLine P D line = .ok (.obj ms)) (hdeep : ¬TooDeep D prev ms) :
    (¬Passes expected n prev ms ∧ ∃ e, IsMessage e ∧ ∀ rest,
      checkLinesOrError (P := P) D expected i n prev (line :: rest) = .ok (.error e) ∧
        checkLines (P := P) expected i n prev (line :: rest) = .error e) ∨
    (Passes expected n prev ms ∧ ∀ rest,
      checkLinesOrError (P := P) D expected i n prev (line :: rest) =
        checkLinesOrError D expected (i + 1) (n + 1) ((chain P).digest ms) rest ∧
      checkLines (P := P) expected i n prev (line :: rest) =
        checkLines expected (i + 1) (n + 1) ((chain P).digest ms) rest) := by
  simp only [checkLinesOrError, checkLines, if_neg hblank, hread, loads_of_obj hread, if_neg hdeep]
  cases hentry : checkEntry i prev (ofJsonMembers P.toPyFloats ms) with
  | error e =>
      have hmessage := isMessage_checkEntry hentry
      dsimp only
      rw [verdictOf_of_isMessage hmessage]
      refine .inl ⟨fun hpass => ?_, e, hmessage, fun _ => ⟨rfl, rfl⟩⟩
      rw [checkEntry_eq_ok.mpr ⟨hpass.1, rfl⟩] at hentry
      cases hentry
  | ok h =>
      obtain ⟨hlink, rfl⟩ := checkEntry_eq_ok.mp hentry
      dsimp only
      cases hanchor : checkAnchor (P := P) expected (n + 1) ((chain P).digest ms) with
      | error e =>
          have hmessage := isMessage_checkAnchor hanchor
          dsimp only
          rw [verdictOf_of_isMessage hmessage]
          refine .inl ⟨fun hpass => ?_, e, hmessage, fun _ => ⟨rfl, rfl⟩⟩
          rw [checkAnchor_eq_ok.mpr hpass.2] at hanchor
          cases hanchor
      | ok _ => exact .inr ⟨⟨hlink, checkAnchor_eq_ok.mp hanchor⟩, fun _ => ⟨rfl, rfl⟩⟩

/-- The message of a walk is returned. -/
theorem isMessage_checkLines {e : Failure P}
    (h : checkLinesOrError D expected i n prev lines = .ok (.error e)) : IsMessage e := by
  induction lines generalizing i n prev with
  | nil => cases h
  | cons line lines ih =>
      by_cases hblank : strip line = []
      · rw [checkLinesOrError_blank hblank] at h
        exact ih h
      by_cases hraises : RaisesAt P D prev line
      · obtain ⟨e, he⟩ := checkLinesOrError_raises lines expected i n prev hraises
        cases he.symm.trans h
      rcases line_cases (P := P) (D := D) hblank with hnot | hraises' | ⟨ms, hread⟩
      · rw [(checkLinesOrError_notJson lines expected i n prev hnot).1] at h
        rw [← Except.error.inj (Except.ok.inj h)]
        exact trivial
      · exact absurd (.inl hraises') hraises
      · rw [raisesAt_obj_iff hread] at hraises
        rcases checkLinesOrError_obj expected i n prev hblank hread hraises with
          ⟨-, e, hmessage, he⟩ | ⟨-, hrest⟩
        · rw [(he lines).1] at h
          rwa [← Except.error.inj (Except.ok.inj h)]
        · exact ih ((hrest lines).1.symm.trans h)

/-- A walk that raises nothing is the walk without errors. -/
theorem checkLinesOrError_ok {r : Except (Failure P) ℕ}
    (h : checkLinesOrError D expected i n prev lines = .ok r) :
    checkLines expected i n prev lines = r := by
  induction lines generalizing i n prev with
  | nil => exact Except.ok.inj h
  | cons line lines ih =>
      by_cases hblank : strip line = []
      · rw [checkLinesOrError_blank hblank] at h
        rw [checkLines, if_pos hblank]
        exact ih h
      by_cases hraises : RaisesAt P D prev line
      · obtain ⟨e, he⟩ := checkLinesOrError_raises lines expected i n prev hraises
        cases he.symm.trans h
      rcases line_cases (P := P) (D := D) hblank with hnot | hraises' | ⟨ms, hread⟩
      · obtain ⟨herr, hlines⟩ := checkLinesOrError_notJson lines expected i n prev hnot
        rw [hlines]
        exact Except.ok.inj (herr.symm.trans h)
      · exact absurd (.inl hraises') hraises
      · rw [raisesAt_obj_iff hread] at hraises
        rcases checkLinesOrError_obj expected i n prev hblank hread hraises with
          ⟨-, e, -, he⟩ | ⟨-, hrest⟩
        · rw [(he lines).2]
          exact Except.ok.inj ((he lines).1.symm.trans h)
        · rw [(hrest lines).2]
          exact ih ((hrest lines).1.symm.trans h)

theorem checkFileOrError_ok {genesis : List CodePoint} {file : Option (List Char)}
    {r : Except (Failure P) Unit} (h : checkFileOrError D genesis expected file = .ok r) :
    checkFile genesis expected file = r := by
  cases file with
  | none => exact Except.ok.inj h
  | some text =>
      rw [checkFileOrError] at h
      rw [checkFile]
      cases hlines : checkLinesOrError (P := P) D expected 1 0 genesis
          (splitLines isNewline false text) with
      | error e =>
          rw [hlines] at h
          cases h
      | ok x =>
          rw [hlines] at h
          rw [checkLinesOrError_ok hlines]
          simp only [Except.bind] at h
          cases x with
          | error e =>
              dsimp only at h
              rw [verdictOf_of_isMessage (isMessage_checkLines hlines)] at h
              exact Except.ok.inj h
          | ok n =>
              dsimp only at h ⊢
              cases hcount : checkCount (P := P) expected n with
              | error e =>
                  rw [hcount] at h
                  dsimp only at h
                  rw [verdictOf_of_isMessage (isMessage_checkCount hcount)] at h
                  exact Except.ok.inj h
              | ok _ =>
                  rw [hcount] at h
                  exact Except.ok.inj h

/-- A verdict that is returned is that of the verifier without errors. -/
theorem verifyChainOrError_ok {file : Option (List Char)} {genesis : List CodePoint}
    {anchor : Option (List CodePoint)} {r : Except (Failure P) Unit}
    (h : verifyChainOrError P D file genesis anchor = .ok r) :
    verifyChain P file genesis anchor = r := by
  cases anchor with
  | none => exact checkFileOrError_ok h
  | some anchor =>
      rw [verifyChainOrError] at h
      rw [verifyChain]
      cases hparse : parseAnchor P.digits anchor with
      | none =>
          rw [hparse] at h
          exact Except.ok.inj h
      | some expected =>
          rw [hparse] at h
          exact checkFileOrError_ok h

/-- A new writer on lines that raise nothing is the writer without errors. -/
theorem resumeLinesOrError_ok {last v : PyVal P.F}
    (h : resumeLinesOrError P D last i lines = .ok v) : resumeLines P last i lines = .ok v := by
  induction lines generalizing last i with
  | nil => exact congrArg Except.ok (Except.ok.inj h)
  | cons line lines ih =>
      rw [resumeLinesOrError] at h
      rw [resumeLines]
      split at h
      next hblank =>
        rw [if_pos hblank]
        exact ih h
      next hblank =>
        rw [if_neg hblank]
        cases hread : readLine P D line with
        | error e =>
            rw [hread] at h
            cases e <;> cases h
        | ok w =>
            rw [hread] at h
            rw [loads_of_ok P.toFloats _ hread]
            cases w with
            | obj ms => exact ih h
            | _ => cases h

/-! ## Where something is raised -/

/-- A line stands behind lines, with a relation between them. -/
def Occurs (Q : List (List Char) → List Char → Prop) (lines : List (List Char)) : Prop :=
  ∃ front line rest, lines = front ++ line :: rest ∧ Q front line

theorem not_occurs_nil (Q : List (List Char) → List Char → Prop) : ¬Occurs Q [] := by
  rintro ⟨front, line, rest, h, -⟩
  simp at h

theorem occurs_cons {Q : List (List Char) → List Char → Prop} :
    Occurs Q (line :: lines) ↔ Q [] line ∨ Occurs (fun front l => Q (line :: front) l) lines := by
  constructor
  · rintro ⟨front, l, rest, h, hQ⟩
    cases front with
    | nil =>
        obtain ⟨rfl, -⟩ := List.cons.inj h
        exact .inl hQ
    | cons a front =>
        obtain ⟨rfl, hlines⟩ := List.cons.inj h
        exact .inr ⟨front, l, rest, hlines, hQ⟩
  · rintro (hQ | ⟨front, l, rest, rfl, hQ⟩)
    · exact ⟨[], line, lines, rfl, hQ⟩
    · exact ⟨line :: front, l, rest, rfl, hQ⟩

theorem occurs_congr {Q R : List (List Char) → List Char → Prop}
    (h : ∀ front l, Q front l ↔ R front l) : Occurs Q lines ↔ Occurs R lines := by
  simp only [Occurs, h]

variable (P) in
/-- Records that are chained from a hash and agree with an anchor, and the hash of the last. -/
def Verifies (expected : Option (ℤ × List CodePoint)) (n : ℕ) (prev : List CodePoint)
    (lines : List (List Char)) (h : List CodePoint) : Prop :=
  ∃ es, entriesOf P lines = some es ∧ (chain P).walk prev es = some h ∧
    ∀ j e, es[j]? = some e → AgreesAt expected (n + j + 1) ((chain P).digest e)

theorem verifies_nil {h : List CodePoint} : Verifies P expected n prev [] h ↔ h = prev := by
  constructor
  · rintro ⟨es, hes, hwalk, -⟩
    obtain rfl : [] = es := Option.some.inj hes
    exact (Option.some.inj hwalk).symm
  · rintro rfl
    exact ⟨[], rfl, rfl, fun j e he => by simp at he⟩

theorem verifies_blank {h : List CodePoint} (hblank : strip line = []) :
    Verifies P expected n prev (line :: lines) h ↔ Verifies P expected n prev lines h := by
  rw [Verifies, Verifies, entriesOf_cons_blank hblank]

theorem not_verifies_of_notJson {h : List CodePoint} (hnot : NotJson P D line) :
    ¬Verifies P expected n prev (line :: lines) h := by
  rintro ⟨es, hes, -⟩
  obtain ⟨ms, es', hload, -⟩ := (entriesOf_cons hnot.1).mp hes
  rw [loads_of_decodeError P.toFloats _ hnot.2] at hload
  cases hload

theorem verifies_obj {h : List CodePoint} {ms : Members P} (hblank : strip line ≠ [])
    (hload : loads P.toFloats (strip line) = some (.obj ms)) :
    Verifies P expected n prev (line :: lines) h ↔ Passes expected n prev ms ∧
      Verifies P expected (n + 1) ((chain P).digest ms) lines h := by
  constructor
  · rintro ⟨es, hes, hwalk, hagree⟩
    obtain ⟨ms', es', hload', hes', rfl⟩ := (entriesOf_cons hblank).mp hes
    obtain rfl : ms = ms' := Json.obj.inj (Option.some.inj (hload.symm.trans hload'))
    obtain ⟨hlink, hwalk'⟩ := (chain P).walk_cons_eq_some.mp hwalk
    refine ⟨⟨hlink, hagree 0 ms rfl⟩, es', hes', hwalk', fun j e he => ?_⟩
    have hj := hagree (j + 1) e he
    rwa [← Nat.add_assoc, Nat.add_right_comm n j 1] at hj
  · rintro ⟨⟨hlink, hagree⟩, es, hes, hwalk, hrest⟩
    refine ⟨ms :: es, (entriesOf_cons hblank).mpr ⟨ms, es, hload, hes, rfl⟩,
      (chain P).walk_cons_eq_some.mpr ⟨hlink, hwalk⟩, fun j e he => ?_⟩
    cases j with
    | zero =>
        obtain rfl : ms = e := Option.some.inj he
        exact hagree
    | succ j =>
        have hj := hrest j e he
        rwa [Nat.add_right_comm n 1 j, Nat.add_assoc n j 1] at hj

variable (P D) in
/-- A line raises behind lines that verify. -/
def RaisesBehind (expected : Option (ℤ × List CodePoint)) (n : ℕ) (prev : List CodePoint)
    (front : List (List Char)) (line : List Char) : Prop :=
  ∃ h, Verifies P expected n prev front h ∧ RaisesAt P D h line

theorem raisesBehind_nil : RaisesBehind P D expected n prev [] line ↔ RaisesAt P D prev line := by
  simp only [RaisesBehind, verifies_nil, exists_eq_left]

/-- A walk raises exactly at the first line that raises behind lines that verify. -/
theorem checkLinesOrError_raises_iff :
    (∃ e, checkLinesOrError (P := P) D expected i n prev lines = .error e) ↔
      Occurs (RaisesBehind P D expected n prev) lines := by
  induction lines generalizing i n prev with
  | nil =>
      refine iff_of_false ?_ (not_occurs_nil _)
      rintro ⟨e, he⟩
      cases he
  | cons line lines ih =>
      rw [occurs_cons, raisesBehind_nil]
      by_cases hblank : strip line = []
      · have hline : ¬RaisesAt P D prev line :=
          not_raisesAt_of_decodeError (readLine_of_blank hblank)
        rw [checkLinesOrError_blank hblank, ih, or_iff_right hline]
        exact occurs_congr fun front l => by simp only [RaisesBehind, verifies_blank hblank]
      by_cases hraises : RaisesAt P D prev line
      · exact iff_of_true (checkLinesOrError_raises lines expected i n prev hraises) (.inl hraises)
      rw [or_iff_right hraises]
      rcases line_cases (P := P) (D := D) hblank with hnot | hraises' | ⟨ms, hread⟩
      · rw [(checkLinesOrError_notJson lines expected i n prev hnot).1]
        refine iff_of_false (by simp) ?_
        rintro ⟨front, l, rest, -, h, hverifies, -⟩
        exact not_verifies_of_notJson hnot hverifies
      · exact absurd (.inl hraises') hraises
      · rw [raisesAt_obj_iff hread] at hraises
        have hverifies : ∀ front l, RaisesBehind P D expected n prev (line :: front) l ↔
            Passes expected n prev ms ∧
              RaisesBehind P D expected (n + 1) ((chain P).digest ms) front l := fun front l => by
          simp only [RaisesBehind, verifies_obj hblank (loads_of_obj hread), and_assoc,
            exists_and_left]
        rcases checkLinesOrError_obj expected i n prev hblank hread hraises with
          ⟨hpass, e, -, he⟩ | ⟨hpass, hrest⟩
        · rw [(he lines).1]
          refine iff_of_false (by simp) ?_
          rintro ⟨front, l, rest, -, hbehind⟩
          exact hpass ((hverifies front l).mp hbehind).1
        · rw [(hrest lines).1, ih]
          exact occurs_congr fun front l => by rw [hverifies, and_iff_right hpass]

/-! ## The writer -/

variable {last v : PyVal P.F}

theorem resumeLinesOrError_blank (h : strip line = []) :
    resumeLinesOrError P D last i (line :: lines) = resumeLinesOrError P D last (i + 1) lines := by
  rw [resumeLinesOrError, if_pos h]

theorem resumeLinesOrError_notJson (h : NotJson P D line) :
    resumeLinesOrError P D last i (line :: lines) = .error (.auditIntegrity i) := by
  rw [resumeLinesOrError, if_neg h.1, h.2]

variable (last i lines) in
theorem resumeLinesOrError_raises (h : Raises P D line) :
    ∃ e, resumeLinesOrError P D last i (line :: lines) = .error (.raised e) := by
  have hblank : strip line ≠ [] := fun hblank => not_raises_of_blank hblank h
  rw [resumeLinesOrError, if_neg hblank]
  rcases h with hread | hread | ⟨v, hread, hobj⟩
  · rw [hread]
    exact ⟨_, rfl⟩
  · rw [hread]
    exact ⟨_, rfl⟩
  · rw [hread]
    cases v with
    | obj ms => cases hobj
    | _ => exact ⟨_, rfl⟩

variable (P) in
def hashOf (ms : Members P) : Option (PyVal P.F) :=
  get P (lit "hash") (ofJsonMembers P.toPyFloats ms)

theorem resumeLinesOrError_obj {ms : Members P} (hblank : strip line ≠ [])
    (hread : readLine P D line = .ok (.obj ms)) : resumeLinesOrError P D last i (line :: lines) =
      resumeLinesOrError P D ((hashOf P ms).getD last) (i + 1) lines := by
  rw [resumeLinesOrError, if_neg hblank, hread]
  rfl

variable (last i) in
/-- The writer raises when some line raises and no line before it is reported. -/
theorem resumeLinesOrError_raises_iff :
    (∃ e, resumeLinesOrError P D last i lines = .error (.raised e)) ↔
      Occurs (fun front line => Raises P D line ∧ ∀ l ∈ front, ¬NotJson P D l) lines := by
  induction lines generalizing last i with
  | nil =>
      refine iff_of_false ?_ (not_occurs_nil _)
      rintro ⟨e, he⟩
      cases he
  | cons line lines ih =>
      rw [occurs_cons]
      simp only [List.forall_mem_cons]
      by_cases hblank : strip line = []
      · have hline := not_raises_of_blank (P := P) (D := D) hblank
        have hnot : ¬NotJson P D line := fun h => h.1 hblank
        simp [resumeLinesOrError_blank hblank, ih, hline, hnot]
      rcases line_cases (P := P) (D := D) hblank with hnot | hraises | ⟨ms, hread⟩
      · have hline := not_raises_of_decodeError hnot.2
        simp [resumeLinesOrError_notJson hnot, hline, hnot, Occurs]
      · exact iff_of_true (resumeLinesOrError_raises lines i last hraises)
          (.inl ⟨hraises, fun l hl => absurd hl List.not_mem_nil⟩)
      · have hline := not_raises_of_obj hread
        have hnot : ¬NotJson P D line := fun h => by cases hread.symm.trans h.2
        simp [resumeLinesOrError_obj hblank hread, ih, hline, hnot]

/-- A new writer resumes when all lines are objects, at the last hash of one of them. -/
theorem resumeLinesOrError_eq_ok (h : resumeLinesOrError P D last i lines = .ok v) :
    ∃ es, entriesOf P lines = some es ∧
      v = es.foldl (fun last ms => (hashOf P ms).getD last) last := by
  induction lines generalizing last i with
  | nil => exact ⟨[], rfl, (Except.ok.inj h).symm⟩
  | cons line lines ih =>
      by_cases hblank : strip line = []
      · rw [resumeLinesOrError_blank hblank] at h
        rw [entriesOf_cons_blank hblank]
        exact ih h
      rcases line_cases (P := P) (D := D) hblank with hnot | hraises | ⟨ms, hread⟩
      · rw [resumeLinesOrError_notJson hnot] at h
        cases h
      · obtain ⟨e, he⟩ := resumeLinesOrError_raises lines i last hraises
        cases he.symm.trans h
      · rw [resumeLinesOrError_obj hblank hread] at h
        obtain ⟨es, hes, rfl⟩ := ih h
        exact ⟨ms :: es, (entriesOf_cons hblank).mpr ⟨ms, es, loads_of_obj hread, hes, rfl⟩, rfl⟩

theorem not_notJson_of_entriesOf {es : List (Members P)} (h : entriesOf P lines = some es) :
    ∀ l ∈ lines, ¬NotJson P D l := by
  induction lines generalizing es with
  | nil => exact fun l hl => absurd hl List.not_mem_nil
  | cons line lines ih =>
      by_cases hblank : strip line = []
      · rw [entriesOf_cons_blank hblank] at h
        exact List.forall_mem_cons.mpr ⟨fun hnot => hnot.1 hblank, ih h⟩
      · obtain ⟨ms, es', hload, hes', -⟩ := (entriesOf_cons hblank).mp h
        refine List.forall_mem_cons.mpr ⟨fun hnot => ?_, ih hes'⟩
        rw [loads_of_decodeError P.toFloats _ hnot.2] at hload
        cases hload

/-! ## Verdicts -/

/-- A verdict is returned: that the file is intact, or a message. -/
def VerdictReturned (x : Except PyError (Except (Failure P) Unit)) : Prop :=
  ∃ r, x = .ok r ∧ ∀ e, r = .error e → IsMessage e

abbrev linesOf (text : List Char) : List (List Char) := splitLines isNewline false text

variable {genesis : List CodePoint} {text : List Char}

theorem verdictReturned_verdictOf {e : Failure P} (h : IsMessage e) :
    VerdictReturned (verdictOf e : Except PyError (Except (Failure P) Unit)) := by
  refine ⟨.error e, verdictOf_of_isMessage h, fun e' he' => ?_⟩
  rwa [← Except.error.inj he']

theorem verdictReturned_checkFile :
    VerdictReturned (checkFileOrError (P := P) D genesis expected (some text)) ↔
      ¬Occurs (RaisesBehind P D expected 0 genesis) (linesOf text) := by
  rw [← checkLinesOrError_raises_iff, checkFileOrError]
  cases hlines : checkLinesOrError (P := P) D expected 1 0 genesis (linesOf text) with
  | error e =>
      refine iff_of_false ?_ (not_not.mpr ⟨e, rfl⟩)
      rintro ⟨r, hr, -⟩
      cases hr
  | ok r =>
      refine iff_of_true ?_ (by simp)
      simp only [Except.bind]
      cases r with
      | error e => exact verdictReturned_verdictOf (isMessage_checkLines hlines)
      | ok n =>
          dsimp only
          cases hcount : checkCount (P := P) expected n with
          | error e => exact verdictReturned_verdictOf (isMessage_checkCount hcount)
          | ok _ => exact ⟨_, rfl, fun e he => by cases he⟩

variable (P) in
/-- The anchor that is expected, where it can be read. -/
def expectedOf (anchor : Option (List CodePoint)) : Option (Option (ℤ × List CodePoint)) :=
  anchor.elim (some none) fun anchor => (parseAnchor P.digits anchor).map some

theorem verdictReturned_iff {anchor : Option (List CodePoint)} :
    VerdictReturned (verifyChainOrError P D (some text) genesis anchor) ↔
      ∀ expected ∈ expectedOf P anchor,
        ¬Occurs (RaisesBehind P D expected 0 genesis) (linesOf text) := by
  cases anchor with
  | none => simp [verifyChainOrError, expectedOf, verdictReturned_checkFile]
  | some anchor =>
      simp only [verifyChainOrError, expectedOf, Option.elim_some]
      cases parseAnchor P.digits anchor with
      | none => exact iff_of_true (verdictReturned_verdictOf trivial) (by simp)
      | some expected => simp [verdictReturned_checkFile]

/-! ## The last hash -/

variable (P) in
/-- The value is the hash of the last record, or the genesis hash where there is no record. -/
def IsLastHash (genesis : List CodePoint) (es : List (Members P)) (v : PyVal P.F) : Prop :=
  es.getLast?.elim (v = .str genesis) fun ms => hashOf P ms = some v

variable (P) in
/-- A writer resumes at the hash of the last record, or the log is reported as corrupt. -/
def ResumedOrReported (genesis : List CodePoint) (text : List Char)
    (x : Except OpenError (AuditChainWriter P)) : Prop :=
  (∃ i, x = .error (.auditIntegrity i)) ∨
    ∃ w es, x = .ok w ∧ entries P text = some es ∧ IsLastHash P genesis es w.lastHash

theorem exists_notJson (h : resumeLinesOrError P D last i lines = .error (.auditIntegrity m)) :
    ∃ l ∈ lines, NotJson P D l := by
  induction lines generalizing last i with
  | nil => cases h
  | cons line lines ih =>
      by_cases hblank : strip line = []
      · rw [resumeLinesOrError_blank hblank] at h
        obtain ⟨l, hl, hnot⟩ := ih h
        exact ⟨l, .tail _ hl, hnot⟩
      rcases line_cases (P := P) (D := D) hblank with hnot | hraises | ⟨ms, hread⟩
      · exact ⟨line, .head _, hnot⟩
      · obtain ⟨e, he⟩ := resumeLinesOrError_raises lines i last hraises
        cases he.symm.trans h
      · rw [resumeLinesOrError_obj hblank hread] at h
        obtain ⟨l, hl, hnot⟩ := ih h
        exact ⟨l, .tail _ hl, hnot⟩

variable (genesis) in
/-- The hash that a writer resumes at is that of the last record, when the record has one. -/
theorem isLastHash_foldl_iff (es : List (Members P)) :
    IsLastHash P genesis es (es.foldl (fun last ms => (hashOf P ms).getD last) (.str genesis)) ↔
      ∀ ms ∈ es.getLast?, (hashOf P ms).isSome := by
  cases es using List.reverseRecOn with
  | nil => simp [IsLastHash]
  | append_singleton es ms =>
      rw [IsLastHash, List.getLast?_concat, Option.elim_some, List.foldl_append, List.foldl_cons,
        List.foldl_nil]
      cases hhash : hashOf P ms with
      | none => simp [hhash]
      | some v => simp [hhash]

/-- A file is resumed at the last hash or reported exactly when every line that raises stands
behind one that is no JSON, and the last of the records, where all lines are records, has a hash. -/
theorem resumedOrReported_iff {minFree : ℕ} {schema : Option RecordSchema} :
    ResumedOrReported P genesis text
        (AuditChainWriter.initOrError P D (some text) genesis minFree schema) ↔
      (¬Occurs (fun front line => Raises P D line ∧ ∀ l ∈ front, ¬NotJson P D l) (linesOf text)) ∧
        ∀ es, entries P text = some es → ∀ ms ∈ es.getLast?, (hashOf P ms).isSome := by
  rw [← resumeLinesOrError_raises_iff 1 (.str genesis), ResumedOrReported,
    AuditChainWriter.initOrError, resumeLastHashOrError]
  cases h : resumeLinesOrError P D (.str genesis) 1 (linesOf text) with
  | error e =>
      cases e with
      | auditIntegrity i =>
          refine iff_of_true (.inl ⟨i, rfl⟩) ⟨by simp, fun es hes => ?_⟩
          obtain ⟨l, hl, hnot⟩ := exists_notJson h
          exact absurd hnot (not_notJson_of_entriesOf hes l hl)
      | raised e =>
          refine iff_of_false ?_ fun hno => hno.1 ⟨e, rfl⟩
          rintro (⟨i, hi⟩ | ⟨w, es, hw, -⟩)
          · cases hi
          · cases hw
  | ok v =>
      obtain ⟨es, hes, rfl⟩ := resumeLinesOrError_eq_ok h
      have hentries : entries P text = some es := hes
      simp only [hentries, Option.some.injEq, forall_eq',
        ← isLastHash_foldl_iff genesis]
      constructor
      · rintro (⟨i, hi⟩ | ⟨w, es', hw, rfl, hlast⟩)
        · cases hi
        · obtain rfl := Except.ok.inj hw
          exact ⟨by simp, hlast⟩
      · rintro ⟨-, hlast⟩
        exact .inr ⟨_, es, rfl, rfl, hlast⟩

/-- A verdict is returned exactly when no line raises behind records that verify.  A new writer
resumes at the last hash or reports the log as well exactly when every line that raises stands
behind one that is no JSON, no record behind records that verify nests too deep to be hashed, and
the last of the records, where all lines are records, has a hash. -/
theorem verdict_iff (P : Python) (D : Nesting) (text : List Char) (genesis : List CodePoint)
    (anchor : Option (List CodePoint)) (minFree : ℕ) (schema : Option RecordSchema) :
    (VerdictReturned (verifyChainOrError P D (some text) genesis anchor) ↔
      ∀ expected ∈ expectedOf P anchor, ¬Occurs (fun front line => ∃ h,
        Verifies P expected 0 genesis front h ∧ RaisesAt P D h line) (linesOf text)) ∧
    (VerdictReturned (verifyChainOrError P D (some text) genesis anchor) ∧
        ResumedOrReported P genesis text
          (AuditChainWriter.initOrError P D (some text) genesis minFree schema) ↔
      (¬Occurs (fun front line => Raises P D line ∧ ∀ l ∈ front, ¬NotJson P D l) (linesOf text)) ∧
        (∀ expected ∈ expectedOf P anchor, ¬Occurs (fun front line => ∃ h,
          Verifies P expected 0 genesis front h ∧
            ∃ ms, readLine P D line = .ok (.obj ms) ∧ TooDeep D h ms) (linesOf text)) ∧
        ∀ es, entries P text = some es → ∀ ms ∈ es.getLast?, (hashOf P ms).isSome) := by
  have hverdict : VerdictReturned (verifyChainOrError P D (some text) genesis anchor) ↔ _ :=
    verdictReturned_iff
  refine ⟨hverdict, ?_⟩
  rw [resumedOrReported_iff, hverdict]
  constructor
  · rintro ⟨hno, hreads, hlast⟩
    refine ⟨hreads, fun expected hexpected hoccurs => hno expected hexpected ?_, hlast⟩
    obtain ⟨front, line, rest, hlines, h, hverifies, hdeep⟩ := hoccurs
    exact ⟨front, line, rest, hlines, h, hverifies, .inr hdeep⟩
  · rintro ⟨hreads, hdeep, hlast⟩
    refine ⟨fun expected hexpected hoccurs => ?_, hreads, hlast⟩
    obtain ⟨front, line, rest, hlines, h, hverifies, hraises | htoo⟩ := hoccurs
    · obtain ⟨es, hes, -⟩ := hverifies
      exact hreads ⟨front, line, rest, hlines, hraises, not_notJson_of_entriesOf hes⟩
    · exact hdeep expected hexpected ⟨front, line, rest, hlines, h, hverifies, htoo⟩

/-- A file with a number on its line: neither a verdict nor a report of a corrupt log. -/
theorem not_verdict_number :
    ¬VerdictReturned (verifyChainOrError orders ⟨900, 898⟩ (some "5".toList) genesisHash none) ∧
      ¬ResumedOrReported orders genesisHash "5".toList
        (AuditChainWriter.initOrError orders ⟨900, 898⟩ (some "5".toList) genesisHash 0 none) := by
  have hraised : verifyChainOrError orders ⟨900, 898⟩ (some "5".toList) genesisHash none =
      .error .attributeError := rfl
  have hopened : AuditChainWriter.initOrError orders ⟨900, 898⟩ (some "5".toList) genesisHash 0
      none = .error (.raised .attributeError) := rfl
  constructor
  · rintro ⟨r, hr, -⟩
    cases hraised.symm.trans hr
  · rintro (⟨i, hi⟩ | ⟨w, es, hw, -⟩)
    · cases hopened.symm.trans hi
    · cases hopened.symm.trans hw

end AutonomousAudit
