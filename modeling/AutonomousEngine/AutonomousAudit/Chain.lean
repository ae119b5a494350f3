import AutonomousEngine.Basis.Dumps
import AutonomousEngine.Basis.HashChain
import AutonomousEngine.Basis.JsonLines
import AutonomousEngine.Idempotenz.Schluessel

/-!
# The package `autonomous_audit`

A log is a file with one record a line.  A record carries the hash of the record
before it and its own, which is taken over its text with sorted keys and without
the hash.  `AuditChainWriter` appends records, `get_anchor` names the number of
records and the last hash, and `verify_chain` walks a file.

A file is its text, and there is none when the file does not exist.  SHA-256 is a
parameter: the digest in hexadecimal of a text.  So is what `str` writes for a
value that is no string.
-/

namespace AutonomousAudit

open Basis
open Idempotenz (Ziffern)

/-- What the package takes from the language and from `hashlib`. -/
structure Python extends PyFloats where
  sha256 : List Char → List Char
  str : PyVal F → List CodePoint
  digits : Ziffern

variable (P : Python)

abbrev Record := List (PyKey P.F × PyVal P.F)

/-! ## Records -/

/-- The string of a literal of the source. -/
def lit (s : String) : List CodePoint := ofText s.toList

def isKey (s : List CodePoint) (k : PyKey P.F) : Bool := keyString P.toPyFloats k == some s

/-- `record.get(s)`. -/
def get (s : List CodePoint) (r : Record P) : Option (PyVal P.F) :=
  (r.find? fun m => isKey P s m.1).map Prod.snd

def without (s : List CodePoint) (r : Record P) : Record P := r.filter fun m => !isKey P s m.1

/-- `record[s] = v`. -/
def put (s : List CodePoint) (v : PyVal P.F) : Record P → Record P
  | [] => [(.str s, v)]
  | m :: r => if isKey P s m.1 then (m.1, v) :: r else m :: put s v r

def asString : PyVal P.F → Option (List CodePoint)
  | .str s => some s
  | _ => none

/-- The text that is hashed.  There is none when keys cannot be compared. -/
def canonicalPreimage (entry : Record P) : Option (List Char) :=
  dumpsSorted P.toPyFloats (.dict (without P (lit "hash") entry))

def entryHash (entry : Record P) : Option (List Char) :=
  (canonicalPreimage P entry).map P.sha256

/-! ## Schemas -/

/-- The types a field can be declared with. -/
inductive PyType where
  | none
  | bool
  | int
  | float
  | str
  | list
  | tuple
  | dict
  | object
deriving DecidableEq

/-- `isinstance`.  A truth value is an integer too. -/
def isInstance : PyVal P.F → PyType → Bool
  | _, .object => true
  | .none, .none => true
  | .bool _, .bool => true
  | .bool _, .int => true
  | .int _, .int => true
  | .float _, .float => true
  | .str _, .str => true
  | .list _, .list => true
  | .tuple _, .tuple => true
  | .dict _, .dict => true
  | _, _ => false

abbrev RecordSchema := List (List CodePoint × PyType)

inductive SchemaError where
  | missingField (field : List CodePoint)
  | wrongType (field : List CodePoint) (expected : PyType)
deriving DecidableEq

def RecordSchema.validate : RecordSchema → Record P → Except SchemaError Unit
  | [], _ => .ok ()
  | (field, expected) :: fields, record =>
      match get P field record with
      | none => .error (.missingField field)
      | some v =>
          if isInstance P v expected then RecordSchema.validate fields record
          else .error (.wrongType field expected)

/-! ## The writer -/

/-- A writer and the file it writes to. -/
structure AuditChainWriter where
  file : Option (List Char)
  minFree : ℕ
  schema : Option RecordSchema
  lastHash : PyVal P.F

inductive AppendError where
  | schema (e : SchemaError)
  | diskFull
  | typeError

/-- What goes wrong while the last hash is read: a line that is no JSON, or that is
no dictionary. -/
inductive ResumeError where
  | corrupt (line : ℕ)
  | attributeError
deriving DecidableEq

/-- Reads the last hash from the lines of a file. -/
def resumeLines (last : PyVal P.F) (i : ℕ) :
    List (List Char) → Except ResumeError (PyVal P.F)
  | [] => .ok last
  | line :: lines =>
      if strip line = [] then resumeLines last (i + 1) lines
      else
        match loads P.toFloats (strip line) with
        | none => .error (.corrupt i)
        | some (.obj ms) =>
            resumeLines ((get P (lit "hash") (ofJsonMembers P.toPyFloats ms)).getD last) (i + 1)
              lines
        | some _ => .error .attributeError

def resumeLastHash (genesis : List CodePoint) :
    Option (List Char) → Except ResumeError (PyVal P.F)
  | none => .ok (.str genesis)
  | some text => resumeLines P (.str genesis) 1 (splitLines isNewline false text)

def AuditChainWriter.init (file : Option (List Char)) (genesis : List CodePoint) (minFree : ℕ)
    (schema : Option RecordSchema) : Except ResumeError (AuditChainWriter P) :=
  (resumeLastHash P genesis file).map fun last =>
    { file := file, minFree := minFree, schema := schema, lastHash := last }

/-- The record that is chained behind a hash. -/
def chained (last : PyVal P.F) (record : Record P) : Record P :=
  put P (lit "prev_hash") last (without P (lit "hash") record)

/-- Appends a record, with the free space of the disk. -/
def AuditChainWriter.append (w : AuditChainWriter P) (free : ℕ) (record : Record P) :
    Except AppendError (AuditChainWriter P) :=
  match w.schema.elim (.ok ()) fun s => s.validate P record with
  | .error e => .error (.schema e)
  | .ok () =>
      if free < w.minFree then .error .diskFull
      else
        match entryHash P (chained P w.lastHash record) with
        | none => .error .typeError
        | some digest =>
            let entry := put P (lit "hash") (.str (ofText digest)) (chained P w.lastHash record)
            .ok { w with
              file := some (w.file.getD [] ++ (dumps P.toPyFloats (.dict entry) ++ ['\n']))
              lastHash := .str (ofText digest) }

/-! ## The anchor -/

/-- `str` of a value. -/
def format : PyVal P.F → List CodePoint
  | .str s => s
  | v => P.str v

/-- The number of lines that are not blank and the last hash.  A line that is no
JSON counts, and one that is no dictionary raises an error. -/
def anchorLines (n : ℕ) (prev : PyVal P.F) : List (List Char) → Option (ℕ × PyVal P.F)
  | [] => some (n, prev)
  | line :: lines =>
      if strip line = [] then anchorLines n prev lines
      else
        match loads P.toFloats (strip line) with
        | none => anchorLines (n + 1) prev lines
        | some (.obj ms) =>
            anchorLines (n + 1)
              ((get P (lit "hash") (ofJsonMembers P.toPyFloats ms)).getD prev) lines
        | some _ => none

def getAnchor (genesis : List CodePoint) : Option (List Char) → Option (List CodePoint)
  | none => some (lit "0:" ++ genesis)
  | some text => (anchorLines P 0 (.str genesis) (splitLines isNewline false text)).map fun p =>
      ofText (Nat.toDigits 10 p.1) ++ lit ":" ++ format P p.2

/-! ## Reading an anchor -/

/-- The digits of a number, with single underscores between them. -/
def digitsOf (z : Ziffern) : List Char → Option (List ℕ)
  | [] => none
  | [c] => (z.wert c).map fun n => [n]
  | c :: d :: cs => (z.wert c).bind fun n =>
      (if d = '_' then digitsOf z cs else digitsOf z (d :: cs)).map fun ns => n :: ns

/-- A blank that `int` takes away. -/
def intSpace (c : Char) : Bool := isSpace c && !(decide (28 ≤ c.toNat) && decide (c.toNat ≤ 31))

def maxStrDigits : ℕ := 4300

/-- `int` of a text. -/
def pyInt (z : Ziffern) (cs : List Char) : Option ℤ :=
  let body := ((cs.dropWhile intSpace).reverse.dropWhile intSpace).reverse
  let unsigned := if body.head? = some '-' ∨ body.head? = some '+' then body.tail else body
  (digitsOf z unsigned).bind fun ds =>
    if maxStrDigits < ds.length then none
    else
      let n : ℕ := ds.foldl (fun n d => 10 * n + d) 0
      some (if body.head? = some '-' then -(n : ℤ) else n)

/-- The colon between the parts of an anchor. -/
def colon : CodePoint := ofChar ':'

/-- The count and the hash of an anchor.  Half of a surrogate pair is no digit. -/
def parseAnchor (z : Ziffern) (anchor : List CodePoint) : Option (ℤ × List CodePoint) :=
  let head := anchor.takeWhile (· ≠ colon)
  let rest := anchor.dropWhile (· ≠ colon)
  (pyInt z (head.map fun c => Char.ofNat c.val)).bind fun n =>
    match rest with
    | [] => none
    | _ :: hash => some (n, hash)

/-! ## Verification -/

/-- Why a file does not verify.  A line that is no dictionary raises an error, and
`typeError` would be one of keys that cannot be compared. -/
inductive Failure where
  | invalidAnchor (anchor : List CodePoint)
  | fileNotFound
  | invalidJson (line : ℕ)
  | attributeError
  | typeError
  | prevHashBreak (line : ℕ) (found : Option (PyVal P.F)) (expected : List CodePoint)
  | hashMismatch (line : ℕ)
  | anchorMismatch (n : ℕ) (expected found : List CodePoint)
  | emptyLog
  | truncated (expected : ℤ) (n : ℕ)

variable {P}

def checkEntry (i : ℕ) (prev : List CodePoint) (entry : Record P) :
    Except (Failure P) (List CodePoint) :=
  if (get P (lit "prev_hash") entry).bind (asString P) ≠ some prev then
    .error (.prevHashBreak i (get P (lit "prev_hash") entry) prev)
  else
    match entryHash P entry with
    | none => .error .typeError
    | some recomputed =>
        if (get P (lit "hash") entry).bind (asString P) ≠ some (ofText recomputed) then
          .error (.hashMismatch i)
        else .ok (ofText recomputed)

def checkAnchor (expected : Option (ℤ × List CodePoint)) (n : ℕ) (prev : List CodePoint) :
    Except (Failure P) Unit :=
  match expected with
  | none => .ok ()
  | some (k, h) => if (n : ℤ) = k ∧ prev ≠ h then .error (.anchorMismatch n h prev) else .ok ()

/-- Walks the lines of a file and counts its records. -/
def checkLines (expected : Option (ℤ × List CodePoint)) (i n : ℕ) (prev : List CodePoint) :
    List (List Char) → Except (Failure P) ℕ
  | [] => .ok n
  | line :: lines =>
      if strip line = [] then checkLines expected (i + 1) n prev lines
      else
        match loads P.toFloats (strip line) with
        | none => .error (.invalidJson i)
        | some (.obj ms) =>
            match checkEntry i prev (ofJsonMembers P.toPyFloats ms) with
            | .error e => .error e
            | .ok h =>
                match checkAnchor expected (n + 1) h with
                | .error e => .error e
                | .ok () => checkLines expected (i + 1) (n + 1) h lines
        | some _ => .error .attributeError

def checkCount (expected : Option (ℤ × List CodePoint)) (n : ℕ) : Except (Failure P) Unit :=
  if n = 0 then .error .emptyLog
  else
    match expected with
    | none => .ok ()
    | some (k, _) => if (n : ℤ) < k then .error (.truncated k n) else .ok ()

/-- Walks a file that an anchor is known of, or none. -/
def checkFile (genesis : List CodePoint) (expected : Option (ℤ × List CodePoint)) :
    Option (List Char) → Except (Failure P) Unit
  | none => .error .fileNotFound
  | some text =>
      match checkLines expected 1 0 genesis (splitLines isNewline false text) with
      | .error e => .error e
      | .ok n => checkCount expected n

variable (P)

def verifyChain (file : Option (List Char)) (genesis : List CodePoint)
    (expectedAnchor : Option (List CodePoint)) : Except (Failure P) Unit :=
  match expectedAnchor with
  | none => checkFile genesis none file
  | some anchor =>
      match parseAnchor P.digits anchor with
      | none => .error (.invalidAnchor anchor)
      | some expected => checkFile genesis (some expected) file

end AutonomousAudit
