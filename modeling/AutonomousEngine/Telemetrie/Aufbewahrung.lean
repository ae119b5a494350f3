import AutonomousEngine.Basis.Retention
import AutonomousEngine.Basis.ExtRat

/-!
# The local telemetry store

Spans are appended to `telemetry.jsonl`, a line each.  When the file is over its cap, it
is moved to `telemetry.1.jsonl` before the next lines are appended, and the file that was
there goes.  When the exporter is built, the store is pruned: lines that are too old or no
JSON go, and then the oldest ones until the file fits.

The loop of `prune_store` keeps a queue and a byte count and pops after each line.  It
leaves the newest lines within the cap of those it does not drop (`pruneLines_eq`).  A line
that is JSON but no object makes it raise, and then the store stays as it is.

A file is the list of its lines with the time it was last written; `json.dumps` writes no
line break.  What `json.loads` says of a line is a parameter.  The file operations succeed: a
rotation, an append or a rewrite that fails is not modelled.
-/

namespace Telemetrie

open Basis

/-- A record of `_span_to_record`. -/
structure Record where
  name : String
  status : Option String
  startTime : Option ℤ
  endTime : Option ℤ
  /-- The identifiers, the attributes, the resource and the events. -/
  rest : String
deriving DecidableEq, Repr

/-- What `json.loads` says of a line: of an object the two times, if they are numbers. -/
inductive Lesung where
  | unlesbar
  | keinObjekt
  | objekt (endTime startTime : Option ExtRat)
deriving DecidableEq, Repr

/-- The settings of the exporter, the age in nanoseconds. -/
structure Konfig where
  maxAge : ℤ
  maxBytes : Option ℕ
  dropNoise : Bool

/-- A file: its lines, and when it was last written. -/
structure Datei where
  zeilen : List String
  mtime : ℤ
deriving DecidableEq, Repr

/-- `telemetry.jsonl` and `telemetry.1.jsonl`, where they exist. -/
structure Ablage where
  active : Option Datei
  rotated : Option Datei
deriving DecidableEq, Repr

/-- The bytes of a line, with the newline. -/
def blen (zeile : String) : ℕ := zeile.utf8ByteSize + 1

def Datei.groesse (d : Datei) : ℕ := weight blen d.zeilen

/-! ## Pruning -/

def veraltet (cutoff : ℤ) (ts : Option ExtRat) : Bool :=
  match ts with
  | none => false
  | some ts => decide (ts < .of cutoff)

/-- Pops the oldest records while the count is over the cap. -/
def popOver (maxBytes : ℕ) : List (String × ℕ) → ℕ → List (String × ℕ) × ℕ
  | x :: y :: kept, keptBytes =>
      if maxBytes < keptBytes then popOver maxBytes (y :: kept) (keptBytes - x.2)
      else (x :: y :: kept, keptBytes)
  | kept, keptBytes => (kept, keptBytes)

section

variable (loads : String → Lesung) (c : Konfig)

/-- A round of the loop; `none` when it raises. -/
def pruneLine (cutoff : ℤ) (kept : List (String × ℕ) × ℕ) (ln : String) :
    Option (List (String × ℕ) × ℕ) :=
  if ln = "" then some kept
  else
    match loads ln with
    | .unlesbar => some kept
    | .keinObjekt => none
    | .objekt endTime startTime =>
        if veraltet cutoff (endTime.or startTime) then some kept
        else
          let kept := (kept.1 ++ [(ln, blen ln)], kept.2 + blen ln)
          match c.maxBytes with
          | none => some kept
          | some maxBytes => some (popOver maxBytes kept.1 kept.2)

def pruneLines (cutoff : ℤ) (zeilen : List String) : Option (List String) :=
  (zeilen.foldlM (pruneLine loads c cutoff) ([], 0)).map fun kept => kept.1.map Prod.fst

def pruneStore (now : ℤ) (s : Ablage) : Ablage :=
  let cutoff := now - c.maxAge
  let rotated := s.rotated.filter fun d => decide (cutoff ≤ d.mtime)
  match s.active with
  | none => { s with rotated := rotated }
  | some d =>
      match pruneLines loads c cutoff d.zeilen with
      | none => s
      | some zeilen => ⟨some ⟨zeilen, now⟩, rotated⟩

end

/-! ## The exporter -/

def isDroppableNoise (r : Record) : Bool :=
  if r.status = some "ERROR" then false
  else
    ["OPTIONS ", "GET /health", "HEAD /health"].any fun anfang =>
      anfang.toList.isPrefixOf r.name.toList

section

variable (loads : String → Lesung) (dumps : Record → String) (c : Konfig)

def zeilen (records : List Record) : List String :=
  (records.filter fun r => !(c.dropNoise && isDroppableNoise r)).map dumps

def rotateIfOverCap (s : Ablage) : Ablage :=
  match c.maxBytes, s.active with
  | some maxBytes, some d => if d.groesse ≤ maxBytes then s else ⟨none, some d⟩
  | _, _ => s

/-- Opens the file for appending and writes lines. -/
def anhaengen (now : ℤ) (lines : List String) (s : Ablage) : Ablage :=
  { s with active := some ⟨(s.active.map Datei.zeilen).getD [] ++ lines, now⟩ }

/-- `export`. -/
def exportSpans (now : ℤ) (records : List Record) (s : Ablage) : Ablage :=
  let lines := zeilen dumps c records
  if lines = [] then s else anhaengen now lines (rotateIfOverCap c s)

/-- What happens to the store: an exporter is built, or is given spans. -/
inductive Ereignis where
  | start (now : ℤ)
  | exportiert (now : ℤ) (records : List Record)

def Ereignis.zeit : Ereignis → ℤ
  | .start now => now
  | .exportiert now _ => now

def schritt (s : Ablage) : Ereignis → Ablage
  | .start now => pruneStore loads c now s
  | .exportiert now records => exportSpans dumps c now records s

def lauf (s : Ablage) (ereignisse : List Ereignis) : Ablage :=
  ereignisse.foldl (schritt loads dumps c) s

def geschrieben (ereignisse : List Ereignis) : List String :=
  ereignisse.flatMap fun
    | .start _ => []
    | .exportiert _ records => zeilen dumps c records

end

/-- The lines of the store, the oldest first. -/
def Ablage.zeilen (s : Ablage) : List String :=
  (s.rotated.map Datei.zeilen).getD [] ++ (s.active.map Datei.zeilen).getD []

/-! ## What the loop leaves -/

section

variable {loads : String → Lesung} {c : Konfig} {cutoff : ℤ} {ls : List String} {ln : String}

def bleibt (loads : String → Lesung) (cutoff : ℤ) (ln : String) : Bool :=
  match loads ln with
  | .objekt endTime startTime => decide (ln ≠ "") && !veraltet cutoff (endTime.or startTime)
  | _ => false

/-- Cuts a list to the cap, if there is one. -/
def kappen (maxBytes : Option ℕ) (ls : List String) : List String :=
  match maxBytes with
  | none => ls
  | some maxBytes => fit blen maxBytes ls

/-- The queue of some lines, with its count. -/
def queue (ls : List String) : List (String × ℕ) × ℕ :=
  (ls.map fun ln => (ln, blen ln), weight blen ls)

theorem popOver_queue (maxBytes : ℕ) (ls : List String) :
    popOver maxBytes (queue ls).1 (queue ls).2 = queue (fit blen maxBytes ls) := by
  induction ls with
  | nil => rfl
  | cons x ls ih =>
      cases ls with
      | nil => rfl
      | cons y ls =>
          rw [fit_cons_cons]
          show (if maxBytes < weight blen (x :: y :: ls) then _ else _) = _
          split
          next =>
            have hcount : weight blen (x :: y :: ls) - blen x = weight blen (y :: ls) := by
              rw [weight_cons, Nat.add_sub_cancel_left]
            rw [← ih]
            show popOver maxBytes _ (weight blen (x :: y :: ls) - blen x) = _
            rw [hcount]
            rfl
          next => rfl

theorem pruneLine_queue (h : ln = "" ∨ loads ln ≠ .keinObjekt) :
    pruneLine loads c cutoff (queue ls) ln =
      some (queue (if bleibt loads cutoff ln then kappen c.maxBytes (ls ++ [ln]) else ls)) := by
  have hpush : ((queue ls).1 ++ [(ln, blen ln)], (queue ls).2 + blen ln) = queue (ls ++ [ln]) := by
    simp [queue]
  rw [pruneLine, bleibt]
  split
  next hempty =>
    subst hempty
    cases loads "" <;> simp
  next hne =>
    cases hl : loads ln with
    | unlesbar => simp
    | keinObjekt => exact absurd hl (h.resolve_left hne)
    | objekt endTime startTime =>
        simp only
        split
        next hold => simp [hold]
        next hnew =>
          have hstay : (decide (ln ≠ "") && !veraltet cutoff (endTime.or startTime)) = true := by
            simp [hne, hnew]
          rw [if_pos hstay]
          cases c.maxBytes with
          | none => exact congrArg some hpush
          | some maxBytes =>
              have hpop := popOver_queue maxBytes (ls ++ [ln])
              rw [← hpush] at hpop
              exact congrArg some hpop

/-- The loop of `prune_store` leaves the newest lines within the cap, of those that are
records and not too old. -/
theorem pruneLines_eq (h : ∀ ln ∈ ls, ln = "" ∨ loads ln ≠ .keinObjekt) :
    pruneLines loads c cutoff ls = some (kappen c.maxBytes (ls.filter (bleibt loads cutoff))) := by
  have hrun : ∀ vorher, ls.foldlM (pruneLine loads c cutoff) (queue (kappen c.maxBytes vorher)) =
      some (queue (kappen c.maxBytes (vorher ++ ls.filter (bleibt loads cutoff)))) := by
    induction ls with
    | nil =>
        intro vorher
        rw [List.filter_nil, List.append_nil]
        rfl
    | cons ln ls ih =>
        intro vorher
        rw [List.foldlM_cons, pruneLine_queue (h ln List.mem_cons_self), Option.bind_eq_bind,
          Option.bind_some]
        have ih := ih fun l hl => h l (List.mem_cons_of_mem ln hl)
        cases hb : bleibt loads cutoff ln with
        | false =>
            rw [List.filter_cons_of_neg (by simp [hb])]
            exact ih vorher
        | true =>
            have hkappen : kappen c.maxBytes (kappen c.maxBytes vorher ++ [ln]) =
                kappen c.maxBytes (vorher ++ [ln]) := by
              cases c.maxBytes with
              | none => rfl
              | some maxBytes => exact fit_append vorher [ln]
            rw [if_pos rfl, hkappen, ih (vorher ++ [ln]), List.filter_cons_of_pos hb,
              List.append_assoc, List.singleton_append]
  have hnil : queue (kappen c.maxBytes []) = ([], 0) := by
    cases c.maxBytes <;> rfl
  rw [pruneLines, ← hnil, hrun [], Option.map_some, List.nil_append]
  simp [queue, Function.comp_def]

/-- A line that is JSON but no object stops the pruning. -/
theorem pruneLines_keinObjekt (hmem : ln ∈ ls) (hne : ln ≠ "") (h : loads ln = .keinObjekt) :
    pruneLines loads c cutoff ls = none := by
  have hrun : ∀ kept, ls.foldlM (pruneLine loads c cutoff) kept = none := by
    induction ls with
    | nil => cases hmem
    | cons l ls ih =>
        intro kept
        rw [List.foldlM_cons]
        rcases List.mem_cons.mp hmem with rfl | hmem
        · rw [pruneLine, if_neg hne, h]
          rfl
        · cases pruneLine loads c cutoff kept l with
          | none => rfl
          | some kept => exact ih hmem kept
  rw [pruneLines, hrun]
  rfl

/-- What is left of a file that does not stop the pruning. -/
theorem pruneLines_some {rest : List String} (h : pruneLines loads c cutoff ls = some rest) :
    (∀ ln ∈ ls, ln = "" ∨ loads ln ≠ .keinObjekt) ∧
      rest = kappen c.maxBytes (ls.filter (bleibt loads cutoff)) := by
  have hgood : ∀ ln ∈ ls, ln = "" ∨ loads ln ≠ .keinObjekt := by
    intro ln hmem
    by_contra hbad
    obtain ⟨hne, hkein⟩ := not_or.mp hbad
    rw [pruneLines_keinObjekt hmem hne (not_not.mp hkein)] at h
    cases h
  rw [pruneLines_eq hgood] at h
  exact ⟨hgood, (Option.some.inj h).symm⟩

theorem kappen_suffix (maxBytes : Option ℕ) (ls : List String) : kappen maxBytes ls <:+ ls := by
  cases maxBytes with
  | none => exact List.suffix_rfl
  | some maxBytes => exact fit_suffix blen maxBytes ls

end

end Telemetrie
