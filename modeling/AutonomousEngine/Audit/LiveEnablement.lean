import AutonomousEngine.Basis.Transition
import AutonomousEngine.Audit.Absturz

/-!
# Live enablement and its record

Live trading may be enabled, and its revocation reported, only once the record
of it is on the chain.  The gate passes the event to the audit logger and raises
again what the logger raises.  The logger that writes the chain raises nothing:
a full disk, a file that cannot be opened and a failed write end in a warning.
So the gate returns although nothing was written.

A failed write may leave a part of its line in the day file, and the next record
is written behind that part and is no line of its own.  So the day files are
kept here as texts, as they are for a crash.

A process has at most two loggers, the one of the round table and the gate's own
one, which is made when it is first needed.  Both write to one directory and
share the head of its chain.

`live_enablement_verzeichnet` says in which states and surroundings the gate
keeps its promise, and `stiller_ausfall` is the full disk on which it does not.
`quittiert_in_kette` is what follows for whole runs.
-/

namespace Audit.LiveEnablement

open Basis
open Absturz (Schrift Dateien Zustand feld feld_ne neuerHash zeile textVon schreibe nachAbsturz
  endetGanz)

/-! ## Loggers -/

/-- The logger of the round table.  `localJson` carries its
`_disk_check_failed`. -/
inductive AuditLogger where
  | localJson (diskCheckFailed : Bool)
  | senateProtocol
deriving DecidableEq, Repr

/-- What the process keeps: the chain and its head, the logger the round table
is configured with, the gate's own logger, and the write counters. -/
structure Prozess extends Zustand where
  roundTable : Option AuditLogger
  fallback : Option Bool
  writeOk : Nat
  writeFail : Nat

/-- Which logger a call uses. -/
inductive Ort where
  | roundTable
  | fallback
deriving DecidableEq, Repr

/-- How opening the day file and writing a line to it end. -/
inductive Schreibausgang where
  | gelungen
  /-- `open` raises. -/
  | nichtGeoeffnet
  /-- The write or the closing raises when so many characters of the line and its
  newline are in the file, all of them from the length on. -/
  | abgebrochen (k : Nat)
deriving DecidableEq, Repr

/-- What a call meets. -/
structure Umgebung where
  /-- The free bytes, `none` when `disk_usage` raises. -/
  free : Option Nat
  /-- Today's day file. -/
  datei : String
  ausgang : Schreibausgang
  /-- Whether a new logger can make its directory. -/
  mkdir : Bool
  now : String
  uuid : String
  /-- `AAA_SWITCH_ID` without blanks around it, empty when it is not set. -/
  switchId : String
  /-- Whether the calling thread already runs an event loop. -/
  loopLaeuft : Bool
deriving DecidableEq, Repr

/-- The free space below which nothing is written. -/
def minFreeBytes : Nat := 100 * 1024 * 1024

namespace Prozess

def bumpOk (p : Prozess) : Prozess := { p with writeOk := p.writeOk + 1 }

def bumpFail (p : Prozess) : Prozess := { p with writeFail := p.writeFail + 1 }

/-- Sets `_disk_check_failed` of a logger. -/
def setDiskCheckFailed (p : Prozess) (b : Bool) : Ort → Prozess
  | .roundTable => { p with roundTable := p.roundTable.map fun
      | .localJson _ => .localJson b
      | .senateProtocol => .senateProtocol }
  | .fallback => { p with fallback := p.fallback.map fun _ => b }

@[simp] theorem toZustand_bumpOk (p : Prozess) : p.bumpOk.toZustand = p.toZustand := rfl

@[simp] theorem toZustand_bumpFail (p : Prozess) : p.bumpFail.toZustand = p.toZustand := rfl

@[simp] theorem toZustand_setDiskCheckFailed (p : Prozess) (b : Bool) (o : Ort) :
    (p.setDiskCheckFailed b o).toZustand = p.toZustand := by
  cases o <;> rfl

end Prozess

/-! ## The writer -/

section Schreiber

variable (S : Schrift) (u : Umgebung)

/-- `_haenge_an` in its thread, and the counter after it.  The head moves only
when nothing has raised. -/
def haengeAnTag (p : Prozess) (e : Absturz.Eintrag S) : Prozess :=
  match u.ausgang with
  | .gelungen =>
      Prozess.bumpOk { p with toZustand := Absturz.schritt S p.toZustand (.anhang u.datei e) }
  | .nichtGeoeffnet => p.bumpFail
  | .abgebrochen k =>
      Prozess.bumpFail { p with dateien := nachAbsturz S p.toZustand u.datei e k }

/-- Appends an entry to today's file.  It raises in no case. -/
def writeToHashChain (o : Ort) (p : Prozess) (e : Absturz.Eintrag S) : Prozess :=
  match u.free with
  | none => p.bumpFail
  | some free =>
      if free < minFreeBytes then p.setDiskCheckFailed true o
      else haengeAnTag S u (p.setDiskCheckFailed false o) e

/-- Passes an entry to a logger.  The senate protocol only logs it. -/
def logHitlEvent (o : Ort) (p : Prozess) (e : Absturz.Eintrag S) : Prozess :=
  match o, p.roundTable with
  | .roundTable, some .senateProtocol => p
  | _, _ => writeToHashChain S u o p e

/-- The logger to use.  The gate makes its own one when the round table has none
yet, and a new one reads the head back.  `none` when that raises. -/
def resolveAuditLogger (p : Prozess) : Option (Ort × Prozess) :=
  match p.roundTable with
  | some _ => some (.roundTable, p)
  | none =>
      match p.fallback with
      | some _ => some (.fallback, p)
      | none =>
          if u.mkdir then
            some (.fallback, { p with
              fallback := some false
              kopf := Absturz.recoverLastHash S p.dateien })
          else none

end Schreiber

/-! ## The gate -/

/-- A live enablement or revocation as it goes to the chain. -/
structure LiveEnableEvent where
  timestamp : String
  actor : String
  action : String
  acknowledgment : String
  nonce : String
  switchId : String
deriving DecidableEq, Repr

/-- The entry with some fields of different names. -/
def eintrag (S : Schrift) (felder : List (String × Json S.F)) (h : (felder.map Prod.fst).Nodup) :
    Absturz.Eintrag S where
  felder := felder.map fun m => (feld m.1, m.2)
  verschieden := by
    have hnames : (felder.map fun m => (feld m.1, m.2)).map Prod.fst =
        (felder.map Prod.fst).map feld := by
      rw [List.map_map, List.map_map]
      rfl
    rw [hnames]
    refine h.map fun s t hst => ?_
    by_contra hne
    exact feld_ne (fun h => hne (String.toList_injective h)) hst

def wort {F : Type} (s : String) : Json F := .str (unitsOfText s.toList)

def hitlEventToDict (S : Schrift) (ev : LiveEnableEvent) : Absturz.Eintrag S :=
  eintrag S [("event_type", wort "live_enablement"), ("timestamp", wort ev.timestamp),
    ("actor", wort ev.actor), ("action", wort ev.action),
    ("acknowledgment", wort ev.acknowledgment), ("nonce", wort ev.nonce),
    ("switch_id", wort ev.switchId)] (by simp)

/-- Python's `or` on a text that may be missing. -/
def oder (a : Option String) (b : String) : String :=
  match a with
  | none => b
  | some s => if s = "" then b else s

/-- The arguments of `log_live_enablement_event`. -/
structure Anfrage where
  action : String
  acknowledgment : String
  nonce : String
  actor : String := "operator"
  switchId : Option String := none
deriving DecidableEq, Repr

section Tor

variable (S : Schrift) (u : Umgebung)

def ereignis (a : Anfrage) : LiveEnableEvent where
  timestamp := u.now
  actor := a.actor
  action := a.action
  acknowledgment := a.acknowledgment
  nonce := a.nonce
  switchId := oder a.switchId a.nonce

/-- Records a request.  The first part says whether the call returns without
raising. -/
def logLiveEnablementEvent (a : Anfrage) (strict : Bool) (p : Prozess) : Bool × Prozess :=
  match resolveAuditLogger S u p with
  | none => (!strict, p)
  | some (o, q) => (true, logHitlEvent S u o q (hitlEventToDict S (ereignis u a)))

def switchIdFromEnv : Option String := if u.switchId = "" then none else some u.switchId

/-- The revocation a degraded boot records. -/
def widerruf (reason actor : String) (nonce switchId : Option String) : Anfrage where
  action := "disable"
  acknowledgment := reason
  nonce := oder nonce u.uuid
  actor := actor
  switchId :=
    match switchId with
    | none => switchIdFromEnv u
    | some s => if s = "" then switchIdFromEnv u else some s

/-- Records a revocation and says whether that went without an exception.
`asyncio.run` raises inside a running event loop. -/
def revokeLive (reason actor : String) (nonce switchId : Option String) (p : Prozess) :
    Bool × Prozess :=
  if u.loopLaeuft then (false, p)
  else logLiveEnablementEvent S u (widerruf u reason actor nonce switchId) true p

def tageszeilen (f : String) (ds : Dateien) : List (List Char) :=
  splitLines (· == '\n') false (textVon f ds)

/-- Today's file has got one more line, the record of the entry. -/
def Verzeichnet (e : Absturz.Eintrag S) (p p' : Prozess) : Prop :=
  ∃ kopf, tageszeilen u.datei p'.dateien = tageszeilen u.datei p.dateien ++ [zeile S kopf e]

/-- There is space, today's file ends where a line ends, and the whole line of the
record gets into it. -/
def Schreibt (e : Absturz.Eintrag S) (p : Prozess) : Prop :=
  (∃ free, u.free = some free ∧ minFreeBytes ≤ free) ∧
    endetGanz (textVon u.datei p.dateien) = true ∧
    (u.ausgang = .gelungen ∨
      ∃ k, u.ausgang = .abgebrochen k ∧ (zeile S p.kopf e).length ≤ k)

/-- The call gets no logger at all, or one that writes the chain and can. -/
def Verlaesslich (e : Absturz.Eintrag S) (p : Prozess) : Prop :=
  p.roundTable = none ∧ p.fallback = none ∧ u.mkdir = false ∨
    ∃ o q, resolveAuditLogger S u p = some (o, q) ∧ p.roundTable ≠ some .senateProtocol ∧
      Schreibt S u e q

end Tor

/-! ## When the record is there -/

section Zeilen

variable {S : Schrift} (kopf : List CodePoint) (e : Absturz.Eintrag S)

theorem keinNewline_zeile : ∀ c ∈ zeile S kopf e, (c == '\n') = false := by
  intro c hc
  rw [beq_eq_false_iff_ne]
  rintro rfl
  exact absurd (Absturz.printable_zeile kopf e _ hc).1 (by decide)

theorem splitLines_take_zeile (k : ℕ) :
    splitLines (· == '\n') false ((zeile S kopf e ++ ['\n']).take k) =
      if k = 0 then [] else [(zeile S kopf e).take k] := by
  split
  next hk => rw [hk, List.take_zero, splitLines]
  next hk =>
    rcases Nat.lt_or_ge (zeile S kopf e).length k with hlt | hle
    · have hall : (zeile S kopf e ++ ['\n']).take k = zeile S kopf e ++ ['\n'] :=
        List.take_of_length_le (by rw [List.length_append, List.length_singleton]; omega)
      rw [hall, splitLines_append rfl (keinNewline_zeile kopf e), splitLines,
        List.take_of_length_le hlt.le]
    · rw [List.take_append_of_le_length hle]
      obtain ⟨t, ht⟩ := Absturz.zeile_eq_cons kopf e
      cases k with
      | zero => exact absurd rfl hk
      | succ k =>
          rw [ht, List.take_succ_cons]
          refine splitLines_single fun c hc => keinNewline_zeile kopf e c ?_
          rw [ht]
          exact List.mem_of_mem_take (i := k + 1) hc

theorem take_zeile_ne {k : ℕ} (hk : k < (zeile S kopf e).length) (kopf' : List CodePoint) :
    (zeile S kopf e).take k ≠ zeile S kopf' e := by
  intro heq
  have hteil := Absturz.hashDerZeile_teil kopf e (List.take_append_drop k _).symm (by
    intro hnil
    rw [List.drop_eq_nil_iff] at hnil
    omega)
  rw [heq, Absturz.hashDerZeile_zeile] at hteil
  cases hteil

end Zeilen

section Tagesdatei

variable {f : String} {ds : Dateien}

/-- Behind whole lines the text that is written has its own lines. -/
theorem tageszeilen_schreibe (h : endetGanz (textVon f ds) = true) (t : List Char) :
    tageszeilen f (schreibe f t ds) = tageszeilen f ds ++ splitLines (· == '\n') false t := by
  rw [tageszeilen, tageszeilen, Absturz.textVon_schreibe, if_pos rfl]
  rcases List.eq_nil_or_concat' (textVon f ds) with hnil | ⟨vorne, c, hc⟩
  · rw [hnil, List.nil_append, splitLines, List.nil_append]
  · rw [endetGanz, hc, List.getLast?_concat, Option.all_some, beq_iff_eq] at h
    rw [hc, h, List.append_assoc, List.singleton_append, splitLines_append_newline rfl]

/-- Behind a part of a line no text of one line makes a further one. -/
theorem length_tageszeilen_schreibe (h : endetGanz (textVon f ds) = false) {t : List Char}
    (ht : (splitLines (· == '\n') false t).length ≤ 1) :
    (tageszeilen f (schreibe f t ds)).length = (tageszeilen f ds).length := by
  rw [tageszeilen, tageszeilen, Absturz.textVon_schreibe, if_pos rfl]
  rcases List.eq_nil_or_concat' (textVon f ds) with hnil | ⟨vorne, c, hc⟩
  · rw [hnil] at h
    cases h
  · rw [endetGanz, hc, List.getLast?_concat, Option.all_some] at h
    rw [hc]
    exact length_splitLines_append rfl false List.getLast?_concat h ht

end Tagesdatei

section Ergebnis

variable {S : Schrift} {u : Umgebung}

/-- A write of a part of the line adds the record exactly when the file ends with a
line and the part is the whole line. -/
theorem verzeichnet_nachAbsturz {p q : Prozess} {e : Absturz.Eintrag S} {k : ℕ}
    (hq : q.dateien = nachAbsturz S p.toZustand u.datei e k) :
    Verzeichnet S u e p q ↔
      endetGanz (textVon u.datei p.dateien) = true ∧ (zeile S p.kopf e).length ≤ k := by
  rw [Verzeichnet, hq, nachAbsturz]
  have hlines := splitLines_take_zeile p.kopf e k
  cases hend : endetGanz (textVon u.datei p.dateien) with
  | false =>
      refine iff_of_false ?_ fun h => Bool.false_ne_true h.1
      rintro ⟨kopf, hk⟩
      have hlen := length_tageszeilen_schreibe hend
        (t := (zeile S p.kopf e ++ ['\n']).take k) (by rw [hlines]; split <;> simp)
      rw [hk, List.length_append, List.length_singleton] at hlen
      omega
  | true =>
      rw [tageszeilen_schreibe hend, hlines, and_iff_right rfl]
      simp only [List.append_cancel_left_eq]
      constructor
      · rintro ⟨kopf, hk⟩
        by_contra hlt
        split at hk
        next => cases hk
        next => exact take_zeile_ne p.kopf e (not_le.mp hlt) kopf (List.singleton_inj.mp hk)
      · intro hle
        obtain ⟨t, ht⟩ := Absturz.zeile_eq_cons p.kopf e
        refine ⟨p.kopf, ?_⟩
        rw [if_neg, List.take_of_length_le hle]
        rintro rfl
        rw [ht, List.length_cons] at hle
        omega

/-- The call that writes a line adds exactly its record when the file ends with a
line and the whole line gets into it. -/
theorem verzeichnet_haengeAnTag {p : Prozess} {e : Absturz.Eintrag S} :
    Verzeichnet S u e p (haengeAnTag S u p e) ↔
      endetGanz (textVon u.datei p.dateien) = true ∧ (u.ausgang = .gelungen ∨
        ∃ k, u.ausgang = .abgebrochen k ∧ (zeile S p.kopf e).length ≤ k) := by
  cases h : u.ausgang with
  | gelungen =>
      have hwrite : (haengeAnTag S u p e).dateien =
          nachAbsturz S p.toZustand u.datei e (zeile S p.kopf e ++ ['\n']).length := by
        simp only [haengeAnTag, h, nachAbsturz, List.take_length]
        rfl
      rw [verzeichnet_nachAbsturz hwrite, List.length_append, and_iff_left (Nat.le_add_right _ _),
        and_iff_left (.inl rfl)]
  | nichtGeoeffnet =>
      refine iff_of_false ?_ (by simp)
      rintro ⟨kopf, hk⟩
      simp [haengeAnTag, h] at hk
  | abgebrochen k =>
      have hwrite : (haengeAnTag S u p e).dateien = nachAbsturz S p.toZustand u.datei e k := by
        simp only [haengeAnTag, h]
        rfl
      rw [verzeichnet_nachAbsturz hwrite]
      simp

/-- The chain writer adds the record exactly when there is space, the file ends with a
line, and the whole line gets into it. -/
theorem verzeichnet_writeToHashChain {o : Ort} {p : Prozess} {e : Absturz.Eintrag S} :
    Verzeichnet S u e p (writeToHashChain S u o p e) ↔ Schreibt S u e p := by
  have hstill : ∀ q : Prozess, q.dateien = p.dateien → ¬ Verzeichnet S u e p q := by
    rintro q hq ⟨kopf, hk⟩
    simp [hq] at hk
  rw [writeToHashChain]
  cases hfree : u.free with
  | none =>
      refine iff_of_false (hstill _ rfl) ?_
      rintro ⟨⟨free, h, -⟩, -⟩
      rw [hfree] at h
      cases h
  | some free =>
      simp only
      split
      next hlt =>
        refine iff_of_false (hstill _ (by rw [p.toZustand_setDiskCheckFailed])) ?_
        rintro ⟨⟨free', h, hge⟩, -⟩
        rw [hfree] at h
        cases h
        omega
      next hge =>
        have hsame : Verzeichnet S u e p (haengeAnTag S u (p.setDiskCheckFailed false o) e) ↔
            Verzeichnet S u e (p.setDiskCheckFailed false o)
              (haengeAnTag S u (p.setDiskCheckFailed false o) e) := by
          simp only [Verzeichnet, Prozess.toZustand_setDiskCheckFailed]
        have hroom : ∃ free, u.free = some free ∧ minFreeBytes ≤ free :=
          ⟨free, hfree, not_lt.mp hge⟩
        rw [hsame, verzeichnet_haengeAnTag, Schreibt, p.toZustand_setDiskCheckFailed,
          and_iff_right hroom]

/-- A logger adds the record exactly when it is one that writes the chain and can. -/
theorem verzeichnet_logHitlEvent {o : Ort} {p : Prozess} {e : Absturz.Eintrag S} :
    Verzeichnet S u e p (logHitlEvent S u o p e) ↔
      ¬ (o = .roundTable ∧ p.roundTable = some .senateProtocol) ∧ Schreibt S u e p := by
  unfold logHitlEvent
  split
  next hr =>
    refine iff_of_false ?_ fun h => h.1 ⟨rfl, hr⟩
    rintro ⟨kopf, hk⟩
    simp at hk
  next hne =>
    rw [verzeichnet_writeToHashChain, and_iff_right fun ⟨ho, hr⟩ => hne ho hr]

theorem resolveAuditLogger_eq_some {p q : Prozess} {o : Ort}
    (h : resolveAuditLogger S u p = some (o, q)) :
    q.dateien = p.dateien ∧ q.roundTable = p.roundTable ∧
      (o = .fallback → p.roundTable = none) := by
  unfold resolveAuditLogger at h
  split at h
  next =>
    cases h
    refine ⟨rfl, rfl, fun h => ?_⟩
    cases h
  next hr =>
    split at h
    next => cases h; exact ⟨rfl, rfl, fun _ => hr⟩
    next =>
      split at h
      next => cases h; exact ⟨rfl, rfl, fun _ => hr⟩
      next => cases h

theorem resolveAuditLogger_eq_none {p : Prozess} :
    resolveAuditLogger S u p = none ↔
      p.roundTable = none ∧ p.fallback = none ∧ u.mkdir = false := by
  unfold resolveAuditLogger
  cases p.roundTable with
  | some l => simp
  | none =>
      cases p.fallback with
      | some b => simp
      | none => simp

/-- The logger a call has chosen adds the record exactly when it is one that writes
the chain and can. -/
theorem verzeichnet_resolved {p q : Prozess} {o : Ort} {e : Absturz.Eintrag S}
    (h : resolveAuditLogger S u p = some (o, q)) :
    Verzeichnet S u e p (logHitlEvent S u o q e) ↔
      p.roundTable ≠ some .senateProtocol ∧ Schreibt S u e q := by
  obtain ⟨hv, hr, ho⟩ := resolveAuditLogger_eq_some h
  have hsame : Verzeichnet S u e p (logHitlEvent S u o q e) ↔
      Verzeichnet S u e q (logHitlEvent S u o q e) := by
    simp only [Verzeichnet, hv]
  have hlogger : ¬ (o = .roundTable ∧ q.roundTable = some .senateProtocol) ↔
      p.roundTable ≠ some .senateProtocol := by
    rw [hr, not_and]
    constructor
    · intro hne hp
      cases o with
      | roundTable => exact hne rfl hp
      | fallback => rw [ho rfl] at hp; cases hp
    · exact fun hne _ => hne
  rw [hsame, verzeichnet_logHitlEvent, hlogger]

/-- A strict call that returns has put its record on the chain, exactly when it
raises for want of a logger or can write. -/
theorem strict_verzeichnet {a : Anfrage} {p : Prozess} :
    ((logLiveEnablementEvent S u a true p).1 = true →
      Verzeichnet S u (hitlEventToDict S (ereignis u a)) p
        (logLiveEnablementEvent S u a true p).2) ↔
      Verlaesslich S u (hitlEventToDict S (ereignis u a)) p := by
  unfold logLiveEnablementEvent
  rw [Verlaesslich, ← resolveAuditLogger_eq_none (S := S)]
  cases h : resolveAuditLogger S u p with
  | none =>
      refine iff_of_true (fun h => ?_) (.inl rfl)
      cases h
  | some oq =>
      obtain ⟨o, q⟩ := oq
      simp only [forall_const, verzeichnet_resolved h, reduceCtorEq, false_or]
      constructor
      · exact fun hs => ⟨o, q, rfl, hs⟩
      · rintro ⟨o', q', hq, hs⟩
        cases hq
        exact hs

/-- A strict call that returns without raising has put its record on the chain,
and a revocation reported as written is on the chain, exactly when the call
raises before it has a logger, or the logger is one that writes the chain, there
is space, today's file ends with a line, and the whole line gets into it. -/
theorem live_enablement_verzeichnet (S : Schrift) (u : Umgebung) (p : Prozess) :
    (∀ a, ((logLiveEnablementEvent S u a true p).1 = true →
        Verzeichnet S u (hitlEventToDict S (ereignis u a)) p
          (logLiveEnablementEvent S u a true p).2) ↔
        Verlaesslich S u (hitlEventToDict S (ereignis u a)) p) ∧
      ∀ reason actor nonce switchId,
        ((revokeLive S u reason actor nonce switchId p).1 = true →
          Verzeichnet S u
            (hitlEventToDict S (ereignis u (widerruf u reason actor nonce switchId))) p
            (revokeLive S u reason actor nonce switchId p).2) ↔
          u.loopLaeuft = true ∨ Verlaesslich S u
            (hitlEventToDict S (ereignis u (widerruf u reason actor nonce switchId))) p := by
  refine ⟨fun a => strict_verzeichnet, fun reason actor nonce switchId => ?_⟩
  unfold revokeLive
  split
  next h =>
    refine iff_of_true (fun h => ?_) (.inl h)
    cases h
  next h => rw [strict_verzeichnet, or_iff_right h]

end Ergebnis

def volleFestplatte : Umgebung where
  free := some 0
  datei := "audit_log_2026-01-01.jsonl"
  ausgang := .gelungen
  mkdir := true
  now := "2026-01-01T12:00:00+00:00"
  uuid := "u"
  switchId := ""
  loopLaeuft := false

/-- A process with the logger of the round table and an empty chain. -/
def frisch : Prozess where
  toZustand := Absturz.leer
  roundTable := some (.localJson false)
  fallback := none
  writeOk := 0
  writeFail := 0

/-- On a full disk a strict call returns and a revocation is reported as written,
and the chain stays empty. -/
theorem stiller_ausfall :
    ¬ ∀ (S : Schrift) (u : Umgebung) (p : Prozess),
      (∀ a, (logLiveEnablementEvent S u a true p).1 = true →
        Verzeichnet S u (hitlEventToDict S (ereignis u a)) p
          (logLiveEnablementEvent S u a true p).2) ∧
        ∀ reason actor nonce switchId,
          (revokeLive S u reason actor nonce switchId p).1 = true →
            Verzeichnet S u
              (hitlEventToDict S (ereignis u (widerruf u reason actor nonce switchId))) p
              (revokeLive S u reason actor nonce switchId p).2 := by
  intro hall
  obtain ⟨kopf, hk⟩ :=
    (hall Absturz.schrift volleFestplatte frisch).2 "degraded" "system" none none rfl
  have hleer : tageszeilen volleFestplatte.datei
      (revokeLive Absturz.schrift volleFestplatte "degraded" "system" none none frisch).2.dateien =
        [] := rfl
  rw [hleer] at hk
  exact List.cons_ne_nil _ _ hk.symm

/-! ## Along a run -/

section Lauf

variable (S : Schrift)

/-- A call of the gate, a record of someone else, or the round table getting its
logger. -/
inductive Aktion where
  | live (a : Anfrage)
  | andere (o : Ort) (e : Absturz.Eintrag S)
  | konfiguriere (l : AuditLogger)

def schritt (p : Prozess) : Umgebung × Aktion S → Prozess
  | (u, .live a) => (logLiveEnablementEvent S u a true p).2
  | (u, .andere o e) => logHitlEvent S u o p e
  | (_, .konfiguriere l) => { p with roundTable := some l }

/-- The entry an action reports as recorded. -/
def quittiert (p : Prozess) : Umgebung × Aktion S → List (Absturz.Eintrag S)
  | (u, .live a) =>
      if (logLiveEnablementEvent S u a true p).1 then [hitlEventToDict S (ereignis u a)] else []
  | _ => []

def betrieb : System Prozess (Umgebung × Aktion S) where
  start _ := True
  step p a p' := schritt S p a = p'

variable {S}

/-- A line stands on its own in a text, with its newline. -/
def Steht (l t : List Char) : Prop :=
  ∃ vorne hinten, t = vorne ++ (l ++ '\n' :: hinten) ∧ endetGanz vorne = true

theorem Steht.mono {l t t' : List Char} (h : Steht l t) (ht : t <+: t') : Steht l t' := by
  obtain ⟨vorne, hinten, rfl, hend⟩ := h
  obtain ⟨mehr, rfl⟩ := ht
  exact ⟨vorne, hinten ++ mehr, by simp, hend⟩

theorem textVon_haengeAnTag (u : Umgebung) (p : Prozess) (e : Absturz.Eintrag S) (f : String) :
    textVon f p.dateien <+: textVon f (haengeAnTag S u p e).dateien := by
  cases h : u.ausgang with
  | gelungen =>
      simpa [haengeAnTag, h] using Absturz.textVon_schritt p.toZustand (.anhang u.datei e) f
  | nichtGeoeffnet => simp [haengeAnTag, h]
  | abgebrochen k =>
      have hgrow := Absturz.textVon_schritt p.toZustand (.absturz u.datei e k) f
      rw [Absturz.schritt] at hgrow
      simpa [haengeAnTag, h] using hgrow

theorem textVon_writeToHashChain (u : Umgebung) (o : Ort) (p : Prozess) (e : Absturz.Eintrag S)
    (f : String) : textVon f p.dateien <+: textVon f (writeToHashChain S u o p e).dateien := by
  unfold writeToHashChain
  split
  next => exact List.prefix_refl _
  next =>
    split
    next =>
      have h : p.dateien = (p.setDiskCheckFailed true o).dateien :=
        congrArg Zustand.dateien (p.toZustand_setDiskCheckFailed true o).symm
      exact h ▸ List.prefix_refl _
    next =>
      have h := textVon_haengeAnTag u (p.setDiskCheckFailed false o) e f
      rwa [p.toZustand_setDiskCheckFailed] at h

theorem textVon_logHitlEvent (u : Umgebung) (o : Ort) (p : Prozess) (e : Absturz.Eintrag S)
    (f : String) :
    textVon f p.dateien <+: textVon f (logHitlEvent S u o p e).dateien := by
  unfold logHitlEvent
  split
  next => exact List.prefix_refl _
  next => exact textVon_writeToHashChain u _ p e f

theorem textVon_schritt (p : Prozess) (a : Umgebung × Aktion S) (f : String) :
    textVon f p.dateien <+: textVon f (schritt S p a).dateien := by
  obtain ⟨u, a⟩ := a
  cases a with
  | konfiguriere l => exact List.prefix_refl _
  | andere o e => exact textVon_logHitlEvent u o p e f
  | live a =>
      simp only [schritt, logLiveEnablementEvent]
      split
      next => exact List.prefix_refl _
      next o q h =>
        rw [← (resolveAuditLogger_eq_some h).1]
        exact textVon_logHitlEvent u o q _ f

/-- A reliable call that is not interrupted leaves the record on a line of its own. -/
theorem steht_of_verlaesslich {u : Umgebung} {a : Anfrage} {p : Prozess}
    (h : Verlaesslich S u (hitlEventToDict S (ereignis u a)) p)
    (hganz : ∀ k, u.ausgang ≠ .abgebrochen k)
    (hret : (logLiveEnablementEvent S u a true p).1 = true) :
    ∃ kopf, Steht (zeile S kopf (hitlEventToDict S (ereignis u a)))
      (textVon u.datei (logLiveEnablementEvent S u a true p).2.dateien) := by
  unfold logLiveEnablementEvent at hret ⊢
  rw [Verlaesslich, ← resolveAuditLogger_eq_none (S := S)] at h
  rcases h with h | ⟨o, q, hq, hne, ⟨free, hfree, hge⟩, hend, hw⟩
  · rw [h] at hret
    cases hret
  · have hgelungen : u.ausgang = .gelungen :=
      hw.resolve_right fun ⟨k, hk, _⟩ => hganz k hk
    have hlog : ¬(o = .roundTable ∧ q.roundTable = some .senateProtocol) := by
      rintro ⟨-, hr⟩
      exact hne ((resolveAuditLogger_eq_some hq).2.1 ▸ hr)
    rw [hq]
    refine ⟨q.kopf, textVon u.datei q.dateien, [], ?_, hend⟩
    simp only [logHitlEvent]
    split
    next hr => exact absurd ⟨rfl, hr⟩ hlog
    next =>
      simp only [writeToHashChain, hfree, if_neg (not_lt.mpr hge), haengeAnTag, hgelungen,
        Prozess.toZustand_bumpOk, Absturz.schritt, Prozess.toZustand_setDiskCheckFailed,
        Absturz.textVon_schreibe, if_true]

/-- In every run in which each call of the gate is reliable and none of its writes is
interrupted, every event reported as recorded is on the chain, and stays there. -/
theorem quittiert_in_kette {x : Prozess × List (Absturz.Eintrag S)}
    (hx : (((betrieb S).restrict fun p a _ => ∀ b, a.2 = .live b →
      Verlaesslich S a.1 (hitlEventToDict S (ereignis a.1 b)) p ∧
        ∀ k, a.1.ausgang ≠ .abgebrochen k).observe (quittiert S)).Reach x) :
    ∀ e ∈ x.2, ∃ kopf f, Steht (zeile S kopf e) (textVon f x.1.dateien) := by
  refine hx.invariant (I := fun x => ∀ e ∈ x.2, ∃ kopf f,
    Steht (zeile S kopf e) (textVon f x.1.dateien)) ?_ ?_
  · rintro ⟨p, h⟩ ⟨-, rfl⟩ e he
    cases he
  · rintro ⟨p, h⟩ ⟨u, a⟩ ⟨p', h'⟩ hI ⟨⟨rfl, hv⟩, rfl⟩ e he
    rcases List.mem_append.mp he with he | he
    · obtain ⟨kopf, f, hk⟩ := hI e he
      exact ⟨kopf, f, hk.mono (textVon_schritt p (u, a) f)⟩
    · cases a with
      | andere o e => cases he
      | konfiguriere l => cases he
      | live a =>
          simp only [quittiert] at he
          split at he
          next hret =>
            obtain rfl := List.mem_singleton.mp he
            obtain ⟨hreliable, hganz⟩ := hv a rfl
            obtain ⟨kopf, hk⟩ := steht_of_verlaesslich hreliable hganz hret
            exact ⟨kopf, u.datei, hk⟩
          next => cases he

end Lauf

end Audit.LiveEnablement
