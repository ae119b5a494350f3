import AutonomousEngine.Basis.Calendar
import AutonomousEngine.Basis.JsonErrors
import AutonomousEngine.Basis.JsonLines
import AutonomousEngine.Basis.Mealy
import AutonomousEngine.Idempotenz.Schluessel
import Mathlib.Data.List.Perm.Subperm

/-!
# Reading the store of fallback files into the database

Records that could not be written stand as lines of JSON in files, one file for a table
and a day.  They are read line by line and inserted in batches, a file in one
transaction.  A file that was read is set aside, except that of today.

The floats, the times, the digits of all scripts and what SQLite makes of a record come from
outside (`Umgebung`).
-/

namespace Nachlesen

open Basis
open Idempotenz (Ziffern)

abbrev Text : Type := List CodeUnit

def units (s : String) : Text := unitsOfText s.toList

inductive Tabelle where
  | decisions
  | decisionOutcomes
deriving DecidableEq, Repr

namespace Tabelle

def tabelle : Tabelle → String
  | decisions => "decisions"
  | decisionOutcomes => "decision_outcomes"

def spalten : Tabelle → List String
  | decisions =>
      ["decision_id", "symbol", "decision_time", "model_version_id", "action", "action_executed",
        "lstm_prediction", "rl_raw_action", "rl_stabilized_action", "conviction_score",
        "current_price", "vix_level", "market_regime", "rsi_14", "macd", "macd_signal", "adx_14",
        "bb_pct", "volume_ratio", "volatility_20d", "atr_14d", "in_position", "position_qty",
        "position_avg_price", "unrealized_pnl", "unrealized_pnl_pct", "risk_approved",
        "risk_reason", "risk_size_scaler", "sizing_mode", "sizing_target_weight",
        "sizing_binding_limit", "sizing_cap_value", "risk_sl_multiplier", "portfolio_approved",
        "portfolio_reason", "portfolio_slot_used", "portfolio_max_slots", "symbol_to_close",
        "intelligence_approved", "intelligence_reason", "reasoning_summary", "reasoning_trace",
        "trade_id", "execution_price", "execution_qty", "inference_latency_ms", "is_simulation",
        "triggered_by_stop", "stop_type"]
  | decisionOutcomes =>
      ["decision_id", "session_id", "symbol", "decision_time", "consensus_score", "signal_action",
        "gatekeeper_approved", "gatekeeper_reason", "votes_json", "regime_damp_factor",
        "consensus_undamped", "voted_price", "cycle_open", "cycle_high", "cycle_low",
        "cycle_close", "vix_level", "market_regime", "execution_outcome", "execution_reason",
        "pnl", "pnl_pct", "hold_duration_hours", "exit_reason", "forward_return_5d",
        "model_version_id", "git_sha", "config_sha", "feature_list_hash", "is_simulation"]

end Tabelle

/-! ## Records -/

/-- A key of a record: a text, or a number with the text that SQLite stores for it. -/
inductive Schluessel (Zahl : Type) where
  | text (us : Text)
  | zahl (z : Zahl) (als : Text)

/-- A key as a dictionary compares it. -/
inductive DictSchluessel (Zahl : Type) where
  | text (us : Text)
  | zahl (z : Zahl)
deriving DecidableEq

def Schluessel.dict {Zahl : Type} : Schluessel Zahl → DictSchluessel Zahl
  | .text us => .text us
  | .zahl z _ => .zahl z

def Schluessel.gespeichert {Zahl : Type} : Schluessel Zahl → Text
  | .text us => us
  | .zahl _ als => als

/-- A field of a record: a value, or the time of the decision. -/
inductive Feld (F Zeit : Type) where
  | wert (v : Json F)
  | zeit (z : Zeit)

structure Satz (F Zeit Zahl : Type) where
  schluessel : Schluessel Zahl
  felder : List (Text × Feld F Zeit)

/-- What `INSERT OR IGNORE` makes of a record with a new key: a row, nothing, or an
exception. -/
inductive Annahme (Reihe : Type) where
  | reihe (r : Reihe)
  | ignoriert
  | wurf

/-- Floats, times, digits, the numbers that are keys, and SQLite. -/
structure Umgebung where
  fl : Floats
  /-- How many brackets of a line may stand inside each other before a `RecursionError`. -/
  tiefe : ℕ
  digits : Ziffern
  Zeit : Type
  /-- `datetime.fromisoformat`. -/
  fromisoformat : Text → Option Zeit
  /-- A time with a zone, which is UTC if there was none. -/
  mitZone : Zeit → Zeit
  /-- Numbers; what is equal to Python is one number. -/
  Zahl : Type
  zahlEq : DecidableEq Zahl
  ofInt : ℤ → Zahl
  ofFloat : fl.F → Zahl
  zahlText : Json fl.F → Text
  /-- The rows of the tables. -/
  Reihe : Type
  annehmen : Tabelle → Satz fl.F Zeit Zahl → Annahme Reihe
  /-- Whether the driver takes a key as a parameter. -/
  bindbar : Schluessel Zahl → Bool

variable (U : Umgebung)

instance : DecidableEq U.Zahl := U.zahlEq

abbrev Umgebung.Satz : Type := Nachlesen.Satz U.fl.F U.Zeit U.Zahl

/-- The rows of the tables by their keys. -/
abbrev Umgebung.Datenbank : Type := Tabelle → Text → Option U.Reihe

namespace Umgebung

/-! ## Lines -/

def wahr : Json U.fl.F → Bool
  | .null => false
  | .bool b => b
  | .int n => n ≠ 0
  | .float x => U.ofFloat x ≠ U.ofInt 0
  | .str us => us ≠ []
  | .arr xs => !xs.isEmpty
  | .obj ms => !ms.isEmpty

/-- The key that a value is; a list and a dictionary are none. -/
def alsSchluessel : Json U.fl.F → Option (Schluessel U.Zahl)
  | .str us => some (.text us)
  | .int n => some (.zahl (U.ofInt n) (U.zahlText (.int n)))
  | .bool b => some (.zahl (U.ofInt (if b then 1 else 0)) (U.zahlText (.bool b)))
  | .float x => some (.zahl (U.ofFloat x) (U.zahlText (.float x)))
  | .null => none
  | .arr _ => none
  | .obj _ => none

/-- `_als_zeit` of a value that was read. -/
def alsZeit : Json U.fl.F → Option U.Zeit
  | .str wert =>
      let text :=
        if wert.getLast? = (units "Z").getLast? then wert.dropLast ++ units "+00:00" else wert
      (U.fromisoformat text).map U.mitZone
  | _ => none

/-- A line as `_stapel` takes it. -/
inductive Zeile where
  | leer
  | unlesbar
  | wurf
  | satz (s : U.Satz)

/-- The fields of a record that the table knows; `none` when the time is none. -/
def felder (t : Tabelle) (roh : List (Text × Json U.fl.F)) :
    Option (List (Text × Feld U.fl.F U.Zeit)) :=
  let satz := roh.filter fun m => m.1 ∈ t.spalten.map units
  match dictGet (units "decision_time") satz with
  | none => some (satz.map fun m => (m.1, .wert m.2))
  | some wert =>
      (U.alsZeit wert).map fun zeit =>
        satz.map fun m => (m.1, if m.1 = units "decision_time" then .zeit zeit else .wert m.2)

/-- The loop body of `_stapel` up to the dictionary. -/
def lesen (t : Tabelle) (zeile : List Char) : U.Zeile :=
  if strip zeile = [] then .leer
  else
    match loadsOrError U.fl intMaxStrDigits U.tiefe zeile with
    -- a `RecursionError` is no `ValueError`: the file fails
    | .error .recursionError => .wurf
    | .error .valueError => .unlesbar
    | .error .jsonDecodeError => .unlesbar
    | .ok (.obj roh) =>
        match dictGet (units "decision_id") roh with
        | none => .unlesbar
        | some wert =>
            if U.wahr wert then
              match U.felder t roh with
              | none => .unlesbar
              | some felder =>
                  match U.alsSchluessel wert with
                  | none => .wurf
                  | some schluessel => .satz ⟨schluessel, felder⟩
            else .unlesbar
    | .ok _ => .unlesbar

end Umgebung

/-! ## Batches -/

structure Bericht where
  dateien : ℕ
  eingefuegt : ℕ
  schonVorhanden : ℕ
  ohneEntscheidung : ℕ
  unlesbar : ℕ
  gescheitert : ℕ
deriving DecidableEq, Repr

def Bericht.leer : Bericht := ⟨0, 0, 0, 0, 0, 0⟩

/-- What a file changes while it is read. -/
structure Stapellauf where
  db : U.Datenbank
  bericht : Bericht
  vorgemerkt : List (DictSchluessel U.Zahl)
  ohneGesamt : ℕ

namespace Umgebung

/-- Whether a key is among those that `_vorhanden` finds, which are texts. -/
def vorhanden (db : U.Datenbank) (t : Tabelle) : Schluessel U.Zahl → Bool
  | .text us => (db t us).isSome
  | .zahl _ _ => false

/-- Whether the decision of a record is known; a decision needs none. -/
def bekannt (db : U.Datenbank) (t : Tabelle) (s : U.Satz) : Bool :=
  t = .decisions || U.vorhanden db .decisions s.schluessel

/-- `INSERT OR IGNORE` of a record. -/
def einfuegen (t : Tabelle) (s : U.Satz) (db : U.Datenbank) : Option U.Datenbank :=
  match U.annehmen t s with
  | .wurf => none
  | .ignoriert => some db
  | .reihe r =>
      if (db t s.schluessel.gespeichert).isSome then some db
      else some (Function.update db t
        (Function.update (db t) s.schluessel.gespeichert (some r)))

/-- The records of a batch, one after the other. -/
def einfuegenAlle (t : Tabelle) : List U.Satz → U.Datenbank → Option U.Datenbank
  | [], db => some db
  | s :: saetze, db => (U.einfuegen t s db).bind (einfuegenAlle t saetze)

/-- A batch of `_lies_datei_nach`, and whether it goes through. -/
def stapel (t : Tabelle) (probelauf : Bool) (saetze : List U.Satz) (l : Stapellauf U) :
    Stapellauf U × Bool :=
  if saetze.all fun s => U.bindbar s.schluessel then
    let neu := saetze.filter fun s => !U.vorhanden l.db t s.schluessel
    let nurGezaehlt := neu.filter fun s =>
      !U.bekannt l.db t s && decide (s.schluessel.dict ∈ l.vorgemerkt)
    let neu' := neu.filter fun s => U.bekannt l.db t s
    let l' := { l with
      bericht := { l.bericht with
        schonVorhanden := l.bericht.schonVorhanden + (saetze.length - neu.length)
        eingefuegt := l.bericht.eingefuegt + nurGezaehlt.length }
      ohneGesamt := l.ohneGesamt + (neu.length - neu'.length - nurGezaehlt.length) }
    match U.einfuegenAlle t neu' l.db with
    | none => (l', false)
    | some db =>
        ({ l' with
          db := db
          bericht := { l'.bericht with eingefuegt := l'.bericht.eingefuegt + neu'.length }
          vorgemerkt :=
            if probelauf ∧ t = .decisions then
              l.vorgemerkt ++ neu'.map fun s => s.schluessel.dict
            else l.vorgemerkt },
          true)
  else (l, false)

/-- The lines of a file: they fill a dictionary, and a full one is a batch. -/
def zeilenLauf (t : Tabelle) (probelauf : Bool) (groesse : ℕ) :
    List (List Char) → List (DictSchluessel U.Zahl × U.Satz) → Stapellauf U → Stapellauf U × Bool
  | [], saetze, l => if saetze = [] then (l, true) else U.stapel t probelauf (saetze.map Prod.snd) l
  | zeile :: zeilen, saetze, l =>
      match U.lesen t zeile with
      | .leer => zeilenLauf t probelauf groesse zeilen saetze l
      | .unlesbar => zeilenLauf t probelauf groesse zeilen saetze
          { l with bericht := { l.bericht with unlesbar := l.bericht.unlesbar + 1 } }
      | .wurf => (l, false)
      | .satz s =>
          let saetze := dictSet s.schluessel.dict s saetze
          if groesse ≤ saetze.length then
            let (l, ok) := U.stapel t probelauf (saetze.map Prod.snd) l
            if ok then zeilenLauf t probelauf groesse zeilen [] l else (l, false)
          else zeilenLauf t probelauf groesse zeilen saetze l

end Umgebung

/-! ## Files -/

structure Datei where
  name : List Char
  inhalt : List Char
deriving DecidableEq

def Datei.zeilen (f : Datei) : List (List Char) := splitLines isNewline false f.inhalt

/-- A directory of files with different names. -/
structure Ablage where
  dateien : List Datei
  nodup : (dateien.map Datei.name).Nodup

def Ablage.ohne (a : Ablage) (name : List Char) : Ablage where
  dateien := a.dateien.filter fun f => f.name ≠ name
  nodup := a.nodup.sublist (List.filter_sublist.map Datei.name)

def kandidat (name : List Char) : ℕ → List Char
  | 0 => name
  | n + 1 =>
      name.take (name.length - 6) ++ '.' :: (Nat.toDigits 10 (n + 1) ++ name.drop (name.length - 6))

/-- The first of these names that is free. -/
def freierName (vorhanden : List (List Char)) (name : List Char) : List Char :=
  (((List.range (vorhanden.length + 1)).map (kandidat name)).find? (· ∉ vorhanden)).getD name

theorem kandidat_injective (name : List Char) : Function.Injective (kandidat name) := by
  intro n m h
  cases n with
  | zero =>
      cases m with
      | zero => rfl
      | succ m =>
          have hlen := congrArg List.length h
          simp only [kandidat, List.length_append, List.length_cons, List.length_take,
            List.length_drop] at hlen
          omega
  | succ n =>
      cases m with
      | zero =>
          have hlen := congrArg List.length h
          simp only [kandidat, List.length_append, List.length_cons, List.length_take,
            List.length_drop] at hlen
          omega
      | succ m =>
          have hdigits := List.append_cancel_right (List.cons.inj (List.append_cancel_left h)).2
          have hn := naturalOf_toDigits (n + 1)
          rw [hdigits, naturalOf_toDigits] at hn
          exact (Option.some.inj hn).symm

/-- One more name than there are: one of them is free. -/
theorem freierName_notMem (vorhanden : List (List Char)) (name : List Char) :
    freierName vorhanden name ∉ vorhanden := by
  unfold freierName
  cases hfind : ((List.range (vorhanden.length + 1)).map (kandidat name)).find? (· ∉ vorhanden) with
  | some ziel => simpa using List.find?_some hfind
  | none =>
      have hsub : (List.range (vorhanden.length + 1)).map (kandidat name) ⊆ vorhanden := by
        intro ziel hziel
        simpa using List.find?_eq_none.mp hfind ziel hziel
      have hnodup : ((List.range (vorhanden.length + 1)).map (kandidat name)).Nodup :=
        List.nodup_range.map (kandidat_injective name)
      have hle := (hnodup.subperm hsub).length_le
      simp at hle

/-- `_lege_beiseite`, in the directory of the files that were read. -/
def Ablage.mit (a : Ablage) (f : Datei) : Ablage where
  dateien := a.dateien ++ [{ f with name := freierName (a.dateien.map Datei.name) f.name }]
  nodup := by
    rw [List.map_append, List.map_singleton, ← List.concat_eq_append]
    exact a.nodup.concat (freierName_notMem _ f.name)

/-- The digits of the day in a file name, which may be those of any script. -/
def muster (t : Tabelle) (name : List Char) : Option (List Char) :=
  let anfang := (t.tabelle ++ "_").toList
  let ziffern := (name.drop anfang.length).take 8
  if anfang <+: name ∧ (name.drop anfang.length).drop 8 = ".jsonl".toList ∧
      ziffern.length = 8 ∧ ziffern.all fun c => (U.digits.wert c).isSome then some ziffern
  else none

/-- `datetime.strptime` of eight digits.  The year takes digits of any script, the month those of
ASCII, and of the day the last digit any behind a one or a two. -/
def strptime : List Char → Option Date
  | [a, b, c, d, e, f, g, h] =>
      (parseDigits [e, f]).bind fun m => (digitValue g).bind fun zehner =>
        (if zehner = 1 ∨ zehner = 2 then U.digits.wert h else digitValue h).bind fun einer =>
          Date.ofYmd (U.digits.zahl [a, b, c, d]) m (10 * zehner + einer)
  | _ => none

def nameLe (f g : Datei) : Bool := strLe (ofText f.name) (ofText g.name)

/-- `_dateien`; `none` when a day is none. -/
def dateien (t : Tabelle) (a : Ablage) : Option (List (Datei × Date)) :=
  ((a.dateien.insertionSort fun f g => nameLe f g = true).filterMap fun f =>
    (muster U t f.name).map fun ziffern =>
      (strptime U ziffern).map fun tag => (f, tag)).mapM id

/-! ## The reading -/

structure Stand where
  db : U.Datenbank
  berichte : Tabelle → Bericht
  vorgemerkt : List (DictSchluessel U.Zahl)
  ablage : Ablage
  /-- The directory `nachgelesen`. -/
  nachgelesen : Ablage

namespace Umgebung

variable (heute : Date) (probelauf : Bool) (groesse : ℕ)

/-- `_lies_datei_nach`: without a failure, what the transaction leaves. -/
def liesDateiNach (t : Tabelle) (f : Datei) (st : Stand U) : Stand U × Bool :=
  let (l, ok) :=
    U.zeilenLauf t probelauf groesse f.zeilen [] ⟨st.db, st.berichte t, st.vorgemerkt, 0⟩
  let bericht := if ok then
      { l.bericht with ohneEntscheidung := l.bericht.ohneEntscheidung + l.ohneGesamt }
    else l.bericht
  ({ st with
    db := if ok ∧ !probelauf then l.db else st.db
    berichte := Function.update st.berichte t bericht
    vorgemerkt := l.vorgemerkt },
    ok)

end Umgebung

/-- What becomes of a file: the database before and after it, and whether it is set
aside. -/
structure Zug where
  tabelle : Tabelle
  datei : Datei
  vorher : U.Datenbank
  nachher : U.Datenbank
  beiseite : Bool

namespace Umgebung

variable (heute : Date) (probelauf : Bool) (groesse : ℕ)

/-- The loop body of `lies_nach` for a file. -/
def dateiSchritt (t : Tabelle) (st : Stand U) (f : Datei × Date) : Stand U × Zug U :=
  let st₀ := { st with
    berichte := Function.update st.berichte t
      { st.berichte t with dateien := (st.berichte t).dateien + 1 } }
  let (st₁, ok) := U.liesDateiNach probelauf groesse t f.1 st₀
  let beiseite : Bool := ok && !probelauf && decide (f.2 ≠ heute)
  let st₂ :=
    if ok then
      if beiseite then
        { st₁ with
          ablage := st₁.ablage.ohne f.1.name
          nachgelesen := st₁.nachgelesen.mit f.1 }
      else st₁
    else
      { st₁ with
        berichte := Function.update st₁.berichte t
          { st₁.berichte t with gescheitert := (st₁.berichte t).gescheitert + 1 } }
  (st₂, ⟨t, f.1, st.db, st₂.db, beiseite⟩)

/-- The files of a table, and whether nothing is raised. -/
def tabelleNach (t : Tabelle) (st : Stand U) : Stand U × List (Zug U) × Bool :=
  if t = .decisionOutcomes ∧ (st.berichte .decisions).gescheitert ≠ 0 then (st, [], true)
  else
    match dateien U t st.ablage with
    | none => (st, [], false)
    | some fs =>
        ((feed (U.dateiSchritt heute probelauf groesse t) st fs).1,
          (feed (U.dateiSchritt heute probelauf groesse t) st fs).2, true)

/-- `lies_nach`: what it leaves, what became of the files, and whether it returns. -/
def liesNach (st : Stand U) : Stand U × List (Zug U) × Bool :=
  let (st₁, zuege₁, ok₁) := U.tabelleNach heute probelauf groesse .decisions
    { st with berichte := fun _ => .leer, vorgemerkt := [] }
  if ok₁ then
    let (st₂, zuege₂, ok₂) := U.tabelleNach heute probelauf groesse .decisionOutcomes st₁
    (st₂, zuege₁ ++ zuege₂, ok₂)
  else (st₁, zuege₁, false)

end Umgebung

end Nachlesen
