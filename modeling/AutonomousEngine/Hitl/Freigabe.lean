import AutonomousEngine.Audit.LiveEnablement
import AutonomousEngine.Hitl.Tagesgrenze

/-!
# The records of an approved order

The trading loop takes an approved order from the queue and executes it.  "Capital
must never move without a prior Art-14 record": the run records `approved` before
it goes to the broker, and a reason when it does not go there or comes back without
success.

Each record goes through `log_execution_event`, which raises nothing, to a logger
that may be suspended for want of space, may fail to write, or may not be there.
So the order goes to the broker although its record is not on the chain, and an
order is refused without one.  What is more, the run breaks off without any record
when a number of the payload cannot be read, when the clock or the broker access
raises, and when the order run does.

`freigabe_nachgewiesen_iff` says for every payload and all surroundings when the
run keeps its promise, and `freigabe_ohne_nachweis` is the full disk.
-/

namespace Hitl.Freigabe

open Basis
open Absturz (Schrift)
open Audit.LiveEnablement (Prozess Umgebung Ort Verzeichnet Schreibt eintrag wort resolveAuditLogger
  logHitlEvent resolveAuditLogger_eq_none verzeichnet_resolved)
open Gate (Angabe)

/-! ## The payload and the surroundings -/

/-- A payload as it comes from the queue. -/
structure Entnommen where
  approvalId : Option String
  userId : String
  symbol : String
  action : String
  qty : Angabe
  price : Angabe
  conviction : Angabe
deriving DecidableEq, Repr

/-- A tenant with its equity, which is `none` when asking for it raises. -/
structure Mandant where
  userId : String
  equity : Option ExtRat
deriving DecidableEq, Repr

/-- How the order run of the tenant ends: whether it has reached the broker, and its
result, `none` when it raises. -/
structure Auftragslauf where
  erreicht : Bool
  ergebnis : Option Bool
deriving DecidableEq, Repr

/-- What a run meets.  Of the three records that it may make, the one of an immaterial
entry, the first one after that, and the one of an unsuccessful order run, each has
its clock, `none` when it raises, and its surroundings. -/
structure Lage (S : Schrift) where
  /-- `MATERIAL_ENTRY_MIN_PCT_OF_TARGET`, and its text in percent. -/
  matPct : ExtRat
  prozentText : String
  effectiveMaxPositions : Nat
  policyHash : String
  /-- A number as it is written. -/
  zahl : ExtRat → S.F
  /-- The active tenants, as each of the two calls gets them; `none` when it raises. -/
  mandanten : Option (List Mandant)
  mandantenZugang : Option (List Mandant)
  /-- The broker access of the engine, and whether its equity is found. -/
  api : Bool
  equityLesbar : Bool
  uhrUebersprungen : Option String
  umgebungUebersprungen : Umgebung
  uhr : Option String
  umgebung : Umgebung
  uhrDanach : Option String
  umgebungDanach : Umgebung
  lauf : Auftragslauf
  /-- What happens to the process meanwhile. -/
  waehrend : Prozess → Prozess

/-- A text that may be missing, as it is written. -/
def wortOderNull {F : Type} : Option String → Json F
  | none => .null
  | some s => wort s

/-- The record of an event.  A field that is not set is written as `null`. -/
def hitlExecution {S : Schrift} (l : Lage S) (x : Entnommen) (timestamp branch : String)
    (orderValue : ExtRat) (reason : Option String) : Absturz.Eintrag S :=
  eintrag S [("event_type", wort "hitl_execution"), ("timestamp", wort timestamp),
    ("symbol", wort x.symbol), ("action", wort x.action), ("branch", wort branch),
    ("policy_hash", wort l.policyHash), ("order_value", .float (l.zahl orderValue)),
    ("day_notional_after", .null), ("approval_id", wortOderNull x.approvalId),
    ("threshold_breached", .null), ("reason", wortOderNull reason), ("decision_id", .null),
    ("broker_order_id", .null), ("filled_qty", .null), ("filled_avg_price", .null),
    ("order_status", .null)] (by simp)

section

variable {S : Schrift} (l : Lage S) (x : Entnommen) (t : String) (orderValue : ExtRat)

/-- The record of an immaterial entry, of a refusal, of an approval, and of an order that
the order run did not submit. -/
def satzUebersprungen : Absturz.Eintrag S :=
  hitlExecution l x t "skipped:immaterial_entry" orderValue
    (some ("Order size  is < " ++ l.prozentText ++ "% of target allocation "))

def satzAbgelehnt (reason : String) : Absturz.Eintrag S :=
  hitlExecution l x t "rejected" orderValue (some reason)

def satzFreigegeben : Absturz.Eintrag S := hitlExecution l x t "approved" orderValue none

def satzNichtAbgesendet : Absturz.Eintrag S :=
  hitlExecution l x t "iron_dome_rejected" orderValue (some "execution_blocked")

end

/-! ## The run -/

section

variable {S : Schrift}

/-- Records an event.  It raises in no case. -/
def logExecutionEvent (u : Umgebung) (e : Absturz.Eintrag S) (p : Prozess) : Prozess :=
  match resolveAuditLogger S u p with
  | none => p
  | some (o, q) => logHitlEvent S u o q e

/-- What a run does outside: it makes a record, with the process before and after it,
or it hands the order to the order run, which may reach the broker. -/
inductive Schritt (S : Schrift) where
  | auditiert (u : Umgebung) (e : Absturz.Eintrag S) (vor nach : Prozess)
  | tenantOrder (erreicht : Bool)

/-- What a run has done, and its result, `none` when it raises. -/
structure Ablauf (S : Schrift) where
  schritte : List (Schritt S)
  ergebnis : Option Bool

/-- Whether a purchase is under the threshold of materiality. -/
def isImmaterialEntry (orderValue equity matPct : ExtRat) (maxPositions : Nat) : Bool :=
  if matPct ≤ 0 ∨ orderValue ≤ 0 then false
  else decide (orderValue < matPct * (equity / .of (max 1 maxPositions : Nat)))

/-- What the materiality test finds.  Whatever raises in it counts as material. -/
def immateriell (l : Lage S) (x : Entnommen) (orderValue : ExtRat) : Bool :=
  if 0 < l.matPct ∧ x.action = "BUY" ∧ 0 < orderValue then
    match (l.mandanten.getD []).find? fun t => t.userId = x.userId with
    | none => false
    | some t =>
        match t.equity with
        | none => false
        | some equity => isImmaterialEntry orderValue equity l.matPct l.effectiveMaxPositions
  else false

/-- The materiality test: the end of the run when the entry is immaterial and its
record could be made up. -/
def freigabeUnterMaterialitaet (l : Lage S) (x : Entnommen) (orderValue : ExtRat) (p : Prozess) :
    Option (Ablauf S) :=
  if immateriell l x orderValue then
    match l.uhrUebersprungen with
    | none => none
    | some t =>
        let e := satzUebersprungen l x t orderValue
        let q := logExecutionEvent l.umgebungUebersprungen e p
        some ⟨[.auditiert l.umgebungUebersprungen e p q], some false⟩
  else none

/-- The broker access for a user: `some none`, or the reason that there is none.  `none`
when it raises. -/
def brokerZugangFuer (l : Lage S) (userId : String) : Option (Option String) :=
  match l.mandantenZugang with
  | none => none
  | some [] =>
      if l.api then if l.equityLesbar then some none else none
      else some (some "no_broker_access")
  | some ts =>
      if ts.any fun t => t.userId = userId then some none else some (some "no_oauth_tenant")

def ablehnen (l : Lage S) (x : Entnommen) (orderValue : ExtRat) (reason : String) (p : Prozess) :
    Ablauf S :=
  match l.uhr with
  | none => ⟨[], none⟩
  | some t =>
      let e := satzAbgelehnt l x t orderValue reason
      let q := logExecutionEvent l.umgebung e p
      ⟨[.auditiert l.umgebung e p q], some false⟩

/-- The record of an order that the order run did not submit. -/
def nichtAbgesendet (l : Lage S) (x : Entnommen) (orderValue : ExtRat) (schritte : List (Schritt S))
    (p : Prozess) : Ablauf S :=
  match l.uhrDanach with
  | none => ⟨schritte, none⟩
  | some t =>
      let e := satzNichtAbgesendet l x t orderValue
      let q := logExecutionEvent l.umgebungDanach e p
      ⟨schritte ++ [.auditiert l.umgebungDanach e p q], some false⟩

/-- The record of the approval, and the order run after it. -/
def ausfuehren (l : Lage S) (x : Entnommen) (orderValue : ExtRat) (p : Prozess) : Ablauf S :=
  match l.uhr with
  | none => ⟨[], none⟩
  | some t =>
      let e := satzFreigegeben l x t orderValue
      let q := logExecutionEvent l.umgebung e p
      let schritte := [.auditiert l.umgebung e p q, .tenantOrder l.lauf.erreicht]
      match l.lauf.ergebnis with
      | none => ⟨schritte, none⟩
      | some true => ⟨schritte, some true⟩
      | some false => nichtAbgesendet l x orderValue schritte (l.waehrend q)

def executeApprovedOrder (l : Lage S) (x : Entnommen) (p : Prozess) : Ablauf S :=
  match x.qty.float, x.price.float with
  | some qty, some price =>
      let orderValue := qty.abs * price
      match freigabeUnterMaterialitaet l x orderValue p with
      | some a => a
      | none =>
          if price ≤ 0 ∨ x.action = "BUY" ∧ qty ≤ 0 then
            ablehnen l x orderValue "malformed_payload" p
          else
            match brokerZugangFuer l x.userId with
            | none => ⟨[], none⟩
            | some (some reason) => ablehnen l x orderValue reason p
            | some none =>
                match x.conviction.float with
                | none => ⟨[], none⟩
                | some _ => ausfuehren l x orderValue p
  | _, _ => ⟨[], none⟩

/-! ## What it promises -/

/-- A step that got a record of a kind on the chain. -/
def Schritt.Belegt (art : Absturz.Eintrag S → Prop) : Schritt S → Prop
  | .auditiert u e vor nach => art e ∧ Verzeichnet S u e vor nach
  | .tenantOrder _ => False

/-- The record of an approval, and one that says why an order was not submitted. -/
def IstFreigabe (l : Lage S) (x : Entnommen) (e : Absturz.Eintrag S) : Prop :=
  ∃ t orderValue, e = satzFreigegeben l x t orderValue

def NenntGrund (l : Lage S) (x : Entnommen) (e : Absturz.Eintrag S) : Prop :=
  ∃ t branch orderValue reason, e = hitlExecution l x t branch orderValue (some reason)

/-- An order that reaches the broker has the record of its approval on the chain
before, and one that is not submitted has a reason there. -/
structure Nachgewiesen (l : Lage S) (x : Entnommen) (a : Ablauf S) : Prop where
  vorher : ∀ pre post, a.schritte = pre ++ .tenantOrder true :: post →
    ∃ s ∈ pre, s.Belegt (IstFreigabe l x)
  grund : a.ergebnis ≠ some true → ∃ s ∈ a.schritte, s.Belegt (NenntGrund l x)

/-- A record gets on the chain: there is a logger, it is one that writes the chain, and
it can. -/
def Traegt (u : Umgebung) (e : Absturz.Eintrag S) (p : Prozess) : Prop :=
  ∃ o q, resolveAuditLogger S u p = some (o, q) ∧ p.roundTable ≠ some .senateProtocol ∧
    Schreibt S u e q

end

/-! ## When it keeps the promise -/

section

variable {S : Schrift} {l : Lage S} {x : Entnommen} {p q : Prozess} {u : Umgebung}
  {e : Absturz.Eintrag S}
  {t : String} {v : ExtRat}

theorem verzeichnet_logExecutionEvent :
    Verzeichnet S u e p (logExecutionEvent u e p) ↔ Traegt u e p := by
  rw [logExecutionEvent, Traegt]
  cases h : resolveAuditLogger S u p with
  | none =>
      refine iff_of_false ?_ ?_
      · rintro ⟨kopf, hk⟩
        exact absurd hk (by simp)
      · rintro ⟨o, q, hq, -⟩
        cases hq
  | some oq =>
      obtain ⟨o, q⟩ := oq
      rw [verzeichnet_resolved h]
      constructor
      · exact fun hs => ⟨o, q, rfl, hs⟩
      · rintro ⟨o', q', hq, hs⟩
        cases hq
        exact hs

theorem not_nenntGrund_freigabe : ¬NenntGrund l x (satzFreigegeben l x t v) := by
  rintro ⟨t', branch, v', reason, h⟩
  have hfelder := congrArg (fun e => e.felder) h
  simp [satzFreigegeben, hitlExecution, eintrag, wortOderNull, wort] at hfelder

theorem not_nachgewiesen_leer : ¬Nachgewiesen l x ⟨[], none⟩ := by
  intro h
  obtain ⟨s, hs, -⟩ := h.grund nofun
  cases hs

/-- A run that ends with its only record, which gives a reason. -/
theorem nachgewiesen_begruendet (he : NenntGrund l x e) :
    Nachgewiesen l x ⟨[.auditiert u e p q], some false⟩ ↔ Verzeichnet S u e p q := by
  constructor
  · intro h
    obtain ⟨s, hs, hb⟩ := h.grund nofun
    obtain rfl := List.mem_singleton.mp hs
    exact hb.2
  · intro h
    refine ⟨fun pre post heq => ?_, fun _ => ⟨_, List.mem_singleton.mpr rfl, he, h⟩⟩
    have hmem : Schritt.tenantOrder true ∈ [Schritt.auditiert u e p q] := by
      rw [show [Schritt.auditiert u e p q] = pre ++ .tenantOrder true :: post from heq]
      simp
    cases List.mem_singleton.mp hmem

/-- What the record of an approval and the order run after it need, with the steps after
them. -/
theorem vorher_iff {rest : List (Schritt S)} (hrest : ∀ b, Schritt.tenantOrder b ∉ rest)
    (he : IstFreigabe l x e) (erreicht : Bool) :
    (∀ pre post, Schritt.auditiert u e p q :: .tenantOrder erreicht :: rest =
        pre ++ .tenantOrder true :: post → ∃ s ∈ pre, s.Belegt (IstFreigabe l x)) ↔
      (erreicht = true → Verzeichnet S u e p q) := by
  constructor
  · rintro h rfl
    obtain ⟨s, hs, hb⟩ := h [.auditiert u e p q] rest rfl
    obtain rfl := List.mem_singleton.mp hs
    exact hb.2
  · intro h pre post heq
    cases pre with
    | nil => cases heq
    | cons s pre =>
        obtain ⟨rfl, htail⟩ := List.cons.inj heq
        cases pre with
        | nil =>
            obtain ⟨herr, -⟩ := List.cons.inj htail
            exact ⟨_, List.mem_cons_self, he, h (Schritt.tenantOrder.inj herr)⟩
        | cons s' pre =>
            obtain ⟨-, hrest'⟩ := List.cons.inj htail
            refine absurd ?_ (hrest true)
            rw [hrest']
            exact List.mem_append_right pre List.mem_cons_self

/-- The record of the approval, and no end with success. -/
theorem nachgewiesen_geworfen (he : IstFreigabe l x e) (erreicht : Bool) :
    ¬Nachgewiesen l x ⟨[.auditiert u e p q, .tenantOrder erreicht], none⟩ := by
  intro h
  obtain ⟨s, hs, hb⟩ := h.grund nofun
  obtain ⟨t, v, rfl⟩ := he
  rcases List.mem_cons.mp hs with rfl | hs
  · exact not_nenntGrund_freigabe hb.1
  · obtain rfl := List.mem_singleton.mp hs
    exact hb

theorem nachgewiesen_abgesendet (he : IstFreigabe l x e) (erreicht : Bool) :
    Nachgewiesen l x ⟨[.auditiert u e p q, .tenantOrder erreicht], some true⟩ ↔
      (erreicht = true → Verzeichnet S u e p q) := by
  have hrest : ∀ b, Schritt.tenantOrder b ∉ ([] : List (Schritt S)) := fun _ => List.not_mem_nil
  rw [← vorher_iff hrest he erreicht]
  exact ⟨fun h => h.vorher, fun h => ⟨h, fun hne => absurd rfl hne⟩⟩

/-- The record of the approval, and the one of the order run that did not submit. -/
theorem nachgewiesen_nichtAbgesendet {u' : Umgebung} {e' : Absturz.Eintrag S} {p' q' : Prozess}
    (he : IstFreigabe l x e) (he' : NenntGrund l x e') (erreicht : Bool) :
    Nachgewiesen l x
        ⟨[.auditiert u e p q, .tenantOrder erreicht, .auditiert u' e' p' q'], some false⟩ ↔
      (erreicht = true → Verzeichnet S u e p q) ∧ Verzeichnet S u' e' p' q' := by
  have hrest : ∀ b, Schritt.tenantOrder b ∉ [Schritt.auditiert u' e' p' q'] := by
    intro b hb
    cases List.mem_singleton.mp hb
  rw [← vorher_iff hrest he erreicht]
  constructor
  · intro h
    refine ⟨h.vorher, ?_⟩
    obtain ⟨s, hs, hb⟩ := h.grund nofun
    obtain ⟨t, v, rfl⟩ := he
    rcases List.mem_cons.mp hs with rfl | hs
    · exact absurd hb.1 not_nenntGrund_freigabe
    · rcases List.mem_cons.mp hs with rfl | hs
      · exact hb.elim
      · obtain rfl := List.mem_singleton.mp hs
        exact hb.2
  · rintro ⟨hvorher, hv⟩
    exact ⟨hvorher, fun _ => ⟨.auditiert u' e' p' q', by simp, he', hv⟩⟩

end

/-! ### The way of a run -/

section

variable {S : Schrift} (l : Lage S) (x : Entnommen) (p : Prozess)

/-- The record of a refusal can be made and gets on the chain. -/
def Vermerkbar (orderValue : ExtRat) (reason : String) : Prop :=
  ∃ t, l.uhr = some t ∧ Traegt l.umgebung (satzAbgelehnt l x t orderValue reason) p

/-- The approval is recorded if the order run reaches the broker, and an order run
without success ends with a result and is recorded. -/
def Ausfuehrbar (orderValue : ExtRat) : Prop :=
  ∃ t, l.uhr = some t ∧
    (l.lauf.erreicht = true → Traegt l.umgebung (satzFreigegeben l x t orderValue) p) ∧
    (l.lauf.ergebnis = some true ∨ l.lauf.ergebnis = some false ∧
      ∃ t', l.uhrDanach = some t' ∧
        Traegt l.umgebungDanach (satzNichtAbgesendet l x t' orderValue)
          (l.waehrend (logExecutionEvent l.umgebung (satzFreigegeben l x t orderValue) p)))

/-- Every record on the way of the run can be made and gets on the chain, and nothing
raises on it. -/
def Belegbar : Prop :=
  ∃ qty price, x.qty.float = some qty ∧ x.price.float = some price ∧
    if immateriell l x (qty.abs * price) ∧ l.uhrUebersprungen.isSome then
      ∃ t, l.uhrUebersprungen = some t ∧
        Traegt l.umgebungUebersprungen (satzUebersprungen l x t (qty.abs * price)) p
    else if price ≤ 0 ∨ x.action = "BUY" ∧ qty ≤ 0 then
      Vermerkbar l x p (qty.abs * price) "malformed_payload"
    else
      match brokerZugangFuer l x.userId with
      | none => False
      | some (some reason) => Vermerkbar l x p (qty.abs * price) reason
      | some none => x.conviction.float.isSome ∧ Ausfuehrbar l x p (qty.abs * price)

variable {l x p}

theorem nachgewiesen_ablehnen (orderValue : ExtRat) (reason : String) :
    Nachgewiesen l x (ablehnen l x orderValue reason p) ↔
      Vermerkbar l x p orderValue reason := by
  rw [ablehnen, Vermerkbar]
  cases l.uhr with
  | none => simpa using not_nachgewiesen_leer
  | some t =>
      have he : NenntGrund l x (satzAbgelehnt l x t orderValue reason) := ⟨t, _, _, _, rfl⟩
      simp only [nachgewiesen_begruendet he, verzeichnet_logExecutionEvent, Option.some.injEq,
        exists_eq_left']

theorem nachgewiesen_ausfuehren (orderValue : ExtRat) :
    Nachgewiesen l x (ausfuehren l x orderValue p) ↔ Ausfuehrbar l x p orderValue := by
  rw [ausfuehren, Ausfuehrbar]
  cases l.uhr with
  | none => simpa using not_nachgewiesen_leer
  | some t =>
      have he : IstFreigabe l x (satzFreigegeben l x t orderValue) := ⟨t, _, rfl⟩
      simp only [Option.some.injEq, exists_eq_left']
      cases l.lauf.ergebnis with
      | none => simpa using nachgewiesen_geworfen he l.lauf.erreicht
      | some b =>
          cases b with
          | true =>
              simp only [nachgewiesen_abgesendet he, verzeichnet_logExecutionEvent, true_or,
                and_true]
          | false =>
              rw [nichtAbgesendet]
              cases l.uhrDanach with
              | none => simpa using nachgewiesen_geworfen he l.lauf.erreicht
              | some t' =>
                  have he' : NenntGrund l x (satzNichtAbgesendet l x t' orderValue) :=
                    ⟨t', _, _, _, rfl⟩
                  simp only [List.cons_append, List.nil_append,
                    nachgewiesen_nichtAbgesendet he he', verzeichnet_logExecutionEvent, true_and,
                    Option.some.injEq, Bool.false_eq_true, false_or, exists_eq_left']

theorem freigabeUnterMaterialitaet_eq_none {orderValue : ExtRat}
    (h : ¬(immateriell l x orderValue = true ∧ l.uhrUebersprungen.isSome)) :
    freigabeUnterMaterialitaet l x orderValue p = none := by
  rw [freigabeUnterMaterialitaet]
  cases hi : immateriell l x orderValue with
  | false => rfl
  | true =>
      cases hu : l.uhrUebersprungen with
      | none => rfl
      | some t => exact absurd ⟨hi, by rw [hu]; rfl⟩ h

end

/-- For every payload and in all surroundings: an order that reaches the broker has its
approval on the chain before, and one that is not submitted a reason, exactly when
the records on the way of the run get on the chain and nothing raises on it. -/
theorem freigabe_nachgewiesen_iff {S : Schrift} (l : Lage S) (x : Entnommen) (p : Prozess) :
    Nachgewiesen l x (executeApprovedOrder l x p) ↔ Belegbar l x p := by
  rw [executeApprovedOrder, Belegbar]
  cases hqty : x.qty.float with
  | none => simpa using not_nachgewiesen_leer
  | some qty =>
      cases hprice : x.price.float with
      | none => simpa using not_nachgewiesen_leer
      | some price =>
          simp only [Option.some.injEq, exists_and_left, exists_eq_left']
          by_cases him : immateriell l x (qty.abs * price) = true ∧ l.uhrUebersprungen.isSome
          · rw [if_pos him]
            obtain ⟨him, hu⟩ := him
            obtain ⟨t, ht⟩ := Option.isSome_iff_exists.mp hu
            have he : NenntGrund l x (satzUebersprungen l x t (qty.abs * price)) :=
              ⟨t, _, _, _, rfl⟩
            simp only [freigabeUnterMaterialitaet, him, if_true, ht]
            rw [nachgewiesen_begruendet he, verzeichnet_logExecutionEvent]
            simp
          · rw [if_neg him, freigabeUnterMaterialitaet_eq_none him]
            by_cases hbad : price ≤ 0 ∨ x.action = "BUY" ∧ qty ≤ 0
            · simp only [if_pos hbad]
              exact nachgewiesen_ablehnen _ _
            · simp only [if_neg hbad]
              cases brokerZugangFuer l x.userId with
              | none => simpa using not_nachgewiesen_leer
              | some zugang =>
                  cases zugang with
                  | some reason => exact nachgewiesen_ablehnen _ _
                  | none =>
                      cases x.conviction.float with
                      | none => simpa using not_nachgewiesen_leer
                      | some conviction =>
                          simp only [Option.isSome_some, true_and]
                          exact nachgewiesen_ausfuehren _

/-! ## The full disk -/

section Beispiel

open Audit.LiveEnablement (volleFestplatte frisch)

/-- An approved purchase of ten shares at 200. -/
def kauf : Entnommen where
  approvalId := some "a1"
  userId := "global"
  symbol := "AAPL"
  action := "BUY"
  qty := .zahl (.of 10)
  price := .zahl (.of 200)
  conviction := .zahl (.of 1)

/-- The engine has a broker access and submits the order, and the disk is full. -/
def ohnePlatz : Lage Absturz.schrift where
  matPct := .of 0
  prozentText := "0.0"
  effectiveMaxPositions := 10
  policyHash := ""
  zahl _ := ()
  mandanten := some []
  mandantenZugang := some []
  api := true
  equityLesbar := true
  uhrUebersprungen := some "2026-01-01T12:00:00+00:00"
  umgebungUebersprungen := volleFestplatte
  uhr := some "2026-01-01T12:00:00+00:00"
  umgebung := volleFestplatte
  uhrDanach := some "2026-01-01T12:00:00+00:00"
  umgebungDanach := volleFestplatte
  lauf := ⟨true, some true⟩
  waehrend p := p

/-- The order is submitted, and there is no record of its approval. -/
theorem freigabe_ohne_nachweis :
    (executeApprovedOrder ohnePlatz kauf frisch).ergebnis = some true ∧
      ¬Nachgewiesen ohnePlatz kauf (executeApprovedOrder ohnePlatz kauf frisch) := by
  have hunwesentlich : immateriell ohnePlatz kauf (.of 2000) = false := by
    simp [immateriell, ohnePlatz]
  have hlauf : executeApprovedOrder ohnePlatz kauf frisch =
      ausfuehren ohnePlatz kauf (.of 2000) frisch := by
    have hwert : (ExtRat.of 10).abs * .of 200 = .of 2000 := by norm_num
    have hweiter : freigabeUnterMaterialitaet ohnePlatz kauf (.of 2000) frisch = none :=
      freigabeUnterMaterialitaet_eq_none (by rw [hunwesentlich]; nofun)
    have hzugang : brokerZugangFuer ohnePlatz kauf.userId = some none := rfl
    simp only [executeApprovedOrder, show kauf.qty.float = some (.of 10) from rfl,
      show kauf.price.float = some (.of 200) from rfl, hwert, hweiter, hzugang,
      show kauf.conviction.float = some (.of 1) from rfl]
    norm_num
  rw [hlauf]
  refine ⟨rfl, fun h => ?_⟩
  obtain ⟨t, -, hvorher, -⟩ := (nachgewiesen_ausfuehren _).mp h
  obtain ⟨o, q, -, -, ⟨free, hfree, hge⟩, -⟩ := hvorher rfl
  obtain rfl := Option.some.inj hfree
  exact absurd hge (by decide)

end Beispiel

end Hitl.Freigabe
