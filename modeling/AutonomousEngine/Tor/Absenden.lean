import AutonomousEngine.Basis.Transition
import AutonomousEngine.Outbox.Ablage

/-!
# Sending through the gate

One attempt to send an order records the intent, notes it as sent, asks the
gateway, and then writes what came of it into the outbox.  The gateway denies,
or it calls the broker, and then the order is accepted, rejected as a duplicate
of an order the broker already holds under the key, or fails.  An accepted
order's answer may be lost on the way back.

The outbox steps never stop an order: an exception in one of them is logged and
the attempt goes on.  So each of them may also have no effect, and `festschreiben`
may have written the entry and not the directory line.

Attempts interleave, and an attempt may stop anywhere.  Two attempts may carry
the same client order id.  The outbox is shared by all accounts.  The broker
keeps the orders of each account apart.
-/

namespace Tor

open Outbox (Ablage OutboxEintrag)
open Basis (System)

/-! ## Attempts -/

/-- What one call of `torAbsenden` is given. -/
structure Absendung where
  decisionId : String
  art : String
  coid : String
  symbol : String
  seite : String
  qty : Rat
  userId : String
deriving DecidableEq

def Absendung.eintrag (s : Absendung) : OutboxEintrag :=
  { decisionId := s.decisionId
    leg := s.art
    clientOrderId := s.coid
    symbol := s.symbol
    side := s.seite
    qty := s.qty
    userId := s.userId }

/-- How an attempt ended: its order confirmed, its order denied, or an error that
leaves the order unresolved. -/
inductive Ausgang where
  | bestaetigt
  | verworfen
  | fehler
deriving DecidableEq, Repr

/-- Where an attempt is. -/
inductive Phase where
  | beginn
  | festgeschrieben
  | amTor
  | duplikat
  | abgelehnt (grund : String)
  | angenommen (orderId : String)
  | beendet (ausgang : Ausgang)
deriving DecidableEq, Repr

/-- How much of `festschreiben` took effect. -/
inductive Gelungen where
  | ganz
  | nurEintrag
  | nichts
deriving DecidableEq, Repr

/-- What the gateway returns or raises. -/
inductive TorAntwort where
  | abgelehnt (grund : String)
  | angenommen (orderId : String) (antwortKommtAn : Bool)
  | duplikat
  | fehler
deriving DecidableEq, Repr

/-- One action of the attempt `i`.  The flag of an outbox report says whether it
took effect. -/
inductive Aktion where
  | festschreiben (i : Nat) (g : Gelungen)
  | vermerken (i : Nat) (g : Bool)
  | tor (i : Nat) (antwort : TorAntwort)
  | nachschlagen (i : Nat) (gefunden : Bool)
  | verwerfen (i : Nat) (g : Bool)
  | bestaetigen (i : Nat) (g : Bool)
deriving DecidableEq, Repr

/-- The outbox, the orders each account's broker holds by key, and the
attempts. -/
structure Lage where
  ablage : Ablage
  broker : String → String → Option String
  phasen : Nat → Phase

/-- The situation with attempt `i` in another phase. -/
def Lage.setzePhase (x : Lage) (i : Nat) (p : Phase) : Lage :=
  { x with phasen := Function.update x.phasen i p }

/-- The broker of an account takes an order. -/
def nimmAn (b : String → String → Option String) (konto coid orderId : String) :
    String → String → Option String :=
  Function.update b konto (Function.update (b konto) coid (some orderId))

/-- The effect of `festschreiben` on the outbox. -/
def schreibeFest (a : Ablage) (e : OutboxEintrag) : Gelungen → Ablage
  | .ganz => (a.festschreiben true e).2
  | .nurEintrag =>
      if (a.get e.clientOrderId).isSome then a
      else a.set e.clientOrderId { e with zustand := .offen : OutboxEintrag }.alsJson
  | .nichts => a

/-- Recording changes nothing, or it writes an open entry under a new key. -/
theorem schreibeFest_cases (a : Ablage) (e : OutboxEintrag) (g : Gelungen) :
    schreibeFest a e g = a ∨
      a.get e.clientOrderId = none ∧
        (∀ c, (schreibeFest a e g).get c =
          (a.set e.clientOrderId { e with zustand := .offen : OutboxEintrag }.alsJson).get c) ∧
        ∀ c ∈ a.read, c ∈ (schreibeFest a e g).read := by
  cases hk : a.get e.clientOrderId with
  | some roh => cases g <;> simp [schreibeFest, Ablage.festschreiben, hk]
  | none =>
      cases g with
      | nichts => exact .inl rfl
      | ganz =>
          refine .inr ⟨rfl, fun c => ?_, fun c hc => ?_⟩
          · simp [schreibeFest, Ablage.festschreiben, hk]
          · simp [schreibeFest, Ablage.festschreiben, hk, hc]
      | nurEintrag =>
          refine .inr ⟨rfl, fun c => ?_, fun c hc => ?_⟩
          · simp [schreibeFest, hk]
          · simpa [schreibeFest, hk] using hc

/-- Recording that takes effect writes the entry and its directory line. -/
theorem schreibeFest_ganz {a : Ablage} {e : OutboxEintrag} (h : a.get e.clientOrderId = none) :
    schreibeFest a e .ganz =
      (a.set e.clientOrderId { e with zustand := .offen : OutboxEintrag }.alsJson).append
        e.clientOrderId := by
  simp [schreibeFest, Ablage.festschreiben, h]

/-- The reason a denied intent is discarded with. -/
def grundTor (reasonCode : String) : String := "Tor: " ++ reasonCode

variable (auftraege : Nat → Absendung)

/-- One action, or `none` when the attempt is not at it or the broker cannot
answer so. -/
def schritt (x : Lage) : Aktion → Option Lage
  | .festschreiben i g =>
      match x.phasen i with
      | .beginn =>
          some { x.setzePhase i .festgeschrieben with
            ablage := schreibeFest x.ablage (auftraege i).eintrag g }
      | _ => none
  | .vermerken i g =>
      match x.phasen i with
      | .festgeschrieben =>
          some { x.setzePhase i .amTor with
            ablage := (x.ablage.alsAbgesendet g (auftraege i).coid).2 }
      | _ => none
  | .tor i antwort =>
      match x.phasen i, antwort, x.broker (auftraege i).userId (auftraege i).coid with
      | .amTor, .abgelehnt grund, _ => some (x.setzePhase i (.abgelehnt grund))
      | .amTor, .angenommen orderId kommtAn, none =>
          some { x.setzePhase i (if kommtAn then .angenommen orderId else .beendet .fehler) with
            broker := nimmAn x.broker (auftraege i).userId (auftraege i).coid orderId }
      | .amTor, .duplikat, some _ => some (x.setzePhase i .duplikat)
      | .amTor, .fehler, _ => some (x.setzePhase i (.beendet .fehler))
      | _, _, _ => none
  | .nachschlagen i gefunden =>
      match x.phasen i, gefunden, x.broker (auftraege i).userId (auftraege i).coid with
      | .duplikat, true, some orderId => some (x.setzePhase i (.angenommen orderId))
      | .duplikat, false, _ => some (x.setzePhase i (.beendet .fehler))
      | _, _, _ => none
  | .verwerfen i g =>
      match x.phasen i with
      | .abgelehnt grund =>
          some { x.setzePhase i (.beendet .verworfen) with
            ablage := (x.ablage.alsVerworfen g (auftraege i).coid (grundTor grund)).2 }
      | _ => none
  | .bestaetigen i g =>
      match x.phasen i with
      | .angenommen orderId =>
          some { x.setzePhase i (.beendet .bestaetigt) with
            ablage := (x.ablage.alsBestaetigt g (auftraege i).coid orderId).2 }
      | _ => none

/-- What an action can do, one case for each way it can go. -/
inductive Schritt (x : Lage) : Aktion → Lage → Prop where
  | festschreiben {i} (g) : x.phasen i = .beginn →
      Schritt x (.festschreiben i g) { x.setzePhase i .festgeschrieben with
        ablage := schreibeFest x.ablage (auftraege i).eintrag g }
  | vermerken {i} (g) : x.phasen i = .festgeschrieben →
      Schritt x (.vermerken i g) { x.setzePhase i .amTor with
        ablage := (x.ablage.alsAbgesendet g (auftraege i).coid).2 }
  | abgelehnt {i grund} : x.phasen i = .amTor →
      Schritt x (.tor i (.abgelehnt grund)) (x.setzePhase i (.abgelehnt grund))
  | angenommen {i orderId kommtAn} : x.phasen i = .amTor →
      x.broker (auftraege i).userId (auftraege i).coid = none →
      Schritt x (.tor i (.angenommen orderId kommtAn))
        { x.setzePhase i (if kommtAn then .angenommen orderId else .beendet .fehler) with
          broker := nimmAn x.broker (auftraege i).userId (auftraege i).coid orderId }
  | duplikat {i} : x.phasen i = .amTor →
      Schritt x (.tor i .duplikat) (x.setzePhase i .duplikat)
  | fehler {i} : x.phasen i = .amTor →
      Schritt x (.tor i .fehler) (x.setzePhase i (.beendet .fehler))
  | gefunden {i} (orderId) : x.phasen i = .duplikat →
      x.broker (auftraege i).userId (auftraege i).coid = some orderId →
      Schritt x (.nachschlagen i true) (x.setzePhase i (.angenommen orderId))
  | nichtGefunden {i} : x.phasen i = .duplikat →
      Schritt x (.nachschlagen i false) (x.setzePhase i (.beendet .fehler))
  | verwerfen {i grund} (g) : x.phasen i = .abgelehnt grund →
      Schritt x (.verwerfen i g) { x.setzePhase i (.beendet .verworfen) with
        ablage := (x.ablage.alsVerworfen g (auftraege i).coid (grundTor grund)).2 }
  | bestaetigen {i orderId} (g) : x.phasen i = .angenommen orderId →
      Schritt x (.bestaetigen i g) { x.setzePhase i (.beendet .bestaetigt) with
        ablage := (x.ablage.alsBestaetigt g (auftraege i).coid orderId).2 }

theorem Schritt.of_schritt {x x' : Lage} {a : Aktion} (h : schritt auftraege x a = some x') :
    Schritt auftraege x a x' := by
  cases a with
  | festschreiben i g | vermerken i g | verwerfen i g | bestaetigen i g =>
      simp only [schritt] at h
      split at h
      next hp => cases h; constructor; exact hp
      next => cases h
  | tor i antwort =>
      simp only [schritt] at h
      split at h
      next hp => cases h; exact .abgelehnt hp
      next hp hb => cases h; exact .angenommen hp hb
      next hp _ => cases h; exact .duplikat hp
      next hp => cases h; exact .fehler hp
      next => cases h
  | nachschlagen i gefunden =>
      simp only [schritt] at h
      split at h
      next hp hb => cases h; exact .gefunden _ hp hb
      next hp => cases h; exact .nichtGefunden hp
      next => cases h

/-- No attempt has begun and no broker holds an order. -/
def anfang (a : Ablage) : Lage := ⟨a, fun _ _ => none, fun _ => .beginn⟩

def absenden (start : Ablage → Prop) : System Lage Aktion where
  start x := ∃ a, start a ∧ x = anfang a
  step x a x' := schritt auftraege x a = some x'

def laufe (x : Lage) : List Aktion → Option Lage
  | [] => some x
  | a :: as => (schritt auftraege x a).bind fun x' => laufe x' as
termination_by structural as => as

/-- A list of actions that can be taken and are allowed makes up a run. -/
theorem reach_of_laufe {start : Ablage → Prop} {G : Aktion → Prop} {as : List Aktion}
    (has : ∀ a ∈ as, G a) {x x' : Lage}
    (hx : ((absenden auftraege start).restrict fun _ a _ => G a).Reach x)
    (h : laufe auftraege x as = some x') :
    ((absenden auftraege start).restrict fun _ a _ => G a).Reach x' := by
  induction as generalizing x with
  | nil => cases h; exact hx
  | cons a as ih =>
      obtain ⟨x₁, h₁, h₂⟩ := Option.bind_eq_some_iff.mp h
      exact ih (fun b hb => has b (List.mem_cons_of_mem a hb))
        (.step hx ⟨h₁, has a List.mem_cons_self⟩) h₂

end Tor
