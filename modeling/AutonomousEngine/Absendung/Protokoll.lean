import AutonomousEngine.Absendung.Broker
import Mathlib.Data.Rat.Floor

/-!
# The protocol of an order run

What a run asks the broker depends on little of what happened before.  A
`Zwischenstand` has just that: how far the order of the event has got, what was
seen of it last, how far a displacement has got, and which reports were written.
`Schritt` says which question may follow, and what an answer makes of the
summary.

The steps of the run keep to this protocol.  That is shown beside each of them,
and nothing else about them is needed to say what a run does at the broker.
-/

namespace Absendung

open Basis
open Gateway (Auftrag Wert)

/-! ## Reading the broker -/

/-- `float(getattr(…) or 0)`, with nothing for a text that is no number. -/
def liesWert : Wert → Option Rat
  | .fehlt => some 0
  | .zahl x => some x
  | .unlesbar => none

/-- Rounds to a number of decimal places, a tie to the even neighbour. -/
def runde (stellen : Nat) (x : Rat) : Rat :=
  let y := x * 10 ^ stellen
  let u := ⌊y⌋
  let rest := y - u
  let n := if rest < 1 / 2 then u else if 1 / 2 < rest then u + 1 else if u % 2 = 0 then u else u + 1
  n / 10 ^ stellen

/-- What an answer to a status query leaves as the last state seen. -/
def nachAbfrage (gesehen : Option Orderstand) :
    Except Fremdfehler (Option Orderstand) → Option Orderstand
  | .ok st => st
  | .error _ => gesehen

/-- The fill that an answer to a status query names. -/
def gefuellt : Except Fremdfehler (Option Orderstand) → Option Rat
  | .ok (some st) => liesWert st.filledQty
  | _ => none

/-- The key of a request, unless it is empty. -/
def schluessel (r : Auftrag) : Option String :=
  match r.form.clientOrderId with
  | none => none
  | some c => if c = "" then none else some c

/-- The order of a symbol that an answer names. -/
def fund (symbol : String) : Except Fremdfehler (Option Fund) → Option Nat
  | .ok (some gefunden) =>
      if gefunden.symbol ≠ "" ∧ gefunden.symbol ≠ symbol then none else some gefunden.id
  | _ => none

def findet (symbol : String) (a : Except Fremdfehler (Option Fund)) : Bool := (fund symbol a).isSome

theorem fund_eq_some {symbol : String} {a : Except Fremdfehler (Option Fund)} {id : Nat}
    (h : fund symbol a = some id) : ∃ f, a = .ok (some f) ∧ f.id = id := by
  unfold fund at h
  split at h
  next f =>
    split at h
    next => cases h
    next => exact ⟨f, rfl, Option.some.inj h⟩
  next => cases h

/-- Whether an answer shows no long position. -/
def zeigtLeer : Except Fremdfehler Position → Bool
  | .ok pos => decide (pos.qty ≤ 0)
  | .error _ => false

/-! ## The summary of a run -/

/-- How far the order of the event has got: nothing is sent, the last attempt has
failed, its key is known and its order is looked up or was found, an order is at the
broker, or the dry run has taken one. -/
inductive Eigen where
  | nichts
  | gescheitert (z : Zweck) (f : Fremdfehler)
  | gesucht (z : Zweck) (f : Fremdfehler)
  | gefunden (z : Zweck) (f : Fremdfehler) (id : Nat)
  | da (id : Nat)
  | schatten
deriving DecidableEq, Repr

/-- What a submission makes of it.  Only a request with a key is looked up. -/
def Eigen.nach (z : Zweck) (r : Auftrag) : Except Fremdfehler Nat → Eigen
  | .ok id => .da id
  | .error f => if istDuplikat f && (schluessel r).isSome then .gesucht z f else .gescheitert z f

/-- What the look-up of its order makes of it. -/
def Eigen.nachgeschlagen (z : Zweck) (f : Fremdfehler) : Option Nat → Eigen
  | some id => .gefunden z f id
  | none => .gescheitert z f

/-- The last attempt, if it has raised, and its error. -/
def Eigen.versuch : Eigen → Option (Zweck × Fremdfehler)
  | .gescheitert z f => some (z, f)
  | .gesucht z f => some (z, f)
  | .gefunden z f _ => some (z, f)
  | _ => none

theorem Eigen.nach_ne_nichts (z : Zweck) (r : Auftrag) (a : Except Fremdfehler Nat) :
    Eigen.nach z r a ≠ .nichts := by
  cases a with
  | ok id => nofun
  | error f =>
      unfold nach
      dsimp only
      split <;> nofun

@[simp] theorem Eigen.versuch_nach_error (z : Zweck) (r : Auftrag) (f : Fremdfehler) :
    (Eigen.nach z r (.error f)).versuch = some (z, f) := by
  unfold nach
  dsimp only
  split <;> rfl

theorem Eigen.versuch_nach {z z' : Zweck} {r : Auftrag} {a : Except Fremdfehler Nat}
    {f : Fremdfehler} (h : (Eigen.nach z r a).versuch = some (z', f)) : z' = z ∧ a = .error f := by
  cases a with
  | ok id => cases h
  | error f' =>
      obtain ⟨rfl, rfl⟩ := Prod.mk.inj (Option.some.inj (h.symm.trans (versuch_nach_error z r f')))
      exact ⟨rfl, rfl⟩

/-- Only an attempt that is not looked up has failed at once. -/
theorem Eigen.nach_eq_gescheitert {z z' : Zweck} {r : Auftrag} {a : Except Fremdfehler Nat}
    {f : Fremdfehler} (h : Eigen.nach z r a = .gescheitert z' f) :
    z' = z ∧ a = .error f ∧ (istDuplikat f && (schluessel r).isSome) = false := by
  obtain ⟨rfl, rfl⟩ := Eigen.versuch_nach (z := z) (r := r) (a := a) (by rw [h]; rfl)
  refine ⟨rfl, rfl, ?_⟩
  unfold nach at h
  dsimp only at h
  split at h
  next => cases h
  next hno => simpa using hno

@[simp] theorem Eigen.versuch_nachgeschlagen (z : Zweck) (f : Fremdfehler) (gefunden : Option Nat) :
    (Eigen.nachgeschlagen z f gefunden).versuch = some (z, f) := by
  cases gefunden <;> rfl

@[simp] theorem Eigen.nachgeschlagen_ne_nichts (z : Zweck) (f : Fremdfehler) (gefunden : Option Nat) :
    Eigen.nachgeschlagen z f gefunden ≠ .nichts := by
  cases gefunden <;> nofun

theorem Eigen.nach_ne_gefunden (z : Zweck) (r : Auftrag) (a : Except Fremdfehler Nat) {z' : Zweck}
    {f : Fremdfehler} {id : Nat} : Eigen.nach z r a ≠ .gefunden z' f id := by
  cases a with
  | ok id => nofun
  | error f =>
      unfold nach
      dsimp only
      split <;> nofun

theorem Eigen.nachgeschlagen_ne_da (z : Zweck) (f : Fremdfehler) (gefunden : Option Nat) {id : Nat} :
    Eigen.nachgeschlagen z f gefunden ≠ .da id := by
  cases gefunden <;> nofun

theorem Eigen.gefunden_of_nachgeschlagen {z z' : Zweck} {f f' : Fremdfehler} {gefunden : Option Nat}
    {id : Nat} (h : Eigen.nachgeschlagen z f gefunden = .gefunden z' f' id) : gefunden = some id := by
  cases gefunden with
  | none => cases h
  | some id' => exact congrArg some (Eigen.gefunden.inj h).2.2

/-- Whether a submission of the order has returned an order. -/
def Eigen.erhalten : Eigen → Bool
  | .da _ => true
  | .schatten => true
  | _ => false

/-- How far a displacement before the purchase has got: the sale has raised, is at
the broker, was asked for its fill, or was taken back. -/
inductive Tausch where
  | keiner
  | gescheitert (groesse : Rat) (f : Fremdfehler)
  | verkauft (id : Nat) (groesse : Rat)
  | gefragt (id : Nat) (groesse : Rat) (gefuellt : Option Rat)
  | gekauft (id : Nat) (groesse : Rat) (gefuellt : Option Rat) (menge : Rat)
deriving DecidableEq, Repr

/-- What the submission of the sale makes of it. -/
def Tausch.nach (groesse : Rat) : Except Fremdfehler Nat → Tausch
  | .ok id => .verkauft id groesse
  | .error f => .gescheitert groesse f

/-- The sale as it may be taken back: its order, its size, and its fill as far as
the broker has named it. -/
def Tausch.ruecknahme : Tausch → Option (Nat × Rat × Option Rat)
  | .verkauft id groesse => some (id, groesse, none)
  | .gefragt id groesse gefuellt => some (id, groesse, gefuellt)
  | _ => none

/-- What a run has asked so far, as far as it matters. -/
structure Zwischenstand where
  /-- The broker has shown no long position of the symbol. -/
  leer : Bool := false
  /-- The order is exempt from the daily budget, as the position shows. -/
  ausgenommen : Bool := false
  /-- A slot of the daily budget was taken for the order, or given back. -/
  belegt : Bool := false
  erstattet : Bool := false
  eigen : Eigen := .nichts
  /-- The size of the order, and whether it is a marketable limit exit. -/
  groesse : Option (Rat × Bool) := none
  gesehen : Option Orderstand := none
  storniert : Bool := false
  /-- The market fallback after the timeout was tried. -/
  nachgereicht : Bool := false
  /-- The halt was found off before the deferred sale. -/
  frei : Bool := false
  tausch : Tausch := .keiner
  /-- The recovery was stopped by a halt. -/
  gehalten : Bool := false
  fehler : Option Ende := none
  uebersprungen : Bool := false

/-- Whether an error is about a field that was never set. -/
def Ende.ungebunden : Ende → Bool
  | .unboundLocal _ => true
  | _ => false

/-- What is fixed for a run: the side, whether a displacement is deferred, with which
position the order is exempt from the daily budget, the key of the order and of its
fallbacks as far as they are given, and a bound on the size. -/
structure Rahmen where
  seite : Seite
  buyFirst : Bool
  ausgenommen : Except Fremdfehler Position → Bool := fun _ => false
  coid : Option String := none
  folge : Option String := none
  obergrenze : Option Rat := none

/-- Whether a request goes out under a key, where one is given. -/
def Traegt (coid : Option String) (r : Auftrag) : Prop :=
  ∀ c, coid = some c → r.form.clientOrderId = some c

/-- Whether a size stays within the bound, where one is given. -/
def Rahmen.Begrenzt (k : Rahmen) (q : Rat) : Prop :=
  ∀ o, k.obergrenze = some o → q ≤ o

def FehlerMoeglich (k : Rahmen) (x : Zwischenstand) : Ende → Prop
  | .unboundLocal .sizingTrace => k.seite = .sell ∧ x.leer = true
  | .unboundLocal .symbolToClose => k.seite = .sell ∧
      (x.storniert = true ∨ ∃ z s b, x.eigen = .gescheitert z (.apiError s b) ∧ z.letzter = true)
  | _ => True

/-! ## The protocol -/

/-- The questions that may change the book. -/
def Frage.handelt : Frage → Bool
  | .submitOrder _ _ => true
  | .uebernommen _ _ => true
  | _ => false

theorem Buch.eq_of_antwortet {b b' : Buch} {i : Frage} {a : i.Antwort} (hi : i.handelt = false)
    (h : b.antwortet i a b') : b' = b := by
  cases i with
  | submitOrder => cases hi
  | uebernommen => cases hi
  | getOrderByClientId => exact h.1
  | getOrderById => exact h.1
  | _ => exact h

def Frage.still : Frage → Bool
  | .dienst _ => true
  | .verdraengter _ => true
  | .istHalted ort => ort != .vorAufgeschoben
  | .torGesperrt _ => true
  | .freierBestand _ => true
  | .uuid4 => true
  | .geduld => true
  | .endlos => true
  | .aufzeichnen _ => true
  | .getOrderByClientId z _ _ => !z.massgeblich
  | .slotBelegen leg => leg.isSome
  | .submitSchatten z _ => !z.eigen
  | _ => false

/-- A submission places the order or leaves the book as it is. -/
theorem Buch.antwortet_submitOrder {b b' : Buch} {z : Zweck} {r : Auftrag}
    {a : Except Fremdfehler Nat} (h : b.antwortet (.submitOrder z r) a b') :
    b' = b ∨ b.Platziert z r b' := by
  cases a with
  | ok id => exact .inr h.1
  | error f => exact h

theorem Buch.getElem?_submitOrder {b b' : Buch} {z : Zweck} {r : Auftrag}
    {a : Except Fremdfehler Nat} (h : b.antwortet (.submitOrder z r) a b') {id : Nat} {o : Order}
    (ho : b[id]? = some o) : b'[id]? = some o := by
  rcases Buch.antwortet_submitOrder h with rfl | hplatz
  · exact ho
  · exact hplatz.getElem? ho

/-- No answer changes an order, but for its purpose. -/
theorem Buch.bleibt {b b' : Buch} {i : Frage} {a : i.Antwort} (ha : b.antwortet i a b') {id : Nat}
    {o : Order} (ho : b[id]? = some o) :
    ∃ o', b'[id]? = some o' ∧ o'.filledQty = o.filledQty ∧ o'.offen = o.offen := by
  cases hi : i.handelt with
  | false => exact ⟨o, (Buch.eq_of_antwortet hi ha) ▸ ho, rfl, rfl⟩
  | true =>
    cases i with
    | submitOrder z r =>
        rcases Buch.antwortet_submitOrder ha with rfl | hplatz
        · exact ⟨o, ho, rfl, rfl⟩
        · exact ⟨o, hplatz.getElem? ho, rfl, rfl⟩
    | uebernommen z id' =>
        have hb' : b' = b.nimm id' z := ha
        subst hb'
        rcases Buch.getElem?_nimm (z := z) ho with ho' | ho'
        · exact ⟨o, ho', rfl, rfl⟩
        · exact ⟨_, ho', rfl, rfl⟩
    | _ => cases hi

/-- The order that a submission has returned is in the book. -/
theorem Buch.getElem?_of_nach {b b' : Buch} {z : Zweck} {r : Auftrag} {a : Except Fremdfehler Nat}
    {id : Nat} (ha : b.antwortet (.submitOrder z r) a b') (hid : Eigen.nach z r a = .da id) :
    ∃ o, b'[id]? = some o := by
  cases a with
  | ok id' =>
      obtain ⟨⟨_, rfl⟩, rfl⟩ := ha
      cases hid
      exact ⟨_, List.getElem?_concat_length⟩
  | error f =>
      have hversuch := Eigen.versuch_nach_error z r f
      rw [hid] at hversuch
      cases hversuch

theorem Frage.handelt_of_still {i : Frage} (h : i.still = true) : i.handelt = false := by
  cases i with
  | submitOrder => cases h
  | uebernommen => cases h
  | _ => rfl

/-- Which question may follow with which answer, and what comes of it. -/
inductive Schritt (k : Rahmen) : Protocol Frage Frage.Antwort Zwischenstand where
  | still {x i} (a) : i.still = true → Schritt k x i a x
  | bestand {x symbol} (a) : x.eigen = .nichts →
      Schritt k x (.bestand symbol) a { x with leer := zeigtLeer a, ausgenommen := k.ausgenommen a }
  | belegen {x} : x.belegt = false → x.eigen = .nichts →
      Schritt k x (.slotBelegen none) () { x with belegt := true }
  /-- The order of the event, and its fallback after a rejection. -/
  | auftrag {x q l r} (a) : x.eigen = .nichts → x.uebersprungen = false → 0 < q → r.qty ≤ q →
      (l = true → k.seite = .sell) → Traegt k.coid r → k.Begrenzt q →
      Schritt k x (.submitOrder (.auftrag q l) r) a
        { x with eigen := .nach (.auftrag q l) r a, groesse := some (q, l) }
  | schatten {x q l r} (a) : x.eigen = .nichts → x.uebersprungen = false →
      Schritt k x (.submitSchatten (.auftrag q l) r) a { x with eigen := .schatten }
  | nachAblehnung {x q r s b} (a) : x.groesse = some (q, true) →
      x.eigen = .gescheitert (.auftrag q true) (.apiError s b) → x.uebersprungen = false →
      r.qty ≤ q → Traegt k.folge r → k.Begrenzt q →
      Schritt k x (.submitOrder (.nachAblehnung q) r) a
        { x with eigen := .nach (.nachAblehnung q) r a }
  /-- The look-up of an order under a known key, which is then taken over. -/
  | nachgeschlagen {x z f coid symbol} (a) : x.eigen = .gesucht z f →
      Schritt k x (.getOrderByClientId z coid symbol) a
        { x with eigen := .nachgeschlagen z f (fund symbol a) }
  | uebernommen {x z f id} : x.eigen = .gefunden z f id → istDuplikat f = true →
      x.uebersprungen = false → Schritt k x (.uebernommen z id) () { x with eigen := .da id }
  /-- The status queries, the cancellation, and the fallback after the timeout. -/
  | gesehen {x z id} (a) : x.eigen = .da id → x.storniert = false → z.eigen = true →
      Schritt k x (.getOrderById z id) a { x with gesehen := nachAbfrage x.gesehen a }
  | storno {x z id} (a) : x.eigen = .da id → z.eigen = true →
      Schritt k x (.cancelOrderById z id) a { x with storniert := true }
  | nachFrist {x q g r id st} (a) : x.groesse = some (q, true) → x.eigen = .da id →
      x.storniert = true → x.nachgereicht = false → x.gesehen = some st →
      liesWert st.filledQty = some g → r.qty ≤ runde 6 (q - g) → Traegt k.folge r →
      k.Begrenzt q → Schritt k x (.submitOrder (.nachFrist q g) r) a { x with nachgereicht := true }
  | nachFristUebernommen {x q g id} : x.groesse = some (q, true) → x.nachgereicht = true →
      Schritt k x (.uebernommen (.nachFrist q g) id) () x
  /-- The sale of the displaced position after the purchase. -/
  | haltAufgeschoben {x id} (halted) : x.eigen = .da id →
      Schritt k x (.istHalted .vorAufgeschoben) halted { x with frei := !halted }
  | aufgeschoben {x r} (a) : k.buyFirst = true → x.frei = true →
      Schritt k x (.submitOrder .aufgeschoben r) a x
  /-- The sale of the displaced position before the purchase, and its recovery. -/
  | verdraengung {x q r} (a) : k.buyFirst = false → x.eigen = .nichts → x.tausch = .keiner →
      r.qty ≤ q →
      Schritt k x (.submitOrder (.verdraengung q) r) a { x with tausch := .nach q a }
  | verdraengungUebernommen {x q f id} : x.tausch = .gescheitert q f → istDuplikat f = true →
      Schritt k x (.uebernommen (.verdraengung q) id) () { x with tausch := .verkauft id q }
  | verdraengungStorno {x q id} (a) : x.tausch = .verkauft id q →
      Schritt k x (.cancelOrderById (.verdraengung q) id) a x
  | verdraengungAbfrage {x q id} (a) : x.tausch = .verkauft id q →
      Schritt k x (.getOrderById (.verdraengung q) id) a
        { x with tausch := .gefragt id q (gefuellt a) }
  | rueckkauf {x q id m r} (a) : x.tausch.ruecknahme = some (id, q, m) → r.qty = m.getD q →
      Schritt k x (.submitOrder .rueckkauf r) a { x with tausch := .gekauft id q m r.qty }
  | rueckkaufUebernommen {x q id m menge} {neu} : x.tausch = .gekauft id q m menge →
      Schritt k x (.uebernommen .rueckkauf neu) () x
  | kritisch {x e} : (e = .tradingHalted ∨ x.tausch.ruecknahme = none) →
      Schritt k x (.kritisch e) () { x with gehalten := x.gehalten || e == .tradingHalted }
  /-- A slot that is given back. -/
  | abgelehnt {x q z s b} : x.erstattet = false → (x.belegt = true ∨ x.ausgenommen = true) →
      x.groesse = some (q, false) → x.eigen = .gescheitert z (.apiError (some s) b) →
      400 ≤ s → s < 500 →
      Schritt k x (.slotFreigeben .abgelehnt) () { x with erstattet := true }
  | ungefuellt {x q id st} : x.erstattet = false → x.belegt = true →
      x.groesse = some (q, false) → x.eigen = .da id → x.storniert = true →
      x.gesehen = some st → liesWert st.filledQty = some 0 →
      Schritt k x (.slotFreigeben .ungefuellt) () { x with erstattet := true }
  /-- The reports. -/
  | fehler {x e} : x.fehler = none → FehlerMoeglich k x e →
      Schritt k x (.fehler e) () { x with fehler := some e }
  | uebersprungen {x} : (x.eigen.erhalten = false ∨ x.fehler.any Ende.ungebunden = true) →
      Schritt k x .auditSkipped () { x with uebersprungen := true }

end Absendung
