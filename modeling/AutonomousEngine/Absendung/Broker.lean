import AutonomousEngine.Gateway.OrderGateway

/-!
# An order run and the broker

The run of one order is a program that asks its surroundings: the services of
the engine, the halt, the gate, and the broker.  The broker keeps a book of
orders.  Between any two questions orders fill, end, and come in from elsewhere.

A submission may reach the book although its call raises.  A cancellation does
nothing that the book could not do by itself, so it may fail, and it may take
effect early, late or never.  A status is true at the moment it is answered and
may be outdated right after.

Each order of a run carries what the run has sent it for (`Zweck`).  The mark is
not visible to the program.
-/

namespace Absendung

open Basis
open Gateway (Auftrag Wert ComplianceDecision)
open Verkauf (Action ComplianceOrder IntentKind Quelle)

/-! ## Orders -/

/-- What the run sends an order for: the order of the event with its size, and
whether it is a marketable limit exit; its market fallback after a rejection, and
the one after the timeout with the fill seen before; the sale of the displaced
position before the purchase, with its size, or after it; and the purchase that
takes the former back. -/
inductive Zweck where
  | auftrag (groesse : Rat) (istLimitExit : Bool)
  | nachAblehnung (groesse : Rat)
  | nachFrist (groesse gesehen : Rat)
  | verdraengung (groesse : Rat)
  | aufgeschoben
  | rueckkauf
deriving DecidableEq, Repr

/-- Whether an order executes the event itself. -/
def Zweck.eigen : Zweck → Bool
  | .auftrag _ _ => true
  | .nachAblehnung _ => true
  | .nachFrist _ _ => true
  | _ => false

/-- Whether no market fallback follows a rejection. -/
def Zweck.letzter : Zweck → Bool
  | .auftrag _ istLimitExit => !istLimitExit
  | _ => true

/-- Whether the outcome of the run depends on the order. -/
def Zweck.massgeblich : Zweck → Bool
  | .auftrag _ _ => true
  | .nachAblehnung _ => true
  | _ => false

/-- What other orders of the event have filled, as the run has seen it. -/
def Zweck.verbraucht : Zweck → Rat
  | .nachFrist _ gesehen => gesehen
  | _ => 0

/-- What an order of the event may be over at most. -/
def Zweck.bedarf : Zweck → Rat
  | .auftrag groesse _ => groesse
  | .nachAblehnung groesse => groesse
  | .nachFrist groesse gesehen => groesse - gesehen
  | _ => 0

/-- The side of an order. -/
inductive Seite where
  | buy
  | sell
deriving DecidableEq, Repr

def Seite.action : Seite → Action
  | .buy => .buy
  | .sell => .sell

/-- An order in the book.  Orders from elsewhere have no purpose. -/
structure Order where
  clientOrderId : Option String
  symbol : String
  side : Action
  qty : Rat
  filledQty : Rat := 0
  offen : Bool := true
  zweck : Option Zweck := none
  qty_pos : 0 < qty
  filledQty_nonneg : 0 ≤ filledQty
  filledQty_le : filledQty ≤ qty

/-- Whether an order executes the event of the run. -/
def Order.eigen (o : Order) : Bool := o.zweck.any Zweck.eigen

def Order.neu (z : Zweck) (r : Auftrag) (h : 0 < r.qty) : Order where
  clientOrderId := r.form.clientOrderId
  symbol := r.symbol
  side := r.side
  qty := r.qty
  zweck := some z
  qty_pos := h
  filledQty_nonneg := le_rfl
  filledQty_le := h.le

/-- What an order can become.  It fills while it is open, and stays as it is once
it has ended. -/
structure Order.Weiter (o o' : Order) : Prop where
  clientOrderId : o'.clientOrderId = o.clientOrderId
  symbol : o'.symbol = o.symbol
  side : o'.side = o.side
  qty : o'.qty = o.qty
  zweck : o'.zweck = o.zweck
  filledQty : o.filledQty ≤ o'.filledQty
  beendet : o.offen = false → o'.offen = false ∧ o'.filledQty = o.filledQty

theorem Order.Weiter.refl (o : Order) : o.Weiter o :=
  ⟨rfl, rfl, rfl, rfl, rfl, le_rfl, fun h => ⟨h, rfl⟩⟩

theorem Order.Weiter.eigen {o o' : Order} (h : o.Weiter o') : o'.eigen = o.eigen := by
  rw [Order.eigen, h.zweck, Order.eigen]

abbrev Buch := List Order

/-- What the book does by itself: its orders go on, and others come in. -/
def Buch.Weiter (b b' : Buch) : Prop :=
  ∃ alt neu, b' = alt ++ neu ∧ List.Forall₂ Order.Weiter b alt ∧ ∀ o ∈ neu, o.zweck = none

/-! ## What the broker answers -/

/-- What calls of services and of the broker raise.  An API error carries its HTTP
status, and whether its code or its text says that the client order id is known. -/
inductive Fremdfehler where
  | apiError (statusCode : Option Nat) (schluesselBekannt : Bool)
  | sonst
deriving DecidableEq, Repr

/-- Whether the broker denies an order because it knows its key. -/
def istDuplikat : Fremdfehler → Bool
  | .apiError statusCode schluesselBekannt => statusCode == some 422 && schluesselBekannt
  | .sonst => false

/-- The status of an order. -/
inductive OrderStatus where
  | filled
  | canceled
  | expired
  | rejected
  | andere
deriving DecidableEq, Repr

/-- An order as the broker shows it. -/
structure Orderstand where
  status : OrderStatus
  filledQty : Wert
deriving DecidableEq, Repr

/-- Whether what is shown of an order is true of it.  A missing quantity stands for
zero. -/
structure Orderstand.Zeigt (st : Orderstand) (o : Order) : Prop where
  zahl : ∀ x, st.filledQty = .zahl x → o.filledQty = x
  fehlt : st.filledQty = .fehlt → o.filledQty = 0
  filled : st.status = .filled → o.filledQty = o.qty
  beendet : st.status ≠ .andere → o.offen = false

/-- An order found under a client order id, with the symbol as far as it is
named. -/
structure Fund where
  id : Nat
  symbol : String
deriving DecidableEq, Repr

/-! ## Services -/

/-- A position as the broker shows it. -/
structure Position where
  qty : Rat
  currentPrice : Rat
deriving DecidableEq, Repr

/-- An account as the broker shows it. -/
structure Konto where
  buyingPower : Rat
  multiplier : Rat
deriving DecidableEq, Repr

/-- A size with the cause when it is zero. -/
structure Bemessung where
  size : Rat
  zeroReason : Option String
deriving DecidableEq, Repr

/-- The decision of the portfolio manager. -/
structure Portfolioentscheid where
  shouldOpen : Bool
  symbolToClose : Option String
deriving DecidableEq, Repr

/-- The collaborators of a run whose answers it only reads. -/
inductive Dienst where
  | lock
  | riskManager
  | portfolioManager
  | canSellPosition (symbol : String)
  | recordSellSignal (symbol : String)
  | getAccount
  | calculatePositionSize
  | immaterialEntry (size : Rat)
  | earningsGuard
  | shouldOpenNewPosition
  | hitlHoldsOrder (size : Rat)
  | checkOrder (order : ComplianceOrder)
  | checkTrade (order : ComplianceOrder) (source : Quelle)
  | recordTrade (symbol : String)
  | nachlauf
  | logDecision
  | freigabeUnterMaterialitaet
  | brokerZugangFuer (userId : String)
  | audit (branch : String)
deriving DecidableEq, Repr

/-- What they answer when they do not raise. -/
@[reducible] def Dienst.Antwort : Dienst → Type
  | .lock => Bool
  | .canSellPosition _ => Bool
  | .getAccount => Konto
  | .calculatePositionSize => Bemessung
  | .immaterialEntry _ => Bool
  | .earningsGuard => Bool
  | .shouldOpenNewPosition => Portfolioentscheid
  | .hitlHoldsOrder _ => Bool
  | .checkOrder _ => Bool
  | .checkTrade _ _ => Bool
  | .freigabeUnterMaterialitaet => Bool
  | .brokerZugangFuer _ => Bool
  | _ => Unit

/-! ## Questions -/

/-- A field of the state of a run that only a purchase sets. -/
inductive Feldname where
  | sizingTrace
  | symbolToClose
deriving DecidableEq, Repr

/-- How a run or a part of it ends without a result: a step ends it before the
broker, or an exception. -/
inductive Ende where
  | vorDemBroker
  | fremd (f : Fremdfehler)
  | tradingHalted
  | stueckeNichtFrei
  | ungueltigerIntent
  | unboundLocal (name : Feldname)
deriving DecidableEq, Repr

/-- Where the halt is looked at. -/
inductive HaltOrt where
  | auftrag
  | intent
  | gateway
  | vorVerdraengung
  | vorAufgeschoben
  | vorRueckkauf
  | grenze
deriving DecidableEq, Repr

/-- Why a slot of the daily budget is given back: the order was rejected, or it was
cancelled with nothing seen filled. -/
inductive Anlass where
  | abgelehnt
  | ungefuellt
deriving DecidableEq, Repr

/-- What a run asks.  Writing a record, a log or a counter is a question without an
answer. -/
inductive Frage where
  | dienst (d : Dienst)
  /-- The position of the event's own symbol, and the one that is displaced. -/
  | bestand (symbol : String)
  | verdraengter (symbol : String)
  | istHalted (ort : HaltOrt)
  | torGesperrt (art : IntentKind)
  | freierBestand (symbol : String)
  | uuid4
  | aufzeichnen (d : ComplianceDecision)
  | submitOrder (z : Zweck) (request : Auftrag)
  | submitSchatten (z : Zweck) (request : Auftrag)
  | getOrderByClientId (z : Zweck) (coid symbol : String)
  /-- The report that an existing order is taken over. -/
  | uebernommen (z : Zweck) (id : Nat)
  | getOrderById (z : Zweck) (id : Nat)
  | cancelOrderById (z : Zweck) (id : Nat)
  /-- How often a poll without a limit is repeated, and that it goes on after that,
  which nothing ends. -/
  | geduld
  | endlos
  /-- One trade more, or one less, in the daily budget.  The legs of a displacement
  count like orders. -/
  | slotBelegen (leg : Option Zweck)
  | slotFreigeben (anlass : Anlass)
  /-- The record of a signal that was not executed. -/
  | auditSkipped
  /-- The report of an error of the run, and of a failed recovery. -/
  | fehler (e : Ende)
  | kritisch (e : Ende)

@[reducible] def Frage.Antwort : Frage → Type
  | .dienst d => Except Fremdfehler d.Antwort
  | .bestand _ => Except Fremdfehler Position
  | .verdraengter _ => Except Fremdfehler (Option Position)
  | .istHalted _ => Bool
  | .torGesperrt _ => Bool
  | .freierBestand _ => Verkauf.Broker
  | .uuid4 => String
  | .geduld => Nat
  | .endlos => Empty
  | .submitOrder _ _ => Except Fremdfehler Nat
  | .submitSchatten _ _ => Nat
  | .getOrderByClientId _ _ _ => Except Fremdfehler (Option Fund)
  | .getOrderById _ _ => Except Fremdfehler (Option Orderstand)
  | .cancelOrderById _ _ => Except Fremdfehler Unit
  | _ => Unit

abbrev Verlauf := List (Σ i, Frage.Antwort i)

theorem mem_snoc {l : Verlauf} {e e' : Σ i : Frage, i.Antwort} : e ∈ l ++ [e'] ↔ e ∈ l ∨ e = e' := by
  simp

/-- Where a log is split that has grown by one question. -/
theorem split_snoc {l l₁ l₂ : Verlauf} {e d : Σ i : Frage, i.Antwort}
    (h : l ++ [e] = l₁ ++ d :: l₂) : (∃ l₃, l = l₁ ++ d :: l₃) ∨ l = l₁ ∧ e = d := by
  rcases List.eq_nil_or_concat' l₂ with rfl | ⟨l₃, e', rfl⟩
  · obtain ⟨hl, he⟩ := List.append_inj' h rfl
    exact .inr ⟨hl, List.singleton_inj.mp he⟩
  · rw [← List.cons_append, ← List.append_assoc] at h
    exact .inl ⟨l₃, (List.append_inj' h rfl).1⟩

/-! ## The world -/

def Buch.Platziert (b : Buch) (z : Zweck) (r : Auftrag) (b' : Buch) : Prop :=
  ∃ h : 0 < r.qty, b' = b ++ [Order.neu z r h]

/-- The book after an order was taken for one of the run. -/
def Buch.nimm (b : Buch) (id : Nat) (z : Zweck) : Buch :=
  b.modify id fun o => { o with zweck := some z }

/-- What an answer says about the book, and does to it. -/
def Buch.antwortet (b : Buch) : (i : Frage) → i.Antwort → Buch → Prop
  | .submitOrder z r, .ok id, b' => b.Platziert z r b' ∧ id = b.length
  | .submitOrder z r, .error _, b' => b' = b ∨ b.Platziert z r b'
  | .getOrderByClientId _ coid _, a, b' => b' = b ∧ ∀ f, a = .ok (some f) →
      ∃ o, b[f.id]? = some o ∧ o.clientOrderId = some coid ∧ (f.symbol = "" ∨ f.symbol = o.symbol)
  | .uebernommen z id, _, b' => b' = b.nimm id z
  | .getOrderById _ id, a, b' => b' = b ∧ ∀ st, a = .ok (some st) →
      ∃ o, b[id]? = some o ∧ st.Zeigt o
  | _, _, b' => b' = b

def welt : World Buch Frage Frage.Antwort where
  drift := Buch.Weiter
  answer := Buch.antwortet

abbrev Lauf := Raising Frage Frage.Antwort Ende

/-! ## What stays true of the book -/

theorem Buch.Platziert.mem {b b' : Buch} {z : Zweck} {r : Auftrag} (h : b.Platziert z r b')
    {o : Order} (ho : o ∈ b) : o ∈ b' := by
  obtain ⟨_, rfl⟩ := h
  exact List.mem_append_left _ ho

/-- Orders keep their place while the book goes on. -/
theorem Buch.Weiter.getElem? {b b' : Buch} (h : b.Weiter b') {id : Nat} {o : Order}
    (ho : b[id]? = some o) : ∃ o', b'[id]? = some o' ∧ o.Weiter o' := by
  obtain ⟨alt, neu, rfl, halt, -⟩ := h
  induction halt generalizing id with
  | nil => cases ho
  | @cons p p' b alt hp _ ih =>
      cases id with
      | zero =>
          obtain rfl := Option.some.inj ho
          exact ⟨p', rfl, hp⟩
      | succ id => exact ih ho

theorem Buch.Weiter.mem {b b' : Buch} (h : b.Weiter b') {o : Order} (ho : o ∈ b) :
    ∃ o' ∈ b', o.Weiter o' := by
  obtain ⟨id, hid⟩ := List.mem_iff_getElem?.mp ho
  obtain ⟨o', ho', hw⟩ := h.getElem? hid
  exact ⟨o', List.mem_of_getElem? ho', hw⟩

theorem Buch.Platziert.getElem? {b b' : Buch} {z : Zweck} {r : Auftrag} (h : b.Platziert z r b')
    {id : Nat} {o : Order} (ho : b[id]? = some o) : b'[id]? = some o := by
  obtain ⟨_, rfl⟩ := h
  obtain ⟨hlt, -⟩ := List.getElem?_eq_some_iff.mp ho
  rw [List.getElem?_append_left hlt, ho]

theorem Buch.Weiter.of_getElem? {b b' : Buch} (h : b.Weiter b') {id : Nat} {o' : Order}
    (ho' : b'[id]? = some o') (hzweck : o'.zweck ≠ none) : ∃ o, b[id]? = some o ∧ o.Weiter o' := by
  obtain ⟨alt, neu, rfl, halt, hneu⟩ := h
  induction halt generalizing id with
  | nil => exact absurd (hneu o' (List.mem_of_getElem? ho')) hzweck
  | @cons p p' b alt hp _ ih =>
      cases id with
      | zero =>
          obtain rfl := Option.some.inj ho'
          exact ⟨p, rfl, hp⟩
      | succ id => exact ih ho'

theorem Buch.Platziert.of_getElem? {b b' : Buch} {z : Zweck} {r : Auftrag} (h : b.Platziert z r b')
    {id : Nat} {o : Order} (ho : b'[id]? = some o) :
    b[id]? = some o ∨ id = b.length ∧ o.zweck = some z := by
  obtain ⟨_, rfl⟩ := h
  rcases Nat.lt_trichotomy id b.length with hlt | rfl | hgt
  · rw [List.getElem?_append_left hlt] at ho
    exact .inl ho
  · rw [List.getElem?_concat_length] at ho
    obtain rfl := Option.some.inj ho
    exact .inr ⟨rfl, rfl⟩
  · rw [List.getElem?_eq_none (by simpa [Nat.succ_le_iff] using hgt)] at ho
    cases ho

/-- Taking an order over changes nothing but its purpose. -/
theorem Buch.getElem?_nimm {b : Buch} {id id' : Nat} {z : Zweck} {o : Order}
    (ho : b[id]? = some o) :
    (b.nimm id' z)[id]? = some o ∨ (b.nimm id' z)[id]? = some { o with zweck := some z } := by
  unfold Buch.nimm
  rw [List.getElem?_modify, ho]
  by_cases h : id' = id
  · right
    simp [h]
  · left
    simp [h]

theorem Buch.of_getElem?_nimm {b : Buch} {id j : Nat} {z : Zweck} {o' : Order}
    (ho' : (b.nimm id z)[j]? = some o') :
    ∃ o, b[j]? = some o ∧ (o' = o ∨ j = id ∧ o'.zweck = some z) := by
  unfold Buch.nimm at ho'
  rw [List.getElem?_modify] at ho'
  obtain ⟨o, ho, rfl⟩ := Option.map_eq_some_iff.mp ho'
  refine ⟨o, ho, ?_⟩
  by_cases h : id = j
  · rw [if_pos h]
    exact .inr ⟨h.symm, rfl⟩
  · rw [if_neg h]
    exact .inl rfl

end Absendung
