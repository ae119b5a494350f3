import AutonomousEngine.Basis.Gates
import AutonomousEngine.Verkauf.Schranken

/-!
# The last steps before the broker

The engine's own stops rest at the broker and bind the shares of a position.  A
sale first cancels them, waits for the confirmation, reads what is free and
lowers its quantity to that.  It never raises it (`gesenkt`).  Without
any order on the symbol it goes out as it came.

In front of this are the write lease and the lock of the reconciliation, which
no sale meets.  Behind it the order gateway decides, and denies everything but
protective exits and the never blocked kinds during a halt.

An order reaches the gateway as its quantity together with the gateway's
verdict.  Everything else is a reason to stop.
-/

namespace Verkauf

open Basis

/-! ## Reasons to stop -/

/-- What the release of shares says with its quantity. -/
inductive FreigabeGrund where
  | stornoOffen
  | bestandUnlesbar
  | nichtsFrei (frei : Rat)
  | begrenzt (frei : Rat)
deriving DecidableEq, Repr

/-- Why a sale does not reach the gateway. -/
inductive Abbruch where
  | keinVerkauf
  | marktGeschlossen
  | orderSperre
  | preisFehlt
  | bestandUnlesbar
  | keinePosition
  | mengeNull
  | wartetAufMensch
  | gehalten (grund : Haltegrund)
  | checkOrder
  | staub (grund : DustGrund)
  | tageslimit
  | halt
  | keineSchreibberechtigung
  | abgleichSperre
  | stueckeNichtFrei (grund : Option FreigabeGrund)
deriving DecidableEq, Repr

/-! ## Releasing shares -/

/-- An open order at the broker. -/
structure OffeneOrder where
  id : String
  symbol : String
  eigenerStop : Bool
deriving DecidableEq, Repr

/-- A position at the broker. -/
structure BrokerPosition where
  symbol : String
  qty : Rat
  qtyAvailable : Option Rat
deriving DecidableEq, Repr

/-- What the broker answers, `none` when a call raises, and which cancellations
it confirms in time. -/
structure Broker where
  getOrders : Option (List OffeneOrder)
  stornoBestaetigt : String → Bool
  getAllPositions : Option (List BrokerPosition)

/-- The smallest quantity the broker takes. -/
def minBrokerQty : Rat := 1 / 1000

def epsilon : Rat := 1 / 1000000

/-- A quantity that may be sold, and why it is not the one asked for. -/
structure Freigabe where
  menge : Rat
  grund : Option FreigabeGrund
deriving DecidableEq, Repr

/-- The free shares of a symbol, none when it is not held any more. -/
def bestandFrei (b : Broker) (symbol : String) : Option Rat :=
  b.getAllPositions.map fun positionen =>
    match positionen.find? fun p => p.symbol = symbol with
    | none => 0
    | some p => |p.qtyAvailable.getD p.qty|

/-- Whether orders rest on a symbol, as far as they can be read. -/
def liegtEtwas (b : Broker) (symbol : String) : Bool :=
  match b.getOrders with
  | none => false
  | some offene => offene.any fun o => o.symbol = symbol

/-- Whether the broker confirms that the own stops of a symbol are gone. -/
def stopsWeg (b : Broker) (symbol : String) : Bool :=
  match b.getOrders with
  | none => true
  | some offene => offene.all fun o =>
      !(o.symbol = symbol && o.eigenerStop) || b.stornoBestaetigt o.id

/-- Cancels the own stops of a symbol and bounds a quantity by what is free
then. -/
def gibStueckeFrei (b : Broker) (symbol : String) (menge : Rat) : Freigabe :=
  if !liegtEtwas b symbol then ⟨menge, none⟩
  else if !stopsWeg b symbol then ⟨0, some .stornoOffen⟩
  else
    match bestandFrei b symbol with
    | none => ⟨0, some .bestandUnlesbar⟩
    | some frei =>
        let verkaufbar := min |menge| frei
        if verkaufbar < minBrokerQty then ⟨0, some (.nichtsFrei frei)⟩
        else if verkaufbar < |menge| - epsilon then ⟨verkaufbar, some (.begrenzt frei)⟩
        else ⟨verkaufbar, none⟩

/-! ## Order intents -/

/-- The kinds of intents. -/
inductive IntentKind where
  | entry
  | stop
  | trim
  | displacement
  | panic
  | breaker
  | strategySwitch
deriving DecidableEq, Repr

def neverBlockedKinds : List IntentKind := [.displacement, .panic, .breaker, .strategySwitch]

/-- The kinds the lock of the reconciliation never blocks. -/
def neverBlockedOnBreak : List IntentKind := .stop :: .trim :: neverBlockedKinds

/-- An order intent. -/
structure OrderIntent where
  symbol : String
  side : Action
  qty : Rat
  intentKind : IntentKind
  isProtectiveExit : Bool
  halted : Bool
deriving DecidableEq, Repr

/-- Whether a halt does not hold an intent back. -/
def freigestellt (intent : OrderIntent) : Bool :=
  intent.isProtectiveExit || neverBlockedKinds.contains intent.intentKind

/-- Whether the release is skipped: for an intent the gateway would deny, and for
the dry run. -/
def ohneFreigabe (dryRun : Bool) (intent : OrderIntent) : Bool :=
  intent.halted && !freigestellt intent || dryRun

/-- The quantity of the request after the release. -/
def gibVerkaufFrei (b : Broker) (dryRun : Bool) (intent : OrderIntent) : Except Abbruch Rat :=
  if ohneFreigabe dryRun intent then .ok intent.qty
  else
    let freigabe := gibStueckeFrei b intent.symbol intent.qty
    if freigabe.menge ≤ 0 then .error (.stueckeNichtFrei freigabe.grund)
    else
      match freigabe.grund with
      | none => .ok intent.qty
      | some _ => .ok freigabe.menge

/-! ## The gate of the executor -/

/-- The reconciliation service. -/
structure Abgleich where
  reconciledOnce : Bool
  entriesBlocked : Bool
deriving DecidableEq, Repr

/-- Whether the reconciliation holds a kind back. -/
def Abgleich.blocks (a : Abgleich) (kind : IntentKind) : Bool :=
  if neverBlockedOnBreak.contains kind then false
  else if !a.reconciledOnce then true
  else a.entriesBlocked

/-- The places where the halt is looked at. -/
inductive HaltPunkt where
  | vorAbsendung
  | grenze
  | intent
  | gateway
deriving DecidableEq, Repr

/-- What the last steps meet. -/
structure TorLage where
  darfSchreiben : Bool
  abgleich : Option Abgleich
  halt : HaltPunkt → Bool
  broker : Broker

def torGesperrt (t : TorLage) (art : IntentKind) : Except Abbruch Unit := do
  gate t.darfSchreiben .keineSchreibberechtigung
  gate (!t.abgleich.any fun a => a.blocks art) .abgleichSperre

/-- The verdict of the order gateway, without an earlier decision. -/
def TorLage.decide (t : TorLage) (intent : OrderIntent) : Bool :=
  freigestellt intent || !t.halt .gateway

def verkaufsArt (isProtectiveExit : Bool) : IntentKind :=
  if isProtectiveExit then .stop else .trim

def verkaufsIntent (t : TorLage) (symbol : String) (qty : Rat) (isProtectiveExit : Bool) :
    OrderIntent :=
  { symbol, side := .sell, qty, intentKind := verkaufsArt isProtectiveExit
    isProtectiveExit, halted := t.halt .intent }

/-- A sale through the gate: the quantity that reaches the gateway, and the
gateway's verdict. -/
def sendeDurchsTor (t : TorLage) (dryRun : Bool) (symbol : String) (qty : Rat)
    (isProtectiveExit : Bool) : Except Abbruch (Rat × Bool) := do
  let intent := verkaufsIntent t symbol qty isProtectiveExit
  torGesperrt t intent.intentKind
  let menge ← gibVerkaufFrei t.broker dryRun intent
  return (menge, t.decide intent)

/-! ## What the release does -/

/-- The quantity that goes out when some shares are free. -/
def gesenkt (frei qty : Rat) : Rat := if frei < qty - epsilon then frei else qty

theorem minBrokerQty_pos : 0 < minBrokerQty := by norm_num [minBrokerQty]

theorem epsilon_pos : 0 < epsilon := by norm_num [epsilon]

/-- What the release of a positive quantity ends with. -/
theorem ends_gibVerkaufFrei {P : Abbruch → Prop} {Q : Rat → Prop} {b : Broker} {dryRun : Bool}
    {intent : OrderIntent} (hpos : 0 < intent.qty) :
    Ends P Q (gibVerkaufFrei b dryRun intent) ↔
      if ohneFreigabe dryRun intent = true ∨ liegtEtwas b intent.symbol = false then Q intent.qty
      else if stopsWeg b intent.symbol = false then P (.stueckeNichtFrei (some .stornoOffen))
      else
        match bestandFrei b intent.symbol with
        | none => P (.stueckeNichtFrei (some .bestandUnlesbar))
        | some frei =>
            if min intent.qty frei < minBrokerQty then
              P (.stueckeNichtFrei (some (.nichtsFrei frei)))
            else Q (gesenkt frei intent.qty) := by
  unfold gibVerkaufFrei gibStueckeFrei
  rw [abs_of_pos hpos]
  cases hskip : ohneFreigabe dryRun intent with
  | true => simp
  | false =>
    cases hl : liegtEtwas b intent.symbol with
    | false => simp [not_le.mpr hpos]
    | true =>
      cases hs : stopsWeg b intent.symbol with
      | false => simp
      | true =>
        cases hb : bestandFrei b intent.symbol with
        | none => simp
        | some frei =>
          by_cases hmin : min intent.qty frei < minBrokerQty
          · simp [hmin]
          · have hfrei : ¬ min intent.qty frei ≤ 0 :=
              not_le.mpr (minBrokerQty_pos.trans_le (not_lt.mp hmin))
            by_cases hlt : frei < intent.qty - epsilon
            · -- the free shares are the bound, so they are the minimum
              have hle : frei ≤ intent.qty := hlt.le.trans (sub_le_self intent.qty epsilon_pos.le)
              have hmineq : min intent.qty frei = frei := min_eq_right hle
              rw [hmineq] at hmin hfrei
              simp [hmineq, hmin, hfrei, hlt, gesenkt]
            · have hge : ¬ min intent.qty frei < intent.qty - epsilon := by
                intro h
                rcases min_lt_iff.mp h with h | h
                · exact absurd h (not_lt.mpr (sub_le_self intent.qty epsilon_pos.le))
                · exact hlt h
              simp only [hmin, hfrei, hge, hlt, gesenkt, Bool.not_true, Bool.false_eq_true,
                if_false, or_self, reduceCtorEq, ends_ok]

theorem blocks_verkaufsArt (a : Abgleich) (isProtectiveExit : Bool) :
    a.blocks (verkaufsArt isProtectiveExit) = false := by
  cases isProtectiveExit with
  | true => rfl
  | false => rfl

/-- Only the write lease stops a sale in front of the release. -/
@[simp] theorem ends_torGesperrt {P : Abbruch → Prop} {Q : Unit → Prop} (t : TorLage)
    (isProtectiveExit : Bool) :
    Ends P Q (torGesperrt t (verkaufsArt isProtectiveExit)) ↔
      (t.darfSchreiben = true → Q ()) ∧ (t.darfSchreiben = false → P .keineSchreibberechtigung) := by
  have hoffen : (!t.abgleich.any fun a => a.blocks (verkaufsArt isProtectiveExit)) = true := by
    cases t.abgleich with
    | none => rfl
    | some a => simp [blocks_verkaufsArt]
  simp [torGesperrt, hoffen]

/-- What a sale of a positive quantity ends with at the gate. -/
theorem ends_sendeDurchsTor {P : Abbruch → Prop} {Q : Rat × Bool → Prop} {t : TorLage}
    {dryRun : Bool} {symbol : String} {qty : Rat} {isProtectiveExit : Bool} (hpos : 0 < qty) :
    Ends P Q (sendeDurchsTor t dryRun symbol qty isProtectiveExit) ↔
      (t.darfSchreiben = true →
        if ohneFreigabe dryRun (verkaufsIntent t symbol qty isProtectiveExit) = true ∨
            liegtEtwas t.broker symbol = false then
          Q (qty, t.decide (verkaufsIntent t symbol qty isProtectiveExit))
        else if stopsWeg t.broker symbol = false then P (.stueckeNichtFrei (some .stornoOffen))
        else
          match bestandFrei t.broker symbol with
          | none => P (.stueckeNichtFrei (some .bestandUnlesbar))
          | some frei =>
              if min qty frei < minBrokerQty then
                P (.stueckeNichtFrei (some (.nichtsFrei frei)))
              else Q (gesenkt frei qty,
                t.decide (verkaufsIntent t symbol qty isProtectiveExit))) ∧
      (t.darfSchreiben = false → P .keineSchreibberechtigung) := by
  have hrel : ∀ {R : Rat → Prop}, Ends P R (gibVerkaufFrei t.broker dryRun
      (verkaufsIntent t symbol qty isProtectiveExit)) ↔ _ := ends_gibVerkaufFrei hpos
  simp only [sendeDurchsTor, ends_bind, ends_pure, hrel]
  exact ends_torGesperrt t isProtectiveExit

end Verkauf
