import AutonomousEngine.Absendung.Verdraengung

/-!
# Before the broker

The steps of an order run up to its quantity.  A sale has its quantity from the
position at the broker.  A purchase is sized, passes the portfolio manager and
the hold for a human, and may displace a position.  Then the approved quantity
bounds it.

A step that ends the run writes that the signal was skipped, but for the hold.
Where a purchase has set a field of the state, a sale has not, and reading the
field then raises (`gebunden`).
-/

namespace Absendung

open Basis
open Gateway (Auftrag)
open Verkauf (Quelle)

/-! ## The state of a run -/

/-- The event that is executed. -/
structure Signal where
  symbol : String
  seite : Seite
  kontext : Kontext
  suggestedQuantity : Rat

/-- The tenant whose account is used. -/
structure Tenant where
  userId : String
  equity : Rat

/-- What the steps hand on.  A field that may be unset is optional, also where its
value is. -/
structure St where
  size : Rat := 0
  heldBrokerQty : Rat := 0
  account : Konto := ⟨0, 1⟩
  sizingTrace : Option (Option String) := none
  symbolToClose : Option (Option String) := none
  deferredCloseSymbol : Option String := none
  deferredCloseQty : Rat := 0
  sofortVerkaufenQty : Option Rat := none
  displacementSellOrderId : Option Nat := none
  displacementSellQty : Rat := 0

def gebunden {α : Type} (feld : Option α) (name : Feldname) : Lauf α :=
  match feld with
  | some wert => return wert
  | none => throw (.unboundLocal name)

/-- Ends the run and writes that the signal was skipped. -/
def ueberspringe {α : Type} : Lauf α := do
  frage .auditSkipped
  throw .vorDemBroker

/-! ## The steps -/

/-- The managers of the tenant, and the price. -/
def schrittMandantVorbereiten (event : Signal) : Lauf Unit := do
  dienst .riskManager
  if event.kontext.currentPrice ≤ 0 then ueberspringe
  dienst .portfolioManager

/-- A sale: the lock against churn, and the position. -/
def schrittMandantBestand (event : Signal) (st : St) : Lauf St := do
  let canSell ← dienst (.canSellPosition event.symbol)
  if canSell then
    match ← frage (.bestand event.symbol) with
    | .ok pos => return { st with size := pos.qty, heldBrokerQty := |pos.qty| }
    | .error _ => ueberspringe
  else
    dienst (.recordSellSignal event.symbol)
    ueberspringe

/-- A purchase: its size, and the guards of the entry. -/
def schrittMandantBemessung (st : St) : Lauf St := do
  let account ← dienst .getAccount
  let bemessung ← dienst .calculatePositionSize
  if 0 < bemessung.size then
    if ← dienst (.immaterialEntry bemessung.size) then ueberspringe
  if ← dienst .earningsGuard then ueberspringe
  return { st with account, size := bemessung.size, sizingTrace := some bemessung.zeroReason }

/-- A purchase: the portfolio manager, and the hold for a human. -/
def schrittMandantPortfolio (st : St) : Lauf St := do
  let entscheid ← dienst .shouldOpenNewPosition
  if entscheid.shouldOpen then
    if 0 < st.size then
      if ← dienst (.hitlHoldsOrder st.size) then throw .vorDemBroker
    return { st with symbolToClose := some entscheid.symbolToClose }
  else ueberspringe

/-- Whether a displacement of a position is paid for, and when it is sold. -/
def verdraenge (u : Umfeld) (curr : Rat) (st : St) (symbolToClose : String) (oldPos : Position) :
    Lauf St :=
  if 0 < oldPos.qty then
    let available := displacementAvailableBp u.displacementBuyFirst st.account.buyingPower
      (oldPos.qty * oldPos.currentPrice) st.account.multiplier
    if available < st.size * curr then ueberspringe
    else if u.displacementBuyFirst then
      return { st with deferredCloseSymbol := some symbolToClose, deferredCloseQty := oldPos.qty }
    else return { st with sofortVerkaufenQty := some oldPos.qty }
  else return st

/-- A purchase: the position it displaces. -/
def schrittMandantVerdraengung (u : Umfeld) (curr : Rat) (st : St) : Lauf St :=
  match st.symbolToClose.join with
  | none => return st
  | some symbolToClose =>
      if symbolToClose = "" then return st
      else
        exceptException (do
            match ← liefere (← frage (.verdraengter symbolToClose)) with
            | none => return st
            | some oldPos => verdraenge u curr st symbolToClose oldPos)
          fun _ => ueberspringe

/-- A purchase that does not come first: the sale of the displaced position. -/
def schrittMandantSofortVerkaufen (u : Umfeld) (tenant : Tenant) (context : Kontext) (st : St) :
    Lauf St :=
  match st.sofortVerkaufenQty, st.symbolToClose.join with
  | some oldQty, some symbolToClose =>
      if oldQty = 0 then return st
      else
        exceptException (do
            let coid ← derivedCoid u context .displacement 0
            checkHalt .vorVerdraengung
            let sellOrder ← sendeDurchsTor u .broker (.verdraengung oldQty)
              (marketOrderRequest symbolToClose oldQty .sell (some coid))
              { symbol := symbolToClose, seite := .sell, qty := oldQty, userId := tenant.userId
                decisionId := context.decisionId, intentKind := some .displacement }
            let _ ← registerDisplacementLeg u (.verdraengung oldQty) symbolToClose .sell oldQty
              tenant.userId oldQty
            dienst (.recordTrade symbolToClose)
            return { st with displacementSellOrderId := some sellOrder, displacementSellQty := oldQty })
          fun _ => ueberspringe
  | _, _ => return st

/-- The size under the approved quantity, where a human has approved one. -/
def freigegebeneMenge (event : Signal) (source : Quelle) (size : Rat) : Rat :=
  let approvedQty := |event.suggestedQuantity|
  if source = .humanApproved ∧ 0 < approvedQty then min size approvedQty else size

/-- The approved quantity bounds the size, and a size of zero ends the run. -/
def schrittMandantMenge (event : Signal) (source : Quelle) (st : St) : Lauf St := do
  let size := freigegebeneMenge event source st.size
  if size ≤ 0 then
    let _ ← gebunden st.sizingTrace .sizingTrace
    ueberspringe
  else return { st with size }

theorem freigegebeneMenge_le {event : Signal} {source : Quelle} (size : Rat)
    (hsource : source = .humanApproved) (happroved : 0 < |event.suggestedQuantity|) :
    freigegebeneMenge event source size ≤ |event.suggestedQuantity| := by
  rw [freigegebeneMenge, if_pos ⟨hsource, happroved⟩]
  exact min_le_right _ _

/-- The approved quantity never brings a size to zero. -/
theorem size_nonpos_of_freigegebeneMenge {event : Signal} {source : Quelle} {size : Rat}
    (h : freigegebeneMenge event source size ≤ 0) : size ≤ 0 := by
  unfold freigegebeneMenge at h
  dsimp only at h
  split at h
  next happroved => exact (min_le_iff.mp h).resolve_right (not_le.mpr happroved.2)
  next => exact h

/-! ## What they ask -/

/-- How a run may break off: with an error that was not reported yet, without an
order at the broker unless the error is about a field that was never set, and with
a displacement that was taken back. -/
structure Abgebrochen (k : Rahmen) (e : Ende) (x : Zwischenstand) : Prop where
  fehler : x.fehler = none
  moeglich : FehlerMoeglich k x e
  erhalten : x.eigen.erhalten = false ∨ e.ungebunden = true
  zurueck : Zurueckgenommen x.tausch x.gehalten

/-- A run that has sent nothing for its event. -/
structure Vorher (x : Zwischenstand) : Prop where
  eigen : x.eigen = .nichts
  fehler : x.fehler = none
  zurueck : Zurueckgenommen x.tausch x.gehalten

theorem FehlerMoeglich.of_gebunden {k : Rahmen} {x : Zwischenstand} {e : Ende}
    (h : e.ungebunden = false) : FehlerMoeglich k x e := by
  cases e with
  | unboundLocal name => cases h
  | _ => trivial

section

variable {k : Rahmen} {x : Zwischenstand} {α : Type}

theorem Vorher.abgebrochen (hx : Vorher x) {e : Ende} (he : e.ungebunden = false) :
    Abgebrochen k e x :=
  ⟨hx.fehler, .of_gebunden he, .inl (hx.eigen ▸ rfl), hx.zurueck⟩

theorem Vorher.uebersprungen (hx : Vorher x) : Vorher { x with uebersprungen := true } :=
  ⟨hx.eigen, hx.fehler, hx.zurueck⟩

theorem meets_gebunden {feld : Option α} {name : Feldname} {Q : α → Zwischenstand → Prop}
    {E : Ende → Zwischenstand → Prop} (h : ∀ wert, feld = some wert → Q wert x)
    (hE : feld = none → E (.unboundLocal name) x) :
    Meets (Schritt k) x (gebunden feld name) Q E := by
  cases feld with
  | some wert => exact h wert rfl
  | none => exact hE rfl

theorem meets_ueberspringe_of {Q : α → Zwischenstand → Prop} {E : Ende → Zwischenstand → Prop}
    (hx : Vorher x) (hE : ∀ y, Abgebrochen k .vorDemBroker y → E .vorDemBroker y) :
    Meets (Schritt k) x ueberspringe Q E := by
  rw [ueberspringe, meets_bind]
  exact meets_frage fun _ =>
    ⟨_, .uebersprungen (.inl (hx.eigen ▸ rfl)), hE _ (hx.uebersprungen.abgebrochen rfl)⟩

theorem meets_ueberspringe {Q : α → Zwischenstand → Prop} (hx : Vorher x) :
    Meets (Schritt k) x ueberspringe Q (Abgebrochen k) :=
  meets_ueberspringe_of hx fun _ h => h

/-- A service in a step before the broker. -/
theorem meets_dienst_vorher {d : Dienst} {Q : d.Antwort → Zwischenstand → Prop} (hx : Vorher x)
    (h : ∀ a, Q a x) : Meets (Schritt k) x (dienst d) Q (Abgebrochen k) :=
  meets_dienst h fun _ => hx.abgebrochen rfl

theorem meets_schrittMandantVorbereiten {event : Signal} {Q : Unit → Zwischenstand → Prop}
    (hx : Vorher x) (h : Q () x) :
    Meets (Schritt k) x (schrittMandantVorbereiten event) Q (Abgebrochen k) := by
  rw [schrittMandantVorbereiten, meets_bind]
  refine meets_dienst_vorher hx fun _ => ?_
  split
  next => exact meets_bind.mpr (meets_ueberspringe hx)
  next => exact meets_dienst_vorher hx fun _ => h

theorem Vorher.mitBestand (hx : Vorher x) (leer ausgenommen : Bool) :
    Vorher { x with leer, ausgenommen } :=
  ⟨hx.eigen, hx.fehler, hx.zurueck⟩

theorem meets_schrittMandantBestand {event : Signal} {st : St} {Q : St → Zwischenstand → Prop}
    (hx : Vorher x)
    (h : ∀ qty heldBrokerQty ausgenommen, Q { st with size := qty, heldBrokerQty }
      { x with leer := decide (qty ≤ 0), ausgenommen }) :
    Meets (Schritt k) x (schrittMandantBestand event st) Q (Abgebrochen k) := by
  rw [schrittMandantBestand, meets_bind]
  refine meets_dienst_vorher hx fun canSell => ?_
  split
  next =>
    rw [meets_bind]
    refine meets_frage fun a => ⟨_, .bestand a hx.eigen, ?_⟩
    cases a with
    | ok pos => exact h pos.qty |pos.qty| _
    | error f => exact meets_ueberspringe (hx.mitBestand false _)
  next =>
    rw [meets_bind]
    exact meets_dienst_vorher hx fun _ => meets_ueberspringe hx

theorem meets_schrittMandantBemessung {st : St} {Q : St → Zwischenstand → Prop} (hx : Vorher x)
    (h : ∀ account size zeroReason, Q { st with account, size, sizingTrace := some zeroReason } x) :
    Meets (Schritt k) x (schrittMandantBemessung st) Q (Abgebrochen k) := by
  rw [schrittMandantBemessung, meets_bind]
  refine meets_dienst_vorher hx fun account => ?_
  rw [meets_bind]
  refine meets_dienst_vorher hx fun bemessung => ?_
  have hende : Meets (Schritt k) x (do
      if ← dienst .earningsGuard then ueberspringe
      return { st with account, size := bemessung.size
                       sizingTrace := some bemessung.zeroReason } : Lauf St) Q (Abgebrochen k) := by
    rw [meets_bind]
    refine meets_dienst_vorher hx fun veto => ?_
    split
    next => exact meets_bind.mpr (meets_ueberspringe hx)
    next => exact h account bemessung.size bemessung.zeroReason
  split
  next =>
    rw [meets_bind]
    refine meets_dienst_vorher hx fun klein => ?_
    split
    next => exact meets_bind.mpr (meets_ueberspringe hx)
    next => exact hende
  next => exact hende

theorem meets_schrittMandantPortfolio {st : St} {Q : St → Zwischenstand → Prop} (hx : Vorher x)
    (h : ∀ symbolToClose, Q { st with symbolToClose := some symbolToClose } x) :
    Meets (Schritt k) x (schrittMandantPortfolio st) Q (Abgebrochen k) := by
  rw [schrittMandantPortfolio, meets_bind]
  refine meets_dienst_vorher hx fun entscheid => ?_
  split
  next =>
    split
    next =>
      rw [meets_bind]
      refine meets_dienst_vorher hx fun wartet => ?_
      split
      next => exact hx.abgebrochen rfl
      next => exact h entscheid.symbolToClose
    next => exact h entscheid.symbolToClose
  next => exact meets_ueberspringe hx

/-- What the look at the displaced position adds to the state: nothing, a sale after
the purchase, or one before it. -/
inductive Verdraengt (u : Umfeld) (st : St) : St → Prop where
  | nicht : Verdraengt u st st
  | danach (symbolToClose deferredCloseQty) : u.displacementBuyFirst = true →
      Verdraengt u st { st with deferredCloseSymbol := some symbolToClose, deferredCloseQty }
  | davor (symbolToClose oldQty) : u.displacementBuyFirst = false →
      st.symbolToClose = some (some symbolToClose) → symbolToClose ≠ "" →
      Verdraengt u st { st with sofortVerkaufenQty := some oldQty }

theorem meets_verdraenge {u : Umfeld} {curr : Rat} {st : St} {symbolToClose : String}
    {oldPos : Position} {Q : St → Zwischenstand → Prop} {E : Ende → Zwischenstand → Prop}
    (hx : Vorher x) (hsymbol : st.symbolToClose = some (some symbolToClose))
    (hne : symbolToClose ≠ "") (h : ∀ st', Verdraengt u st st' → Q st' x)
    (hE : ∀ y, Abgebrochen k .vorDemBroker y → E .vorDemBroker y) :
    Meets (Schritt k) x (verdraenge u curr st symbolToClose oldPos) Q E := by
  unfold verdraenge
  split
  next =>
    dsimp only
    split
    next => exact meets_ueberspringe_of hx hE
    next =>
      split
      next hfirst => exact h _ (.danach symbolToClose oldPos.qty hfirst)
      next hfirst => exact h _ (.davor _ oldPos.qty (by simpa using hfirst) hsymbol hne)
  next => exact h st .nicht

theorem meets_schrittMandantVerdraengung {u : Umfeld} {curr : Rat} {st : St}
    {Q : St → Zwischenstand → Prop} (hx : Vorher x) (h : ∀ st', Verdraengt u st st' → Q st' x) :
    Meets (Schritt k) x (schrittMandantVerdraengung u curr st) Q (Abgebrochen k) := by
  unfold schrittMandantVerdraengung
  split
  next => exact h st .nicht
  next symbolToClose hsymbol =>
    split
    next => exact h st .nicht
    next hne =>
      rw [meets_exceptException, meets_bind]
      refine meets_still rfl fun a => ?_
      rw [meets_bind, meets_liefere]
      cases a with
      | error f => exact meets_ueberspringe hx
      | ok oldPos =>
        cases oldPos with
        | none => exact h st .nicht
        | some oldPos =>
            exact meets_verdraenge hx (Option.join_eq_some_iff.mp hsymbol) hne h fun _ hy => hy

theorem Vorher.mitTausch (hx : Vorher x) {tausch : Tausch}
    (htausch : Zurueckgenommen tausch x.gehalten) : Vorher { x with tausch } :=
  ⟨hx.eigen, hx.fehler, htausch⟩

/-- The sale before the purchase.  If it is at the broker, the state has its order
and its size. -/
theorem meets_schrittMandantSofortVerkaufen {u : Umfeld} {tenant : Tenant} {context : Kontext}
    {st : St} {Q : St → Zwischenstand → Prop} (hx : Vorher x) (htausch : x.tausch = .keiner)
    (hsofort : st.sofortVerkaufenQty.isSome = true → k.buyFirst = false ∧
      ∃ s, st.symbolToClose = some (some s) ∧ s ≠ "") (h : Q st x)
    (hverkauft : ∀ id q s, st.symbolToClose = some (some s) → s ≠ "" →
      Q { st with displacementSellOrderId := some id, displacementSellQty := q }
        { x with tausch := .verkauft id q }) :
    Meets (Schritt k) x (schrittMandantSofortVerkaufen u tenant context st) Q (Abgebrochen k) := by
  unfold schrittMandantSofortVerkaufen
  split
  next oldQty symbolToClose hqty hsymbol =>
    split
    next => exact h
    next =>
      obtain ⟨hfirst, s, hs, hne⟩ := hsofort (by rw [hqty]; rfl)
      obtain rfl : s = symbolToClose := by
        rw [hs] at hsymbol
        exact Option.some.inj hsymbol
      rw [meets_exceptException, meets_bind]
      refine meets_derivedCoid fun coid => ?_
      rw [meets_bind]
      refine meets_checkHalt nofun ?_ (meets_ueberspringe hx)
      rw [meets_bind]
      have hnach (id : Nat) : Vorher { x with tausch := .verkauft id oldQty } := hx.mitTausch nofun
      have hverbucht (id : Nat) {F : Ende → Zwischenstand → Prop}
          (hF : ∀ f, F (.fremd f) { x with tausch := .verkauft id oldQty }) :
          Meets (Schritt k) { x with tausch := .verkauft id oldQty } (do
            let _ ← registerDisplacementLeg u (.verdraengung oldQty) s .sell oldQty tenant.userId
              oldQty
            dienst (.recordTrade s)
            return { st with displacementSellOrderId := some id, displacementSellQty := oldQty })
            Q F := by
        rw [meets_bind]
        refine meets_registerDisplacementLeg fun _ => ?_
        rw [meets_bind]
        exact meets_dienst (fun _ => hverkauft id oldQty s hs hne) hF
      refine meets_sendeDurchsTor rfl (fun r hr => meets_broker fun a => ?_)
        (meets_ueberspringe hx) (fun _ => meets_ueberspringe hx) fun _ => meets_ueberspringe hx
      refine ⟨_, .verdraengung a hfirst hx.eigen htausch hr.qty_le, ?_⟩
      cases a with
      | ok id => exact hverbucht id fun _ => meets_ueberspringe (hnach id)
      | error f =>
          rw [ending_error]
          exact .of_not_massgeblich rfl (meets_ueberspringe (hx.mitTausch nofun)) fun hdup id =>
            ⟨_, .verdraengungUebernommen rfl hdup,
              hverbucht id fun _ => meets_ueberspringe (hnach id)⟩
  next => exact h

/-- The size at the end is positive, and at most what was approved. -/
theorem meets_schrittMandantMenge {event : Signal} {source : Quelle} {st : St}
    {Q : St → Zwischenstand → Prop} (hx : Vorher x)
    (h : ∀ size, 0 < size → (source = .humanApproved → 0 < |event.suggestedQuantity| →
      size ≤ |event.suggestedQuantity|) → Q { st with size } x)
    (hE : st.sizingTrace = none → st.size ≤ 0 → Abgebrochen k (.unboundLocal .sizingTrace) x) :
    Meets (Schritt k) x (schrittMandantMenge event source st) Q (Abgebrochen k) := by
  unfold schrittMandantMenge
  dsimp only
  split
  next hle =>
    rw [meets_bind]
    exact meets_gebunden (fun _ _ => meets_ueberspringe hx) fun hnone =>
      hE hnone (size_nonpos_of_freigegebeneMenge hle)
  next hpos => exact h _ (not_le.mp hpos) (freigegebeneMenge_le st.size)

end

end Absendung
