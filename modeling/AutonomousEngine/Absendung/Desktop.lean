import AutonomousEngine.Absendung.Mandant

/-!
# The order run of the desktop

Without tenants the engine trades the one account of its installation.  The steps
are those of a tenant in another order: the iron dome comes before the
displacement, the order is always a market order, and it is not polled.  Its
slot of the daily budget is given back when the broker rejects it.

A sale reads no field that it has not set.  An exit that the daily budget exempts
has taken no slot, and gives one back all the same.
-/

namespace Absendung

open Basis
open Gateway (Auftrag)

/-! ## The run -/

/-- What the desktop is set up with. -/
structure Desktop where
  activeUid : String
  equity : Rat
  liveRiskManager : Bool
  portfolioManager : Bool

def Desktop.userId (d : Desktop) : String :=
  if d.activeUid = "" then "global" else d.activeUid

/-- What the steps hand on. -/
structure Uebergabe where
  qty : Rat
  heldBrokerQty : Rat := 0
  pcSymbolToClose : Option String := none
  pcOq : Rat := 0
  fbBuyFirst : Bool := false
  fallbackDisplacementSellOrderId : Option Nat := none
  fallbackDisplacementSellQty : Rat := 0
  fbDeferredCloseSymbol : Option String := none
  fbDeferredCloseQty : Rat := 0

/-- What can be sold of a position, and what is held of it. -/
def verkaufbareMenge : Except Fremdfehler Position → Rat
  | .ok pos => pos.qty
  | .error _ => 0

def gehalteneMenge : Except Fremdfehler Position → Rat
  | .ok pos => |pos.qty|
  | .error _ => 0

def schrittVerkaufsmenge (event : Signal) : Lauf Uebergabe := do
  let a ← frage (.bestand event.symbol)
  return { qty := verkaufbareMenge a, heldBrokerQty := gehalteneMenge a }

/-- A suggested quantity, as far as sizing allows it. -/
def bemesseneMenge (event : Signal) (maxAllowedQty : Rat) : Rat :=
  if 0 < event.suggestedQuantity then min event.suggestedQuantity maxAllowedQty else maxAllowedQty

/-- The size of a purchase, zero where sizing raises. -/
def schrittBemessung (event : Signal) : Lauf Rat :=
  exceptException (do
      let _ ← dienst .getAccount
      let bemessung ← dienst .calculatePositionSize
      let qty := bemesseneMenge event bemessung.size
      if 0 < qty then
        if ← dienst (.immaterialEntry qty) then
          frage .auditSkipped
          return 0
        else return qty
      else return qty)
    fun _ => return 0

/-- The quantity of the order, and what is known to be held. -/
def desktopMenge (d : Desktop) (event : Signal) : Lauf Uebergabe :=
  match event.seite with
  | .sell =>
      if event.suggestedQuantity ≤ 0 then schrittVerkaufsmenge event
      else return { qty := event.suggestedQuantity }
  | .buy =>
      if d.liveRiskManager then do
        let qty ← schrittBemessung event
        return { qty }
      else return { qty := event.suggestedQuantity }

/-- The guard before earnings, which sets the quantity to zero. -/
def schrittDesktopEarnings (st : Uebergabe) : Lauf Uebergabe :=
  if 0 < st.qty then do
    if ← dienst .earningsGuard then
      frage .auditSkipped
      return { st with qty := 0 }
    else return st
  else return st

/-- The portfolio manager, whose errors let a purchase pass without a displacement. -/
def schrittDesktopVerdraengung (d : Desktop) (event : Signal) : Lauf (Option String) :=
  if event.seite = .buy ∧ d.portfolioManager = true then
    exceptException (do
        let entscheid ← dienst .shouldOpenNewPosition
        if entscheid.shouldOpen then return entscheid.symbolToClose
        else
          dienst .logDecision
          ueberspringe)
      fun _ => return none
  else return none

def schrittDesktopVerkaufstor (d : Desktop) (event : Signal) : Lauf Unit :=
  if event.seite = .sell ∧ Verkauf.classifyExitKind event.toSignalEvent ≠ some .risk ∧
      d.portfolioManager = true then do
    let ok ← exceptException (dienst (.canSellPosition event.symbol)) fun _ => return false
    if ok then return () else ueberspringe
  else return ()

/-- What is held for compliance, which looks for itself where nothing is known. -/
def heldQty (event : Signal) (heldBrokerQty : Rat) : Lauf Rat :=
  match event.seite with
  | .buy => return 0
  | .sell =>
      if heldBrokerQty ≤ 0 then do
        let a ← frage (.bestand event.symbol)
        return gehalteneMenge a
      else return heldBrokerQty

def desktopOrder (d : Desktop) (event : Signal) (qty held : Rat) : Verkauf.ComplianceOrder :=
  Verkauf.complianceOrder event.toSignalEvent qty held d.userId

/-- The iron dome, which reserves a slot. -/
def schrittCompliance (u : Umfeld) (d : Desktop) (event : Signal) (st : Uebergabe) : Lauf Bool :=
  if u.complianceGuardian then do
    let held ← heldQty event st.heldBrokerQty
    let order := desktopOrder d event st.qty held
    if ← dienst (.checkOrder order) then
      if dustFloorSkipsExit u event st.qty held d.equity then return false
      else if ← dienst (.checkTrade order .ai) then
        recordTrade u order none
        return true
      else return false
    else return false
  else return true

def schrittDesktopAuftrag (u : Umfeld) (event : Signal) (st : Uebergabe) : Lauf Auftrag := do
  let coid ← auftragsCoid u event.kontext
  let req := marketOrderRequest event.symbol st.qty event.seite (some coid)
  if event.isProtectiveExit then return req
  else
    checkHalt .auftrag
    return req

/-- Whether a displacement of a position is paid for. -/
def pruefeKaufkraft (u : Umfeld) (event : Signal) (st : Uebergabe) (konto : Konto)
    (alt : Position) : Lauf Uebergabe :=
  if 0 < alt.qty then
    let available := displacementAvailableBp u.displacementBuyFirst konto.buyingPower
      (alt.qty * alt.currentPrice) konto.multiplier
    if available < st.qty * event.kontext.currentPrice then ueberspringe
    else return { st with pcOq := alt.qty, fbBuyFirst := u.displacementBuyFirst }
  else return st

/-- The buying power for a displacement, whose errors let the purchase pass without
it. -/
def schrittDesktopKaufkraft (u : Umfeld) (event : Signal) (st : Uebergabe) : Lauf Uebergabe :=
  match st.pcSymbolToClose with
  | none => return st
  | some symbolToClose =>
      if symbolToClose = "" then return st
      else
        exceptException (do
            let konto ← dienst .getAccount
            match ← liefere (← frage (.verdraengter symbolToClose)) with
            | none => return st
            | some alt => pruefeKaufkraft u event st konto alt)
          fun _ => return st

/-- The sale before the purchase.  What is raised after it is at the broker leaves its
order in the state. -/
def verkaufeSofort (u : Umfeld) (d : Desktop) (event : Signal) (st : Uebergabe)
    (symbolToClose : String) : Lauf Uebergabe := do
  let coid ← derivedCoid u event.kontext .displacement 0
  let request := marketOrderRequest symbolToClose st.pcOq .sell (some coid)
  let a : Absende :=
    { symbol := symbolToClose, seite := .sell, qty := st.pcOq, userId := d.userId
      decisionId := event.kontext.decisionId, intentKind := some .displacement }
  if u.shadowMode then
    let _ ← sendeDurchsTor u .dryRun (.verdraengung st.pcOq) request a
    exceptException (dienst (.recordTrade symbolToClose)) fun _ => return ()
    return st
  else
    checkHalt .vorVerdraengung
    let sellOrder ← sendeDurchsTor u .broker (.verdraengung st.pcOq) request a
    exceptException (do
        let _ ← registerDisplacementLeg u (.verdraengung st.pcOq) symbolToClose .sell st.pcOq
          d.userId st.pcOq
        dienst (.recordTrade symbolToClose))
      fun _ => return ()
    return { st with fallbackDisplacementSellOrderId := some sellOrder
                     fallbackDisplacementSellQty := st.pcOq }

/-- The sale of the displaced position, deferred or at once.  Its errors let the
purchase pass. -/
def schrittDesktopVerdraengungSell (u : Umfeld) (d : Desktop) (event : Signal) (st : Uebergabe) :
    Lauf Uebergabe :=
  match st.pcSymbolToClose with
  | none => return st
  | some symbolToClose =>
      if symbolToClose ≠ "" ∧ 0 < st.pcOq then
        if st.fbBuyFirst then
          return { st with fbDeferredCloseSymbol := some symbolToClose
                           fbDeferredCloseQty := st.pcOq }
        else exceptException (verkaufeSofort u d event st symbolToClose) fun _ => return st
      else return st

def Signal.desktopAbsende (event : Signal) (d : Desktop) (qty : Rat) : Absende where
  symbol := event.symbol
  seite := event.seite
  qty
  userId := d.userId
  decisionId := event.kontext.decisionId
  isProtectiveExit := event.isProtectiveExit

def verkaufeDanach (u : Umfeld) (d : Desktop) (event : Signal) (st : Uebergabe) : Lauf Unit :=
  match st.fbDeferredCloseSymbol with
  | none => return ()
  | some symbol =>
      exceptException (do
          checkHalt .vorAufgeschoben
          let _ ← submitDeferredDisplacementSell u .broker d.userId symbol st.fbDeferredCloseQty
            event.kontext.decisionId)
        fun _ => return ()

/-- Takes back the sale before the purchase. -/
def nimmDesktopVerkaufZurueck (u : Umfeld) (d : Desktop) (event : Signal) (st : Uebergabe) :
    Lauf Unit :=
  match st.pcSymbolToClose, st.fallbackDisplacementSellOrderId with
  | some symbolToClose, some orderId =>
      if symbolToClose = "" then return ()
      else
        recoverDisplacement u d.userId symbolToClose (some orderId) st.fallbackDisplacementSellQty
          event.kontext
  | _, _ => return ()

/-- Sends the order, in shadow mode to the dry run. -/
def schrittAbsenden (u : Umfeld) (d : Desktop) (event : Signal) (st : Uebergabe) (req : Auftrag) :
    Lauf Nat := do
  if u.shadowMode then
    sendeDurchsTor u .dryRun (.auftrag st.qty false) req (event.desktopAbsende d st.qty)
  else
    if !event.isProtectiveExit then checkHalt .grenze
    exceptApiError (do
        let order ← sendeDurchsTor u .broker (.auftrag st.qty false) req
          (event.desktopAbsende d st.qty)
        verkaufeDanach u d event st
        return order)
      fun submitErr => do
        nimmDesktopVerkaufZurueck u d event st
        if u.complianceGuardian = true ∧ istAblehnung submitErr = true then
          frage (.slotFreigeben .abgelehnt)
        throw submitErr

def schrittNachbuchen (d : Desktop) (event : Signal) : Lauf Unit :=
  if d.portfolioManager then
    exceptException (dienst (.recordTrade event.symbol)) fun _ => return ()
  else return ()

/-- The steps of an order that is approved. -/
def desktopAbgang (u : Umfeld) (d : Desktop) (event : Signal) (st : Uebergabe) : Lauf Unit := do
  let req ← schrittDesktopAuftrag u event st
  let st ← schrittDesktopKaufkraft u event st
  let st ← schrittDesktopVerdraengungSell u d event st
  let _ ← schrittAbsenden u d event st req
  schrittNachbuchen d event

/-- The steps of an order over some quantity. -/
def desktopSchritte (u : Umfeld) (d : Desktop) (event : Signal) (st : Uebergabe) : Lauf Unit := do
  let pcSymbolToClose ← schrittDesktopVerdraengung d event
  if ← dienst (.hitlHoldsOrder st.qty) then throw .vorDemBroker
  schrittDesktopVerkaufstor d event
  if ← schrittCompliance u d event st then desktopAbgang u d event { st with pcSymbolToClose }

def uebergabe (u : Umfeld) (d : Desktop) (event : Signal) : Lauf Unit := do
  let _ ← dienst (.brokerZugangFuer d.userId)
  if d.portfolioManager then
    exceptException (dienst .portfolioManager) fun _ => return ()
  let st ← desktopMenge d event
  let st ← schrittDesktopEarnings st
  if 0 < st.qty then desktopSchritte u d event st
  else frage .auditSkipped

/-- What a run that breaks off still does. -/
def schrittUebergabeFehler : Ende → Lauf Unit
  | .vorDemBroker => return ()
  | e => do
      frage (.fehler e)
      frage .auditSkipped

def processSignalEvent (u : Umfeld) (d : Desktop) (event : Signal) : Lauf Unit :=
  tryCatch (uebergabe u d event) schrittUebergabeFehler

/-! ## What it asks -/

/-- Whether the daily budget exempts an order. -/
def ausgenommen (u : Umfeld) (d : Desktop) (event : Signal) (qty held : Rat) : Bool :=
  u.allowRiskReducingExits && Verkauf.isRiskReducingExit (desktopOrder d event qty held)

/-- Whether it does so with a position.  Without a suggested quantity all of it is
sold. -/
def ausgenommenMit (u : Umfeld) (d : Desktop) (event : Signal)
    (a : Except Fremdfehler Position) : Bool :=
  ausgenommen u d event
    (if event.suggestedQuantity ≤ 0 then verkaufbareMenge a else event.suggestedQuantity)
    (gehalteneMenge a)

/-- What is fixed for a run of the desktop. -/
def desktopRahmen (u : Umfeld) (d : Desktop) (event : Signal) : Rahmen where
  seite := event.seite
  buyFirst := u.displacementBuyFirst
  ausgenommen := ausgenommenMit u d event

/-- A run that has sent nothing. -/
structure Unterwegs (x : Zwischenstand) : Prop extends Vorher x where
  tausch : x.tausch = .keiner
  erstattet : x.erstattet = false
  belegt : x.belegt = false

/-- A run with an order over some quantity.  The summary says whether the order is
exempt, unless a sale with a suggested quantity has not looked at its position. -/
structure Gemessen (u : Umfeld) (d : Desktop) (event : Signal) (qty held : Rat)
    (x : Zwischenstand) : Prop extends Unterwegs x where
  uebersprungen : x.uebersprungen = false
  bestand : event.seite = .sell → (held ≤ 0 ∧ 0 < qty ∧ qty = event.suggestedQuantity) ∨
    (0 < held ∧ x.ausgenommen = ausgenommen u d event qty held)

/-- A run that is about to send its order.  Its slot is reserved, unless the order is
exempt. -/
structure Absendebereit (u : Umfeld) (st : Uebergabe) (x : Zwischenstand) : Prop
    extends Vorher x where
  uebersprungen : x.uebersprungen = false
  erstattet : x.erstattet = false
  platz : u.complianceGuardian = true → x.belegt = true ∨ x.ausgenommen = true
  verkauft : ∀ id, st.fallbackDisplacementSellOrderId = some id →
    x.tausch = .verkauft id st.fallbackDisplacementSellQty
  deferred : st.fbDeferredCloseSymbol.isSome = true → u.displacementBuyFirst = true

section

variable {u : Umfeld} {d : Desktop} {event : Signal} {x : Zwischenstand} {st : Uebergabe}

theorem Unterwegs.mit (hx : Unterwegs x) (leer ausgenommen uebersprungen : Bool) :
    Unterwegs { x with leer, ausgenommen, uebersprungen } :=
  ⟨⟨hx.eigen, hx.fehler, hx.zurueck⟩, hx.tausch, hx.erstattet, hx.belegt⟩

theorem Unterwegs.uebersprungen (hx : Unterwegs x) : Unterwegs { x with uebersprungen := true } :=
  hx.mit x.leer x.ausgenommen true

/-- The record of a signal that was not executed. -/
theorem meets_auditSkipped {k : Rahmen} {Q : Unit → Zwischenstand → Prop}
    {E : Ende → Zwischenstand → Prop} (hx : x.eigen.erhalten = false)
    (h : Q () { x with uebersprungen := true }) :
    Meets (Schritt k) x (frage .auditSkipped) Q E :=
  meets_frage fun _ => ⟨_, .uebersprungen (.inl hx), h⟩

theorem Vorher.erhalten (hx : Vorher x) : x.eigen.erhalten = false :=
  hx.eigen ▸ rfl

/-- A service whose errors are swallowed. -/
theorem meets_dienst_geschluckt {k : Rahmen} {d : Dienst} {Q : d.Antwort → Zwischenstand → Prop}
    {E : Ende → Zwischenstand → Prop} {ersatz : d.Antwort} (h : ∀ a, Q a x) :
    Meets (Schritt k) x (exceptException (dienst d) fun _ => return ersatz) Q E := by
  rw [meets_exceptException]
  exact meets_dienst h fun _ => h ersatz

theorem meets_schrittBemessung {k : Rahmen} {Q : Rat → Zwischenstand → Prop}
    {E : Ende → Zwischenstand → Prop} (hx : Vorher x) (h : ∀ qty, Q qty x)
    (hnull : Q 0 { x with uebersprungen := true }) :
    Meets (Schritt k) x (schrittBemessung event) Q E := by
  rw [schrittBemessung, meets_exceptException, meets_bind]
  refine meets_dienst (fun _ => ?_) fun _ => h 0
  rw [meets_bind]
  refine meets_dienst (fun bemessung => ?_) fun _ => h 0
  dsimp only
  split
  next =>
    rw [meets_bind]
    refine meets_dienst (fun klein => ?_) fun _ => h 0
    split
    next =>
      rw [meets_bind]
      exact meets_auditSkipped hx.erhalten hnull
    next => exact h _
  next => exact h _

/-- A position that can be sold is held. -/
theorem gehalteneMenge_pos {a : Except Fremdfehler Position} (h : 0 < verkaufbareMenge a) :
    0 < gehalteneMenge a := by
  cases a with
  | ok pos => exact abs_pos.mpr h.ne'
  | error f => exact absurd h (lt_irrefl 0)

theorem meets_desktopMenge {Q : Uebergabe → Zwischenstand → Prop}
    {E : Ende → Zwischenstand → Prop} (hx : Unterwegs x) (hueber : x.uebersprungen = false)
    (h : ∀ qty held y, Unterwegs y → (0 < qty → Gemessen u d event qty held y) →
      Q { qty, heldBrokerQty := held } y) :
    Meets (Schritt (desktopRahmen u d event)) x (desktopMenge d event) Q E := by
  unfold desktopMenge
  cases hseite : event.seite with
  | sell =>
    dsimp only
    split
    next hle =>
      rw [schrittVerkaufsmenge, meets_bind]
      refine meets_frage fun a => ⟨_, .bestand a hx.eigen, ?_⟩
      have hmit : ausgenommenMit u d event a =
          ausgenommen u d event (verkaufbareMenge a) (gehalteneMenge a) := by
        rw [ausgenommenMit, if_pos hle]
      refine h _ _ _ (hx.mit _ _ _) fun hpos => ⟨hx.mit _ _ _, hueber, fun _ => .inr ⟨?_, hmit⟩⟩
      exact gehalteneMenge_pos hpos
    next =>
      exact h _ _ x hx fun hpos => ⟨hx, hueber, fun _ => .inl ⟨le_rfl, hpos, rfl⟩⟩
  | buy =>
    have hkauf (qty : Rat) : Q { qty } x :=
      h qty 0 x hx fun _ => ⟨hx, hueber, fun hs => by rw [hseite] at hs; cases hs⟩
    dsimp only
    split
    next =>
      rw [meets_bind]
      exact meets_schrittBemessung hx.toVorher hkauf
        (h 0 0 _ hx.uebersprungen fun hpos => absurd hpos (lt_irrefl 0))
    next => exact hkauf _

theorem meets_schrittDesktopEarnings {k : Rahmen} {Q : Uebergabe → Zwischenstand → Prop}
    (hx : Vorher x) (h : Q st x)
    (hnull : Q { st with qty := 0 } { x with uebersprungen := true }) :
    Meets (Schritt k) x (schrittDesktopEarnings st) Q (Abgebrochen k) := by
  unfold schrittDesktopEarnings
  split
  next =>
    rw [meets_bind]
    refine meets_dienst_vorher hx fun veto => ?_
    split
    next =>
      rw [meets_bind]
      exact meets_auditSkipped hx.erhalten hnull
    next => exact h
  next => exact h

theorem meets_schrittDesktopVerdraengung {k : Rahmen} {Q : Option String → Zwischenstand → Prop}
    (hx : Vorher x) (h : ∀ symbol, Q symbol x) :
    Meets (Schritt k) x (schrittDesktopVerdraengung d event) Q (Abgebrochen k) := by
  unfold schrittDesktopVerdraengung
  split
  next =>
    rw [meets_exceptException, meets_bind]
    refine meets_dienst (fun entscheid => ?_) fun _ => h none
    split
    next => exact h _
    next =>
      rw [meets_bind]
      exact meets_dienst (fun _ => meets_ueberspringe_of hx fun _ hy => hy) fun _ => h none
  next => exact h none

theorem meets_schrittDesktopVerkaufstor {k : Rahmen} {Q : Unit → Zwischenstand → Prop}
    (hx : Vorher x) (h : Q () x) :
    Meets (Schritt k) x (schrittDesktopVerkaufstor d event) Q (Abgebrochen k) := by
  unfold schrittDesktopVerkaufstor
  split
  next =>
    rw [meets_bind]
    refine meets_dienst_geschluckt fun ok => ?_
    split
    next => exact h
    next => exact meets_ueberspringe hx
  next => exact h

/-- After the look at what is held the summary says of a sale whether it is exempt. -/
theorem meets_heldQty {qty held : Rat} {Q : Rat → Zwischenstand → Prop}
    {E : Ende → Zwischenstand → Prop} (hx : Gemessen u d event qty held x)
    (h : ∀ held' y, Unterwegs y → y.uebersprungen = false →
      (event.seite = .sell → y.ausgenommen = ausgenommen u d event qty held') → Q held' y) :
    Meets (Schritt (desktopRahmen u d event)) x (heldQty event held) Q E := by
  unfold heldQty
  cases hseite : event.seite with
  | buy => exact h 0 x hx.toUnterwegs hx.uebersprungen fun hs => by rw [hseite] at hs; cases hs
  | sell =>
    dsimp only
    split
    next hle =>
      obtain ⟨-, hpos, hqty⟩ | ⟨hheld, -⟩ := hx.bestand hseite
      · rw [meets_bind]
        refine meets_frage fun a => ⟨_, .bestand a hx.eigen, ?_⟩
        refine h _ _ (hx.toUnterwegs.mit _ _ _) hx.uebersprungen fun _ => ?_
        show ausgenommenMit u d event a = _
        rw [ausgenommenMit, if_neg (not_le.mpr (hqty ▸ hpos)), hqty]
      · exact absurd hle (not_le.mpr hheld)
    next hgt =>
      refine h held x hx.toUnterwegs hx.uebersprungen fun hs => ?_
      obtain ⟨hle, -⟩ | ⟨-, haus⟩ := hx.bestand hs
      · exact absurd hle hgt
      · exact haus

/-- An order that passes the iron dome has its slot, or is exempt. -/
theorem meets_schrittCompliance {Q : Bool → Zwischenstand → Prop}
    (hx : Gemessen u d event st.qty st.heldBrokerQty x)
    (h : ∀ y, Vorher y → y.uebersprungen = false → y.erstattet = false → y.tausch = .keiner →
      (u.complianceGuardian = true → y.belegt = true ∨ y.ausgenommen = true) → Q true y)
    (hno : ∀ y, Q false y) :
    Meets (Schritt (desktopRahmen u d event)) x (schrittCompliance u d event st) Q
      (Abgebrochen (desktopRahmen u d event)) := by
  unfold schrittCompliance
  split
  next =>
    rw [meets_bind]
    refine meets_heldQty hx fun held y hy hueber haus => ?_
    dsimp only
    rw [meets_bind]
    refine meets_dienst_vorher hy.toVorher fun ok => ?_
    split
    next =>
      split
      next => exact hno y
      next =>
        rw [meets_bind]
        refine meets_dienst_vorher hy.toVorher fun ok' => ?_
        split
        next =>
          rw [meets_bind]
          refine meets_recordTrade hy.belegt hy.eigen (fun hallow hexit => ?_) ?_
          · refine h y hy.toVorher hueber hy.erstattet hy.tausch fun _ => .inr ?_
            cases hseite : event.seite with
            | sell =>
                rw [haus hseite, ausgenommen, hallow, hexit]
                rfl
            | buy =>
                -- only a sale is exempt
                simp [Verkauf.isRiskReducingExit, desktopOrder, Verkauf.complianceOrder,
                  Signal.toSignalEvent, hseite, Seite.action] at hexit
          · exact h { y with belegt := true } ⟨hy.eigen, hy.fehler, hy.zurueck⟩ hueber hy.erstattet
              hy.tausch fun _ => .inl rfl
        next => exact hno y
    next => exact hno y
  next hg => exact h x hx.toVorher hx.uebersprungen hx.erstattet hx.tausch fun hg' => absurd hg' hg

theorem meets_schrittDesktopAuftrag {k : Rahmen} {Q : Auftrag → Zwischenstand → Prop}
    (hx : Vorher x) (h : ∀ req, req.qty = st.qty → Q req x) :
    Meets (Schritt k) x (schrittDesktopAuftrag u event st) Q (Abgebrochen k) := by
  rw [schrittDesktopAuftrag, meets_bind]
  refine meets_auftragsCoid fun coid _ => ?_
  dsimp only
  split
  next => exact h _ rfl
  next =>
    rw [meets_bind]
    exact meets_checkHalt nofun (h _ rfl) (hx.abgebrochen rfl)

/-- A displacement that is paid for is deferred as configured. -/
theorem meets_schrittDesktopKaufkraft {k : Rahmen} {Q : Uebergabe → Zwischenstand → Prop}
    (hx : Vorher x) (h : Q st x)
    (hpaid : ∀ pcOq, Q { st with pcOq, fbBuyFirst := u.displacementBuyFirst } x) :
    Meets (Schritt k) x (schrittDesktopKaufkraft u event st) Q (Abgebrochen k) := by
  unfold schrittDesktopKaufkraft
  split
  next => exact h
  next symbol _ =>
    split
    next => exact h
    next =>
      rw [meets_exceptException, meets_bind]
      refine meets_dienst (fun konto => ?_) fun _ => h
      rw [meets_bind]
      refine meets_still rfl fun a => ?_
      rw [meets_bind, meets_liefere]
      cases a with
      | error f => exact h
      | ok alt =>
        cases alt with
        | none => exact h
        | some alt =>
          show Meets (Schritt k) x (pruefeKaufkraft u event st konto alt) _ _
          unfold pruefeKaufkraft
          split
          next =>
            dsimp only
            split
            next => exact meets_ueberspringe_of hx fun _ hy => hy
            next => exact hpaid _
          next => exact h

end

/-! ## The submission -/

section

variable {u : Umfeld} {d : Desktop} {event : Signal} {x : Zwischenstand} {st : Uebergabe}

theorem Absendebereit.mitTausch (hx : Absendebereit u st x) {tausch : Tausch}
    (htausch : Zurueckgenommen tausch x.gehalten) (st' : Uebergabe)
    (hverkauft : ∀ id, st'.fallbackDisplacementSellOrderId = some id →
      tausch = .verkauft id st'.fallbackDisplacementSellQty)
    (hdeferred : st'.fbDeferredCloseSymbol.isSome = true → u.displacementBuyFirst = true) :
    Absendebereit u st' { x with tausch } :=
  ⟨hx.toVorher.mitTausch htausch, hx.uebersprungen, hx.erstattet, hx.platz, hverkauft, hdeferred⟩

/-- The sale before the purchase.  If it is at the broker, the state has its order and
its size. -/
theorem meets_verkaufeSofort {symbol : String} {Q : Uebergabe → Zwischenstand → Prop}
    {E : Ende → Zwischenstand → Prop} (hfirst : u.displacementBuyFirst = false)
    (hx : Absendebereit u st x) (htausch : x.tausch = .keiner)
    (hid : st.fallbackDisplacementSellOrderId = none)
    (h : ∀ st' y, st'.qty = st.qty → Absendebereit u st' y → Q st' y)
    (hE : ∀ e y, e ≠ .vorDemBroker → Absendebereit u st y → E e y) :
    Meets (Schritt (desktopRahmen u d event)) x (verkaufeSofort u d event st symbol) Q E := by
  rw [verkaufeSofort, meets_bind]
  refine meets_derivedCoid fun coid => ?_
  dsimp only
  split
  next =>
    rw [meets_bind]
    have hbuch : Meets (Schritt (desktopRahmen u d event)) x (do
        exceptException (dienst (.recordTrade symbol)) fun _ => return ()
        return st : Lauf Uebergabe) Q E := by
      rw [meets_bind]
      exact meets_dienst_geschluckt fun _ => h st x rfl hx
    exact meets_sendeDurchsTor rfl (fun r _ => meets_dryRun fun id => ⟨x, .still id rfl, hbuch⟩)
      (hE _ x nofun hx) (fun _ => hE _ x nofun hx) fun _ => hE _ x nofun hx
  next =>
    rw [meets_bind]
    refine meets_checkHalt nofun ?_ (hE _ x nofun hx)
    rw [meets_bind]
    have hzurueck (id : Nat) : Zurueckgenommen (.verkauft id st.pcOq) x.gehalten := nofun
    have hverkauft (id : Nat) : Meets (Schritt (desktopRahmen u d event))
        { x with tausch := .verkauft id st.pcOq } (do
          exceptException (do
              let _ ← registerDisplacementLeg u (.verdraengung st.pcOq) symbol .sell st.pcOq
                d.userId st.pcOq
              dienst (.recordTrade symbol))
            fun _ => return ()
          return { st with fallbackDisplacementSellOrderId := some id
                           fallbackDisplacementSellQty := st.pcOq } : Lauf Uebergabe) Q E := by
      have hQ := h { st with fallbackDisplacementSellOrderId := some id
                             fallbackDisplacementSellQty := st.pcOq } _ rfl
        (hx.mitTausch (hzurueck id) _ (fun id' hid' => by obtain rfl := Option.some.inj hid'; rfl)
          hx.deferred)
      rw [meets_bind, meets_exceptException, meets_bind]
      exact meets_registerDisplacementLeg fun _ => meets_dienst (fun _ => hQ) fun _ => hQ
    refine meets_sendeDurchsTor rfl (fun r hr => meets_broker fun a => ?_) (hE _ x nofun hx)
      (fun _ => hE _ x nofun hx) fun _ => hE _ x nofun hx
    refine ⟨_, .verdraengung a hfirst hx.eigen htausch hr.qty_le, ?_⟩
    cases a with
    | ok id => exact hverkauft id
    | error f =>
        rw [ending_error]
        have hnach : Zurueckgenommen (.gescheitert st.pcOq f) x.gehalten := nofun
        refine .of_not_massgeblich rfl (hE _ _ nofun (hx.mitTausch hnach st ?_ hx.deferred))
          fun hdup id => ⟨_, .verdraengungUebernommen rfl hdup, hverkauft id⟩
        intro id' hid'
        rw [hid] at hid'
        cases hid'

theorem meets_schrittDesktopVerdraengungSell {k : Rahmen} {Q : Uebergabe → Zwischenstand → Prop}
    (hk : k = desktopRahmen u d event) (hx : Absendebereit u st x) (htausch : x.tausch = .keiner)
    (hid : st.fallbackDisplacementSellOrderId = none)
    (hfirst : 0 < st.pcOq → st.fbBuyFirst = u.displacementBuyFirst)
    (h : ∀ st' y, st'.qty = st.qty → Absendebereit u st' y → Q st' y) :
    Meets (Schritt k) x (schrittDesktopVerdraengungSell u d event st) Q (Abgebrochen k) := by
  subst hk
  unfold schrittDesktopVerdraengungSell
  split
  next => exact h st x rfl hx
  next symbol _ =>
    split
    next hverdraengt =>
      obtain ⟨-, hpos⟩ := hverdraengt
      split
      next hdanach =>
        refine h _ x rfl
          ⟨hx.toVorher, hx.uebersprungen, hx.erstattet, hx.platz, hx.verkauft, fun _ => ?_⟩
        rw [← hfirst hpos, hdanach]
      next hdavor =>
        have hfirst' : u.displacementBuyFirst = false := by
          rw [← hfirst hpos]
          simpa using hdavor
        rw [meets_exceptException]
        refine meets_verkaufeSofort hfirst' hx htausch hid h fun e y he hy => ?_
        cases e with
        | vorDemBroker => exact absurd rfl he
        | _ => exact h st y rfl hy
    next => exact h st x rfl hx

/-- The deferred sale follows an order at the broker. -/
theorem meets_verkaufeDanach {k : Rahmen} {Q : Unit → Zwischenstand → Prop}
    {E : Ende → Zwischenstand → Prop} {id : Nat} (hx : x.eigen = .da id)
    (hdeferred : st.fbDeferredCloseSymbol.isSome = true → k.buyFirst = true)
    (h : ∀ frei, Q () { x with frei }) :
    Meets (Schritt k) x (verkaufeDanach u d event st) Q E := by
  unfold verkaufeDanach
  split
  next =>
    have hx' := h x.frei
    exact hx'
  next symbol hsymbol =>
    rw [meets_exceptException, meets_bind, checkHalt, istHalted, meets_bind]
    refine meets_frage fun halted => ⟨_, .haltAufgeschoben halted hx, ?_⟩
    cases halted with
    | true => exact h false
    | false =>
        rw [hsymbol] at hdeferred
        exact meets_bind.mpr (meets_submitDeferredDisplacementSell
          (fun _ => ⟨hdeferred rfl, rfl⟩) fun _ => h true)

theorem meets_nimmDesktopVerkaufZurueck {k : Rahmen} {Q : Unit → Zwischenstand → Prop}
    {E : Ende → Zwischenstand → Prop}
    (hverkauft : ∀ id, st.fallbackDisplacementSellOrderId = some id →
      x.tausch = .verkauft id st.fallbackDisplacementSellQty)
    (hzurueck : Zurueckgenommen x.tausch x.gehalten)
    (h : ∀ tausch gehalten, Zurueckgenommen tausch gehalten → Q () { x with tausch, gehalten }) :
    Meets (Schritt k) x (nimmDesktopVerkaufZurueck u d event st) Q E := by
  have hunveraendert : Q () x := by
    have hx := h x.tausch x.gehalten hzurueck
    exact hx
  unfold nimmDesktopVerkaufZurueck
  split
  next symbol id _ hid =>
    split
    next => exact hunveraendert
    next hne => exact meets_recoverDisplacement hne (hverkauft id hid) h
  next => exact hunveraendert

/-- A submission on the desktop.  A rejection gives the slot back that was reserved, or
that the exempt order has not needed. -/
theorem meets_schrittAbsenden {k : Rahmen} {req : Auftrag} {Q : Nat → Zwischenstand → Prop}
    (hk : k = desktopRahmen u d event) (hx : Absendebereit u st x) (hqty : req.qty = st.qty)
    (h : ∀ id y, Q id y) :
    Meets (Schritt k) x (schrittAbsenden u d event st req) Q (Abgebrochen k) := by
  subst hk
  have hab {e : Ende} (he : e.ungebunden = false) : Abgebrochen (desktopRahmen u d event) e x :=
    hx.toVorher.abgebrochen he
  unfold schrittAbsenden
  split
  next =>
    exact meets_sendeDurchsTor hqty
      (fun r _ => meets_dryRun fun id => ⟨_, .schatten id hx.eigen hx.uebersprungen, h id _⟩)
      (hab rfl) (fun _ => hab rfl) fun _ => hab rfl
  next =>
    have hsenden : Meets (Schritt (desktopRahmen u d event)) x (exceptApiError (do
        let order ← sendeDurchsTor u .broker (.auftrag st.qty false) req
          (event.desktopAbsende d st.qty)
        verkaufeDanach u d event st
        return order)
      fun submitErr => do
        nimmDesktopVerkaufZurueck u d event st
        if u.complianceGuardian = true ∧ istAblehnung submitErr = true then
          frage (.slotFreigeben .abgelehnt)
        throw submitErr) Q (Abgebrochen (desktopRahmen u d event)) := by
      rw [meets_exceptApiError, meets_bind]
      refine meets_sendeAuftrag hx.eigen hx.uebersprungen hqty nofun nofun nofun (fun id => ?_)
        (fun e he hfremd => ?_) fun f => ?_
      · rw [meets_bind]
        exact meets_verkaufeDanach rfl hx.deferred fun frei => h id _
      · cases e with
        | fremd f => exact absurd rfl (hfremd f)
        | _ => exact hab he
      · cases f with
        | sonst => exact ⟨hx.fehler, trivial, .inl rfl, hx.zurueck⟩
        | apiError s b =>
          dsimp only
          rw [meets_bind]
          refine meets_nimmDesktopVerkaufZurueck hx.verkauft hx.zurueck
            fun tausch gehalten hzurueck => ?_
          split
          next hrueck =>
            obtain ⟨hguard, habl⟩ := hrueck
            obtain ⟨s', b', he, h400, h500⟩ := istAblehnung_iff.mp habl
            obtain ⟨rfl, rfl⟩ := Fremdfehler.apiError.inj (Ende.fremd.inj he)
            rw [meets_bind]
            exact meets_frage fun _ => ⟨_, .abgelehnt hx.erstattet (hx.platz hguard) rfl rfl h400 h500,
              ⟨hx.fehler, trivial, .inl rfl, hzurueck⟩⟩
          next => exact ⟨hx.fehler, trivial, .inl rfl, hzurueck⟩
    split
    next =>
      rw [meets_bind]
      exact meets_checkHalt nofun hsenden (hab rfl)
    next => exact hsenden

/-! ## The run -/

theorem meets_desktopAbgang {k : Rahmen} {Q : Unit → Zwischenstand → Prop}
    (hk : k = desktopRahmen u d event) (hx : Absendebereit u st x) (htausch : x.tausch = .keiner)
    (hid : st.fallbackDisplacementSellOrderId = none) (hoq : st.pcOq = 0) (h : ∀ y, Q () y) :
    Meets (Schritt k) x (desktopAbgang u d event st) Q (Abgebrochen k) := by
  rw [desktopAbgang, meets_bind]
  refine meets_schrittDesktopAuftrag hx.toVorher fun req hqty => ?_
  have hsenden (st' : Uebergabe) (y : Zwischenstand) (hqty' : req.qty = st'.qty)
      (hy : Absendebereit u st' y) : Meets (Schritt k) y (do
        let _ ← schrittAbsenden u d event st' req
        schrittNachbuchen d event) Q (Abgebrochen k) := by
    rw [meets_bind]
    refine meets_schrittAbsenden hk hy hqty' fun _ y => ?_
    unfold schrittNachbuchen
    split
    next => exact meets_dienst_geschluckt fun _ => h y
    next => exact h y
  have hverkaufen (st' : Uebergabe) (hqty' : st'.qty = st.qty) (hx' : Absendebereit u st' x)
      (hid' : st'.fallbackDisplacementSellOrderId = none)
      (hfirst : 0 < st'.pcOq → st'.fbBuyFirst = u.displacementBuyFirst) :
      Meets (Schritt k) x (do
        let st ← schrittDesktopVerdraengungSell u d event st'
        let _ ← schrittAbsenden u d event st req
        schrittNachbuchen d event) Q (Abgebrochen k) := by
    rw [meets_bind]
    refine meets_schrittDesktopVerdraengungSell hk hx' htausch hid' hfirst fun st'' y hqty'' hy => ?_
    exact hsenden st'' y (hqty.trans (hqty''.trans hqty').symm) hy
  rw [meets_bind]
  refine meets_schrittDesktopKaufkraft hx.toVorher ?_ fun pcOq => ?_
  · refine hverkaufen st rfl hx hid fun hpos => ?_
    rw [hoq] at hpos
    exact absurd hpos (lt_irrefl 0)
  · exact hverkaufen _ rfl ⟨hx.toVorher, hx.uebersprungen, hx.erstattet, hx.platz, hx.verkauft,
      hx.deferred⟩ hid fun _ => rfl

/-- The steps of an order over some quantity. -/
theorem meets_desktopSchritte {qty held : Rat} (hx : Gemessen u d event qty held x) :
    Meets (Schritt (desktopRahmen u d event)) x
      (desktopSchritte u d event { qty, heldBrokerQty := held }) (fun _ _ => True)
      (Abgebrochen (desktopRahmen u d event)) := by
  rw [desktopSchritte, meets_bind]
  refine meets_schrittDesktopVerdraengung hx.toVorher fun symbol => ?_
  rw [meets_bind]
  refine meets_dienst_vorher hx.toVorher fun wartet => ?_
  split
  next => exact meets_bind.mpr (hx.toVorher.abgebrochen rfl)
  next =>
    rw [meets_bind]
    refine meets_schrittDesktopVerkaufstor hx.toVorher ?_
    rw [meets_bind]
    refine meets_schrittCompliance hx (fun y hy hueber herstattet htausch hplatz => ?_)
      fun y => trivial
    exact meets_desktopAbgang rfl ⟨hy, hueber, herstattet, hplatz, nofun, nofun⟩ htausch rfl rfl
      fun _ => trivial

theorem meets_uebergabe :
    Meets (Schritt (desktopRahmen u d event)) {} (uebergabe u d event) (fun _ _ => True)
      (Abgebrochen (desktopRahmen u d event)) := by
  have hx : Unterwegs {} := ⟨⟨rfl, rfl, nofun⟩, rfl, rfl, rfl⟩
  have hnull (y : Zwischenstand) (hy : Vorher y) : Meets (Schritt (desktopRahmen u d event)) y
      (frage .auditSkipped) (fun _ _ => True) (Abgebrochen (desktopRahmen u d event)) :=
    meets_auditSkipped hy.erhalten trivial
  have hmenge : Meets (Schritt (desktopRahmen u d event)) {} (do
      let st ← desktopMenge d event
      let st ← schrittDesktopEarnings st
      if 0 < st.qty then desktopSchritte u d event st
      else frage .auditSkipped) (fun _ _ => True) (Abgebrochen (desktopRahmen u d event)) := by
    rw [meets_bind]
    refine meets_desktopMenge hx rfl fun qty held y hy hpos => ?_
    rw [meets_bind]
    refine meets_schrittDesktopEarnings hy.toVorher ?_ ?_
    · split
      next hqty => exact meets_desktopSchritte (hpos hqty)
      next => exact hnull y hy.toVorher
    · rw [if_neg (lt_irrefl 0)]
      exact hnull _ hy.toVorher.uebersprungen
  rw [uebergabe, meets_bind]
  refine meets_dienst_vorher hx.toVorher fun _ => ?_
  split
  next =>
    rw [meets_bind]
    exact meets_dienst_geschluckt fun _ => hmenge
  next => exact hmenge

end

/-- The order run of the desktop keeps to its protocol. -/
theorem processSignalEvent_follows (u : Umfeld) (d : Desktop) (event : Signal) :
    (processSignalEvent u d event).run.Follows (Schritt (desktopRahmen u d event))
      (fun _ _ => True) {} := by
  have hmeets : Meets (Schritt (desktopRahmen u d event)) {} (processSignalEvent u d event)
      (fun _ _ => True) fun _ _ => True := by
    rw [processSignalEvent, meets_tryCatch]
    refine meets_uebergabe.mono (fun _ _ h => h) fun e y hab => ?_
    have hmelden : Meets (Schritt (desktopRahmen u d event)) y (do
        frage (.fehler e)
        frage .auditSkipped : Lauf Unit) (fun _ _ => True) fun _ _ => True := by
      rw [meets_bind]
      refine meets_frage fun _ => ⟨_, .fehler hab.fehler hab.moeglich, ?_⟩
      exact meets_frage fun _ => ⟨_, .uebersprungen hab.erhalten, trivial⟩
    cases e with
    | vorDemBroker => trivial
    | _ => exact hmelden
  exact follows_run.mpr hmeets

end Absendung
