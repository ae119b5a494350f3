import AutonomousEngine.Absendung.Tor

/-!
# Displacements

A purchase may displace a position.  With `displacementBuyFirst` the position is
sold after the purchase (`submitDeferredDisplacementSell`), and else before.  If
the purchase fails after the sale, the sale is taken back: what is left of it is
cancelled, its fill is asked for, and as much is bought back
(`recoverDisplacement`).  Where the broker does not name the fill, the whole sale
is bought back.

Both legs are shown to the compliance guardian, who does not hold them back.
-/

namespace Absendung

open Basis
open Gateway (Auftrag ComplianceDecision)
open Verkauf (ComplianceOrder IntentKind)

/-! ## The event -/

/-- The decision behind an order. -/
structure Kontext extends Verkauf.DecisionContext where
  decisionId : String
  clientOrderId : String

/-- The key that the decision gives to one of its orders. -/
def derivedCoid (u : Umfeld) (context : Kontext) (leg : IntentKind) (attempt : Nat) :
    Lauf String :=
  match Idempotenz.deriveClientOrderId u.digest context.decisionId (Idempotenz.legText leg)
    attempt with
  | .ok coid => return coid
  | .error _ => frage .uuid4

/-! ## The legs and the compliance guardian -/

/-- The entry in the daily budget, which an exempt exit does not get. -/
def recordTrade (u : Umfeld) (order : ComplianceOrder) (leg : Option Zweck) : Lauf Unit :=
  if u.allowRiskReducingExits && Verkauf.isRiskReducingExit order then return ()
  else frage (.slotBelegen leg)

/-- Shows a leg of a displacement to the guardian. -/
def registerDisplacementLeg (u : Umfeld) (leg : Zweck) (symbol : String) (seite : Seite)
    (qty : Rat) (userId : String) (heldQty : Rat) : Lauf Bool :=
  if u.complianceGuardian then
    exceptException (do
        let order : ComplianceOrder :=
          { symbol, side := seite.action, quantity := qty, price := 0
            userId := if userId = "" then "global" else userId
            heldQty, exitKind := none }
        let ok ← dienst (.checkOrder order)
        recordTrade u order (some leg)
        return ok)
      fun _ => return true
  else return true

/-- The buying power that a displacement may count on. -/
def displacementAvailableBp (buyFirst : Bool) (buyingPower sellValue multiplier : Rat) : Rat :=
  if buyFirst then buyingPower
  else
    let m := if multiplier = 0 then 1 else multiplier
    if m = 1 then buyingPower else buyingPower + sellValue * m

/-! ## The sale after the purchase -/

/-- The decision that the sale is submitted with. -/
def verdraengungsEntscheid (intent : Idempotenz.Intent) (geprueft halted : Bool) :
    ComplianceDecision where
  decisionId := intent.decisionId
  decisionId_ne := intent.decisionId_ne
  approved := geprueft
  reasonCode := if geprueft then .approved else .washTrade
  detail := if geprueft then "" else "vom Guardian beanstandet — Leg laeuft weiter (#2712)"
  halted

/-- Sells the displaced position, and never raises. -/
def submitDeferredDisplacementSell (u : Umfeld) (client : Client) (userId symbol : String)
    (qty : Rat) (decisionId : String) : Lauf Bool :=
  exceptException (do
      let geprueft ← registerDisplacementLeg u .aufgeschoben symbol .sell qty userId qty
      let entscheidung :=
        if decisionId ≠ "" then decisionId else ersatzDecisionId .displacement userId symbol
      let halted ← istHalted .intent
      match bildeIntent entscheidung symbol .sell qty .displacement false halted with
      | none => throw .ungueltigerIntent
      | some intent =>
          let halted ← istHalted .intent
          let _ ← (gatewayFor client .aufgeschoben).submit u.digest (fun _ : Ende => "") intent
            (marketOrderRequest symbol qty .sell none)
            (some (verdraengungsEntscheid intent geprueft halted))
          exceptException (dienst (.recordTrade symbol)) fun _ => return ()
          return true)
    fun _ => return false

/-! ## The recovery -/

/-- The fill of a sale as the broker names it. -/
def verkaufteMenge (orderId : Nat) (qty : Rat) : Lauf Rat := do
  let a ← frage (.getOrderById (.verdraengung qty) orderId)
  match ← liefere a with
  | none => return qty
  | some liveSellOrder =>
      match liesWert liveSellOrder.filledQty with
      | some filledQty => return filledQty
      | none => throw (.fremd .sonst)

/-- Cancels what is left of a sale.  What is to be bought back is its fill, and
without an answer its size. -/
def gefuellteMenge (orderId : Nat) (qty : Rat) : Lauf Rat :=
  exceptException (do
      exceptApiError (do
          let a ← frage (.cancelOrderById (.verdraengung qty) orderId)
          liefere a)
        fun _ => return ()
      verkaufteMenge orderId qty)
    fun _ => return qty

/-- Buys back what a displacement has sold. -/
def recoverDisplacement (u : Umfeld) (userId symbolToClose : String)
    (displacementSellOrderId : Option Nat) (displacementSellQty : Rat) (context : Kontext) :
    Lauf Unit := do
  if symbolToClose = "" then return ()
  let filledQty ←
    match displacementSellOrderId with
    | none => pure displacementSellQty
    | some orderId => gefuellteMenge orderId displacementSellQty
  if filledQty ≤ 0 then return ()
  exceptException (do
      let coid ← derivedCoid u context .displacement 1
      checkHalt .vorRueckkauf
      let _ ← sendeDurchsTor u .broker .rueckkauf
        (marketOrderRequest symbolToClose filledQty .buy (some coid))
        { symbol := symbolToClose, seite := .buy, qty := filledQty, userId
          decisionId := context.decisionId }
      let _ ← registerDisplacementLeg u .rueckkauf symbolToClose .buy filledQty userId 0
      dienst (.recordTrade symbolToClose))
    fun reBuyErr => frage (.kritisch reBuyErr)

/-! ## What displacements ask -/

section

variable {k : Rahmen} {x : Zwischenstand} {u : Umfeld} {E : Ende → Zwischenstand → Prop}

theorem meets_derivedCoid {context : Kontext} {leg : IntentKind} {attempt : Nat}
    {Q : String → Zwischenstand → Prop} (h : ∀ coid, Q coid x) :
    Meets (Schritt k) x (derivedCoid u context leg attempt) Q E := by
  unfold derivedCoid
  split
  next coid _ => exact h coid
  next => exact meets_still rfl h

/-- A leg in the daily budget is not the trade of the event. -/
theorem meets_recordTrade_leg {order : ComplianceOrder} {leg : Zweck}
    {Q : Unit → Zwischenstand → Prop} (h : Q () x) :
    Meets (Schritt k) x (recordTrade u order (some leg)) Q E := by
  unfold recordTrade
  split
  next => exact h
  next => exact meets_still rfl fun _ => h

theorem meets_registerDisplacementLeg {leg : Zweck} {symbol userId : String} {seite : Seite}
    {qty heldQty : Rat} {Q : Bool → Zwischenstand → Prop} (h : ∀ ok, Q ok x) :
    Meets (Schritt k) x (registerDisplacementLeg u leg symbol seite qty userId heldQty) Q E := by
  unfold registerDisplacementLeg
  split
  next =>
    rw [meets_exceptException, meets_bind]
    refine meets_dienst (fun ok => ?_) fun _ => h true
    rw [meets_bind]
    exact meets_recordTrade_leg (h ok)
  next => exact h true

/-- The sale at the broker or the dry run, which leaves the summary as it is. -/
theorem meets_submitOrder_aufgeschoben {client : Client} {r : Auftrag}
    {Q : Nat → Zwischenstand → Prop}
    (hclient : client = .broker → k.buyFirst = true ∧ x.frei = true) (h : ∀ id, Q id x)
    (hE : ∀ f, E (.fremd f) x) :
    Meets (Schritt k) x ((gatewayFor client .aufgeschoben).submitOrder r) Q E := by
  cases client with
  | broker =>
      obtain ⟨hfirst, hfrei⟩ := hclient rfl
      refine meets_broker fun a => ⟨x, .aufgeschoben a hfirst hfrei, ?_⟩
      cases a with
      | ok id => exact h id
      | error f => exact hE f
  | dryRun => exact meets_dryRun fun id => ⟨x, .still id rfl, h id⟩

/-- The trade is recorded, and what goes wrong there is swallowed. -/
theorem meets_verkauftGemeldet {symbol : String} {Q : Bool → Zwischenstand → Prop}
    {E' : Ende → Zwischenstand → Prop} (h : ∀ ok, Q ok x) :
    Meets (Schritt k) x (exceptException (dienst (.recordTrade symbol))
      (fun _ => return ()) >>= fun _ => (return true : Lauf Bool)) Q E' := by
  rw [meets_bind, meets_exceptException]
  exact meets_dienst (fun _ => h true) fun _ => h true

theorem meets_submitDeferredDisplacementSell {client : Client} {userId symbol decisionId : String}
    {qty : Rat} {Q : Bool → Zwischenstand → Prop}
    (hclient : client = .broker → k.buyFirst = true ∧ x.frei = true) (h : ∀ ok, Q ok x) :
    Meets (Schritt k) x (submitDeferredDisplacementSell u client userId symbol qty decisionId)
      Q E := by
  rw [submitDeferredDisplacementSell, meets_exceptException, meets_bind]
  refine meets_registerDisplacementLeg fun geprueft => ?_
  rw [meets_bind]
  refine meets_still rfl fun halted => ?_
  split
  next => exact h false
  next intent _ =>
    rw [meets_bind]
    refine meets_still rfl fun halted' => ?_
    rw [meets_bind, Gateway.OrderGateway.submit, meets_bind, Gateway.meets_submitWithResult]
    refine meets_still rfl fun halted'' => ?_
    split
    next =>
      refine meets_submitOrder_aufgeschoben hclient (fun id => ?_) fun f => ?_
      · exact meets_still rfl fun _ => meets_verkauftGemeldet h
      · exact meets_still rfl fun _ => h false
    next => exact meets_still rfl fun _ => meets_verkauftGemeldet h

/-- What is known of a recovery that has ended: if the broker named a fill, it was
bought back, or a halt has kept the recovery back. -/
def Zurueckgenommen (tausch : Tausch) (gehalten : Bool) : Prop :=
  ∀ id q g, tausch = .gefragt id q (some g) → 0 < g → gehalten = true

theorem zurueckgenommen_keiner {gehalten : Bool} : Zurueckgenommen .keiner gehalten := nofun

theorem zurueckgenommen_verkauft {id : Nat} {q : Rat} {gehalten : Bool} :
    Zurueckgenommen (.verkauft id q) gehalten := nofun

/-- The answer to the query, with the size where it names no fill. -/
theorem meets_verkaufteMenge {id : Nat} {q : Rat} {Q : Rat → Zwischenstand → Prop}
    (htausch : x.tausch = .verkauft id q)
    (h : ∀ m, Q (m.getD q) { x with tausch := .gefragt id q m })
    (hE : ∀ f, E (.fremd f) { x with tausch := .gefragt id q none }) :
    Meets (Schritt k) x (verkaufteMenge id q) Q E := by
  rw [verkaufteMenge, meets_bind]
  refine meets_frage fun a => ⟨_, .verdraengungAbfrage a htausch, ?_⟩
  rw [meets_bind, meets_liefere]
  cases a with
  | error f => exact hE f
  | ok st =>
    cases st with
    | none => exact h none
    | some st =>
      have hgefuellt : gefuellt (.ok (some st)) = liesWert st.filledQty := rfl
      rw [hgefuellt, ending_ok]
      show Meets (Schritt k) _ (match liesWert st.filledQty with
        | some filledQty => (return filledQty : Lauf Rat)
        | none => throw (.fremd .sonst)) Q E
      cases liesWert st.filledQty with
      | none => exact hE .sonst
      | some g => exact h (some g)

theorem meets_gefuellteMenge {id : Nat} {q : Rat} {Q : Rat → Zwischenstand → Prop}
    (htausch : x.tausch = .verkauft id q)
    (h : ∀ tausch m, tausch.ruecknahme = some (id, q, m) →
      (∀ id' q' g, tausch = .gefragt id' q' (some g) → m = some g) →
      Q (m.getD q) { x with tausch }) :
    Meets (Schritt k) x (gefuellteMenge id q) Q E := by
  have hungefragt : Q q x := by
    have hx := h x.tausch none (by rw [htausch]; rfl) (by rw [htausch]; nofun)
    exact hx
  have hgefragt : ∀ m, Q (m.getD q) { x with tausch := .gefragt id q m } := by
    refine fun m => h _ m rfl fun id' q' g hg => ?_
    injection hg
  have habfrage {F : Ende → Zwischenstand → Prop}
      (hF : ∀ f, F (.fremd f) { x with tausch := .gefragt id q none }) :
      Meets (Schritt k) x (verkaufteMenge id q) Q F :=
    meets_verkaufteMenge htausch hgefragt hF
  rw [gefuellteMenge, meets_exceptException, meets_bind, meets_exceptApiError, meets_bind]
  refine meets_frage fun a => ⟨x, .verdraengungStorno a htausch, ?_⟩
  rw [meets_liefere]
  cases a with
  | ok _ => exact habfrage fun f => hgefragt none
  | error f =>
    cases f with
    | apiError s b => exact habfrage fun f => hgefragt none
    | sonst => exact hungefragt

/-- The purchase that takes a sale back.  What keeps it from the broker is a halt. -/
theorem meets_rueckkauf {userId symbol : String} {id : Nat} {q menge : Rat} {m : Option Rat}
    {context : Kontext} {Q : Unit → Zwischenstand → Prop} (hsymbol : symbol ≠ "")
    (hpos : 0 < menge) (htausch : x.tausch.ruecknahme = some (id, q, m)) (hmenge : menge = m.getD q)
    (h : ∀ tausch gehalten, (tausch = x.tausch ∧ gehalten = true ∨ ∃ r, tausch = .gekauft id q m r) →
      Q () { x with tausch, gehalten }) :
    Meets (Schritt k) x (exceptException (do
        let coid ← derivedCoid u context .displacement 1
        checkHalt .vorRueckkauf
        let _ ← sendeDurchsTor u .broker .rueckkauf
          (marketOrderRequest symbol menge .buy (some coid))
          { symbol, seite := .buy, qty := menge, userId, decisionId := context.decisionId }
        let _ ← registerDisplacementLeg u .rueckkauf symbol .buy menge userId 0
        dienst (.recordTrade symbol))
      fun reBuyErr => frage (.kritisch reBuyErr)) Q E := by
  have hhalt : Meets (Schritt k) x (frage (.kritisch .tradingHalted)) Q E :=
    meets_frage fun _ => ⟨_, .kritisch (.inl rfl), h _ _ (.inl ⟨rfl, by simp⟩)⟩
  have hgekauft (r : Rat) : Q () { x with tausch := .gekauft id q m r } :=
    h _ x.gehalten (.inr ⟨r, rfl⟩)
  have hkritisch (r : Rat) (f : Fremdfehler) :
      Meets (Schritt k) { x with tausch := .gekauft id q m r } (frage (.kritisch (.fremd f))) Q E :=
    meets_frage fun _ => ⟨_, .kritisch (.inr rfl), h _ _ (.inr ⟨r, rfl⟩)⟩
  have hnach (r : Rat) {F : Ende → Zwischenstand → Prop}
      (hF : ∀ f, F (.fremd f) { x with tausch := .gekauft id q m r }) :
      Meets (Schritt k) { x with tausch := .gekauft id q m r } (do
        let _ ← registerDisplacementLeg u .rueckkauf symbol .buy menge userId 0
        dienst (.recordTrade symbol)) Q F := by
    rw [meets_bind]
    exact meets_registerDisplacementLeg fun _ => meets_dienst (fun _ => hgekauft r) hF
  rw [meets_exceptException, meets_bind]
  refine meets_derivedCoid fun coid => ?_
  rw [meets_bind]
  refine meets_checkHalt nofun ?_ hhalt
  rw [meets_bind]
  refine meets_sendeDurchsTor rfl (fun r hr => meets_broker fun a => ?_) hhalt nofun ?_
  · have hqty : r.qty = m.getD q := (hr.qty_eq rfl).trans hmenge
    refine ⟨_, .rueckkauf a htausch hqty, ?_⟩
    cases a with
    | ok neu => exact hnach r.qty (hkritisch r.qty)
    | error f =>
        rw [ending_error]
        exact .of_not_massgeblich rfl (hkritisch r.qty f) fun _ neu =>
          ⟨_, .rueckkaufUebernommen rfl, hnach r.qty (hkritisch r.qty)⟩
  · rintro (hs | hle)
    · exact absurd hs hsymbol
    · exact absurd hle (not_le.mpr hpos)

theorem meets_recoverDisplacement {userId symbol : String} {id : Nat} {q : Rat}
    {context : Kontext} {Q : Unit → Zwischenstand → Prop} (hsymbol : symbol ≠ "")
    (htausch : x.tausch = .verkauft id q)
    (h : ∀ tausch gehalten, Zurueckgenommen tausch gehalten → Q () { x with tausch, gehalten }) :
    Meets (Schritt k) x (recoverDisplacement u userId symbol (some id) q context) Q E := by
  unfold recoverDisplacement
  rw [if_neg hsymbol]
  show Meets (Schritt k) x (gefuellteMenge id q >>= fun filledQty => _) Q E
  rw [meets_bind]
  refine meets_gefuellteMenge htausch fun tausch m hm hgefragt => ?_
  by_cases hpos : m.getD q ≤ 0
  · rw [if_pos hpos]
    refine h _ _ fun id' q' g hg hgpos => absurd hpos (not_le.mpr ?_)
    rw [hgefragt id' q' g hg]
    exact hgpos
  · rw [if_neg hpos]
    refine meets_rueckkauf hsymbol (not_le.mp hpos) hm rfl fun tausch' gehalten hende => ?_
    refine h _ _ fun id' q' g hg _ => ?_
    rcases hende with ⟨-, hgehalten⟩ | ⟨r, hr⟩
    · exact hgehalten
    · rw [hr] at hg
      cases hg

end

end Absendung
