import AutonomousEngine.Absendung.Mandant
import AutonomousEngine.Reconciliation.Rueckverfolgung

/-!
# What may happen to a run

The protocol says what a run asks at most.  That a run gets anywhere is said
here: which answers lead through a step, and what is known of the next one.

A condition on the answers may rule some of them out.  It is *open* (`Offen`)
if it says nothing about questions that change nothing, so that services answer
as they please.

The book fills all open orders by itself (`Buch.ausgefuehrt`), or ends them as
they are (`Buch.beendet`).
-/

namespace Absendung

open Basis
open Gateway (Auftrag ComplianceDecision OrderGateway)
open Idempotenz (Intent)
open Verkauf (Quelle)

/-! ## Asking -/

/-- A condition that says nothing about questions that change nothing. -/
def Offen (G : Buch → (i : Frage) → i.Antwort → Buch → Prop) : Prop :=
  ∀ b i a b', i.still = true → G b i a b'

section

variable {G : Buch → (i : Frage) → i.Antwort → Buch → Prop} {T : Buch → Verlauf → Prop}
  {b b' : Buch} {l : Verlauf} {α : Type} {E : Ende → Buch → Verlauf → Prop}

theorem can_frage {i : Frage} {Q : i.Antwort → Buch → Verlauf → Prop} (a : i.Antwort)
    (ha : b.antwortet i a b') (hG : G b i a b')
    (h : ∀ l', l ⊆ l' → ⟨i, a⟩ ∈ l' → Q a b' l') : welt.Can G T (frage i) Q E b l :=
  World.can_ask a ha hG (h _ (List.subset_append_left l _) (by simp))

theorem can_still {i : Frage} {Q : i.Antwort → Buch → Verlauf → Prop} (hG : Offen G)
    (hi : i.still = true) (a : i.Antwort) (ha : b.antwortet i a b)
    (h : ∀ l', l ⊆ l' → Q a b l') : welt.Can G T (frage i) Q E b l :=
  can_frage a ha (hG b i a b hi) fun l' hl _ => h l' hl

/-- Where an answer leads that is raised if it is an error. -/
def Geliefert (Q : α → Buch → Verlauf → Prop) (E : Ende → Buch → Verlauf → Prop) :
    Except Fremdfehler α → Buch → Verlauf → Prop
  | .ok a => Q a
  | .error f => E (.fremd f)

theorem can_liefere {a : Except Fremdfehler α} {Q : α → Buch → Verlauf → Prop}
    (h : Geliefert Q E a b l) : welt.Can G T (liefere a) Q E b l := by
  cases a with
  | ok a => exact World.can_pure h
  | error f => exact World.can_throw h

theorem can_dienst {d : Dienst} {Q : d.Antwort → Buch → Verlauf → Prop} (hG : Offen G)
    (a : d.Antwort) (h : ∀ l', l ⊆ l' → Q a b l') : welt.Can G T (dienst d) Q E b l :=
  World.can_bind (can_still hG rfl (.ok a) rfl fun l' hl => can_liefere (h l' hl))

theorem can_istHalted {ort : HaltOrt} {Q : Bool → Buch → Verlauf → Prop} (hG : Offen G)
    (hort : ort ≠ .vorAufgeschoben) (h : ∀ l', l ⊆ l' → Q false b l') :
    welt.Can G T (istHalted ort) Q E b l :=
  can_still hG (by simpa [Frage.still] using hort) false rfl h

theorem can_checkHalt {ort : HaltOrt} {Q : Unit → Buch → Verlauf → Prop} (hG : Offen G)
    (hort : ort ≠ .vorAufgeschoben) (h : ∀ l', l ⊆ l' → Q () b l') :
    welt.Can G T (checkHalt ort) Q E b l :=
  World.can_bind (can_istHalted hG hort fun l' hl => World.can_pure (h l' hl))

/-- What is caught, if anything, does not end the run. -/
theorem can_exceptException {p : Lauf α} {h : Ende → Lauf α} {Q : α → Buch → Verlauf → Prop}
    (hp : welt.Can G T p Q (fun e b l => e ≠ .vorDemBroker ∧ welt.Can G T (h e) Q E b l) b l) :
    welt.Can G T (exceptException p h) Q E b l := by
  refine World.can_tryCatch (World.may_mono hp fun r b l hr => ?_)
  cases r with
  | ok a => exact hr
  | error e =>
    obtain ⟨hne, hcan⟩ := hr
    cases e with
    | vorDemBroker => exact absurd rfl hne
    | _ => exact hcan

/-- What is caught, if anything, is an API error. -/
theorem can_exceptApiError {p : Lauf α} {h : Ende → Lauf α} {Q : α → Buch → Verlauf → Prop}
    (hp : welt.Can G T p Q (fun e b l => ∃ s d, e = .fremd (.apiError s d) ∧
      welt.Can G T (h (.fremd (.apiError s d))) Q E b l) b l) :
    welt.Can G T (exceptApiError p h) Q E b l := by
  refine World.can_tryCatch (World.may_mono hp fun r b l hr => ?_)
  cases r with
  | ok a => exact hr
  | error e =>
    obtain ⟨s, d, rfl, hcan⟩ := hr
    exact hcan

/-! ## Through the gate -/

theorem bildeIntent_isSome {decisionId symbol : String} {qty : Rat} (seite : Seite)
    (art : Verkauf.IntentKind) (isProtectiveExit halted : Bool) (hid : decisionId ≠ "")
    (hsymbol : symbol ≠ "") (hqty : 0 < qty) :
    ∃ intent, bildeIntent decisionId symbol seite qty art isProtectiveExit halted = some intent :=
  ⟨_, dif_pos ⟨hid, hsymbol, hqty⟩⟩

theorem decide_approved_offen (intent : Intent) :
    (OrderGateway.decide intent none false).approved = true := by
  rw [OrderGateway.decide_approved]
  exact Bool.or_true _

def brokerLeer : Verkauf.Broker where
  getOrders := some []
  stornoBestaetigt _ := true
  getAllPositions := some []

@[simp] theorem freigegebeneMenge_ai (event : Signal) (size : Rat) :
    freigegebeneMenge event .ai size = size := by
  simp [freigegebeneMenge]

/-- Where no order rests on the symbol, a sale goes out as it is. -/
theorem gibVerkaufFrei_brokerLeer {dryRun : Bool} {intent : Verkauf.OrderIntent}
    (hpos : 0 < intent.qty) : Verkauf.gibVerkaufFrei brokerLeer dryRun intent = .ok intent.qty := by
  have hliegt : Verkauf.liegtEtwas brokerLeer intent.symbol = false := rfl
  have hfrei : Verkauf.gibStueckeFrei brokerLeer intent.symbol intent.qty = ⟨intent.qty, none⟩ := by
    simp [Verkauf.gibStueckeFrei, hliegt]
  unfold Verkauf.gibVerkaufFrei
  rw [hfrei]
  split
  next => rfl
  next => exact if_neg (not_le.mpr hpos)

/-- The gateway outside of a halt: the client is called, and the call is recorded. -/
theorem can_torAbsenden {client : Client} {z : Zweck} {u : Umfeld} {intent : Intent}
    {request : Auftrag} {coid : Option String} {symbol : String} {Q : Nat → Buch → Verlauf → Prop}
    (hG : Offen G)
    (hsub : ∀ l', l ⊆ l' → welt.Can G T
      ((gatewayFor client z).submitOrder (request.mitSchluessel u.digest intent))
      (fun id b l => ∀ l', l ⊆ l' → Q id b l')
      (fun e b l => (∃ f, e = .fremd f ∧ istDuplikat f = false) ∧ ∀ l', l ⊆ l' → E e b l') b l') :
    welt.Can G T (torAbsenden client z u intent request coid symbol) Q E b l := by
  rw [torAbsenden]
  refine World.can_bind (World.can_tryCatch (World.can_bind ?_))
  rw [OrderGateway.submitWithResult]
  refine World.can_bind (can_istHalted hG (by simp) fun l₁ h₁ => ?_)
  dsimp only
  rw [decide_approved_offen intent]
  refine World.can_bind (World.can_tryCatch (World.may_mono (hsub l₁ h₁) fun r b l hr => ?_))
  cases r with
  | ok id =>
      refine World.can_bind (can_still hG rfl () rfl fun l₂ h₂ => ?_)
      exact World.can_pure (World.can_pure (World.can_pure (hr l₂ h₂)))
  | error e =>
      obtain ⟨⟨f, rfl, hdup⟩, hE⟩ := hr
      refine World.can_bind (can_still hG rfl () rfl fun l₂ h₂ => World.can_throw ?_)
      refine World.can_bind ?_
      have hkeine : bestehendeOrder z coid symbol (.fremd f) = return none := by
        unfold bestehendeOrder
        cases coid with
        | none => rfl
        | some coid => simp [hdup]
      rw [hkeine]
      exact World.can_pure (World.can_throw (hE l₂ h₂))

/-- A submission at the broker with an answer. -/
theorem can_broker {z : Zweck} {r : Auftrag} {Q : Nat → Buch → Verlauf → Prop}
    (a : Except Fremdfehler Nat) (ha : b.antwortet (.submitOrder z r) a b')
    (hG : G b (.submitOrder z r) a b')
    (h : ∀ l', l ⊆ l' → ⟨.submitOrder z r, a⟩ ∈ l' → Geliefert Q E a b' l') :
    welt.Can G T ((gatewayFor .broker z).submitOrder r) Q E b l :=
  World.can_bind (can_frage a ha hG fun l' hl hmem => can_liefere (h l' hl hmem))

/-- A submission reaches the broker with its whole quantity and its key, and the
broker answers anything but that it knows the key. -/
theorem can_sendeDurchsTor {z : Zweck} {u : Umfeld} {request : Auftrag} {a : Absende}
    {Q : Nat → Buch → Verlauf → Prop} (hG : Offen G) (hqty : request.qty = a.qty) (hpos : 0 < a.qty)
    (hsymbol : a.symbol ≠ "") (ans : Except Fremdfehler Nat)
    (hdup : ∀ f, ans = .error f → istDuplikat f = false)
    (h : ∀ r, Wie request a.seite r → r.qty = request.qty → ∃ b',
      b.antwortet (.submitOrder z r) ans b' ∧ G b (.submitOrder z r) ans b' ∧
      ∀ l', l ⊆ l' → ⟨.submitOrder z r, ans⟩ ∈ l' → Geliefert Q E ans b' l') :
    welt.Can G T (sendeDurchsTor u .broker z request a) Q E b l := by
  rw [sendeDurchsTor]
  refine World.can_bind (can_istHalted hG (by simp) fun l₁ h₁ => ?_)
  obtain ⟨intent, hintent⟩ := bildeIntent_isSome a.seite a.art a.isProtectiveExit false
    (a.decision_ne u request) hsymbol hpos
  obtain ⟨hiqty, -⟩ := bildeIntent_eq_some hintent
  rw [hintent]
  refine World.can_bind (can_still hG rfl false rfl fun l₂ h₂ => ?_)
  let frei := { request.mitSchluessel u.digest intent with qty := request.qty }
  have hwie : Wie request a.seite (frei.mitSchluessel u.digest intent) := by
    refine ⟨hqty ▸ hpos, le_rfl, fun _ => rfl, fun c hc => ?_⟩
    have hform : (frei.mitSchluessel u.digest intent).form =
        (request.mitSchluessel u.digest intent).form :=
      mitSchluessel_mitSchluessel u.digest intent request.form
    rw [hform, mitSchluessel_form hc]
    exact clientOrderId_of_schluessel hc
  have htor (l₃ : Verlauf) (h₃ : l₂ ⊆ l₃) : welt.Can G T
      (torAbsenden .broker z u intent frei (schluessel frei) a.symbol) Q E b l₃ := by
    refine can_torAbsenden hG fun l₄ h₄ => ?_
    obtain ⟨b', ha, hG', hnach⟩ := h _ hwie rfl
    refine can_broker ans ha hG' fun l₅ h₅ hmem => ?_
    have hsub : l ⊆ l₅ := fun _ hm => h₅ (h₄ (h₃ (h₂ (h₁ hm))))
    cases ans with
    | ok id => exact fun l₆ h₆ => hnach l₆ (fun _ hm => h₆ (hsub hm)) (h₆ hmem)
    | error f =>
        exact ⟨⟨f, rfl, hdup f rfl⟩, fun l₆ h₆ => hnach l₆ (fun _ hm => h₆ (hsub hm)) (h₆ hmem)⟩
  dsimp only
  cases a.seite with
  | buy => exact World.can_bind (World.can_pure (htor l₂ fun _ hm => hm))
  | sell =>
      refine World.can_bind (World.can_bind (can_still hG rfl brokerLeer rfl fun l₃ h₃ => ?_))
      rw [gibVerkaufFrei_brokerLeer (hiqty ▸ hpos)]
      have hmenge : intent.qty = request.qty := hiqty.trans hqty.symm
      rw [hmenge]
      exact World.can_pure (htor l₃ h₃)

/-! ## Before the broker -/

section

variable {u : Umfeld} {tenant : Tenant} {event : Signal} {source : Quelle} {st : St}

theorem can_schrittMandantVorbereiten {Q : Unit → Buch → Verlauf → Prop} (hG : Offen G)
    (hpreis : 0 < event.kontext.currentPrice) (h : ∀ l', l ⊆ l' → Q () b l') :
    welt.Can G T (schrittMandantVorbereiten event) Q E b l := by
  rw [schrittMandantVorbereiten]
  refine World.can_bind (can_dienst hG () fun l₁ h₁ => ?_)
  rw [if_neg (not_le.mpr hpreis)]
  exact can_dienst hG () fun l₂ h₂ => h l₂ fun _ hm => h₂ (h₁ hm)

/-- A sale of a position that the broker shows. -/
theorem can_schrittMandantBestand {Q : St → Buch → Verlauf → Prop} (hG : Offen G) (pos : Position)
    (hbestand : G b (.bestand event.symbol) (.ok pos) b)
    (h : ∀ l', l ⊆ l' → Q { st with size := pos.qty, heldBrokerQty := |pos.qty| } b l') :
    welt.Can G T (schrittMandantBestand event st) Q E b l := by
  rw [schrittMandantBestand]
  refine World.can_bind (can_dienst hG true fun l₁ h₁ => ?_)
  rw [if_pos rfl]
  refine World.can_bind (can_frage (.ok pos) rfl hbestand fun l₂ h₂ _ => World.can_pure ?_)
  exact h l₂ fun _ hm => h₂ (h₁ hm)

/-- A purchase of a size that no guard holds back. -/
theorem can_schrittMandantBemessung {Q : St → Buch → Verlauf → Prop} (hG : Offen G)
    (account : Konto) {size : Rat} (hsize : 0 < size)
    (h : ∀ l', l ⊆ l' → Q { st with account, size, sizingTrace := some none } b l') :
    welt.Can G T (schrittMandantBemessung st) Q E b l := by
  rw [schrittMandantBemessung]
  refine World.can_bind (can_dienst hG account fun l₁ h₁ => ?_)
  refine World.can_bind (can_dienst hG ⟨size, none⟩ fun l₂ h₂ => ?_)
  dsimp only
  rw [if_pos hsize]
  refine World.can_bind (can_dienst hG false fun l₃ h₃ => ?_)
  refine World.can_bind (can_dienst hG false fun l₄ h₄ => World.can_pure ?_)
  exact h l₄ fun _ hm => h₄ (h₃ (h₂ (h₁ hm)))

/-- A purchase that the portfolio manager wants, for which it may name a position to
close. -/
theorem can_schrittMandantPortfolio {Q : St → Buch → Verlauf → Prop} (hG : Offen G)
    (symbolToClose : Option String) (hsize : 0 < st.size)
    (h : ∀ l', l ⊆ l' → Q { st with symbolToClose := some symbolToClose } b l') :
    welt.Can G T (schrittMandantPortfolio st) Q E b l := by
  rw [schrittMandantPortfolio]
  refine World.can_bind (can_dienst hG ⟨true, symbolToClose⟩ fun l₁ h₁ => ?_)
  dsimp only
  rw [if_pos rfl, if_pos hsize]
  refine World.can_bind (can_dienst hG false fun l₂ h₂ => World.can_pure ?_)
  exact h l₂ fun _ hm => h₂ (h₁ hm)

/-- A position is displaced that is held and that the account can do without until it
is sold. -/
theorem can_schrittMandantVerdraengung {curr : Rat} {symbol : String} {oldPos : Position}
    {Q : St → Buch → Verlauf → Prop} (hG : Offen G)
    (hsymbol : st.symbolToClose = some (some symbol)) (hne : symbol ≠ "") (hpos : 0 < oldPos.qty)
    (hmult : st.account.multiplier = 1) (hbp : st.size * curr ≤ st.account.buyingPower)
    (h : ∀ l', l ⊆ l' → if u.displacementBuyFirst then
        Q { st with deferredCloseSymbol := some symbol, deferredCloseQty := oldPos.qty } b l'
      else Q { st with sofortVerkaufenQty := some oldPos.qty } b l') :
    welt.Can G T (schrittMandantVerdraengung u curr st) Q E b l := by
  unfold schrittMandantVerdraengung
  rw [hsymbol]
  show welt.Can G T (if symbol = "" then return st else _) Q E b l
  rw [if_neg hne]
  refine can_exceptException (World.can_bind (can_still hG rfl (.ok (some oldPos)) rfl fun l₁ h₁ => ?_))
  refine World.can_bind (can_liefere ?_)
  show welt.Can G T (verdraenge u curr st symbol oldPos) _ _ b l₁
  have havailable : displacementAvailableBp u.displacementBuyFirst st.account.buyingPower
      (oldPos.qty * oldPos.currentPrice) st.account.multiplier = st.account.buyingPower := by
    simp [displacementAvailableBp, hmult]
  unfold verdraenge
  rw [if_pos hpos, havailable]
  dsimp only
  rw [if_neg (not_lt.mpr hbp)]
  have hnach := h l₁ h₁
  split at hnach
  next hfirst =>
    rw [if_pos hfirst]
    exact World.can_pure hnach
  next hfirst =>
    rw [if_neg hfirst]
    exact World.can_pure hnach

theorem can_derivedCoid {context : Kontext} {leg : Verkauf.IntentKind} {attempt : Nat}
    {Q : String → Buch → Verlauf → Prop} (hG : Offen G) (h : ∀ coid l', l ⊆ l' → Q coid b l') :
    welt.Can G T (derivedCoid u context leg attempt) Q E b l := by
  unfold derivedCoid
  split
  next coid _ => exact World.can_pure (h coid l fun _ hm => hm)
  next => exact can_still hG rfl "" rfl fun l' hl => h "" l' hl

theorem can_recordTrade {order : Verkauf.ComplianceOrder} {leg : Option Zweck}
    {Q : Unit → Buch → Verlauf → Prop} (hslot : G b (.slotBelegen leg) () b)
    (h : ∀ l', l ⊆ l' → Q () b l') : welt.Can G T (recordTrade u order leg) Q E b l := by
  unfold recordTrade
  split
  next => exact World.can_pure (h l fun _ hm => hm)
  next =>
    have ha : b.antwortet (.slotBelegen leg) () b := rfl
    exact can_frage () ha hslot fun l' hl _ => h l' hl

theorem can_registerDisplacementLeg {leg : Zweck} {symbol userId : String} {seite : Seite}
    {qty heldQty : Rat} {Q : Bool → Buch → Verlauf → Prop} (hG : Offen G)
    (h : ∀ l', l ⊆ l' → Q true b l') :
    welt.Can G T (registerDisplacementLeg u leg symbol seite qty userId heldQty) Q E b l := by
  unfold registerDisplacementLeg
  split
  next =>
    refine can_exceptException (World.can_bind (can_dienst hG true fun l₁ h₁ => World.can_bind ?_))
    refine can_recordTrade (hG _ _ _ _ rfl) fun l₂ h₂ => World.can_pure ?_
    exact h l₂ fun _ hm => h₂ (h₁ hm)
  next => exact World.can_pure (h l fun _ hm => hm)

/-- The sale before the purchase, which the broker takes. -/
theorem can_schrittMandantSofortVerkaufen {context : Kontext} {oldQty : Rat} {symbol : String}
    {Q : St → Buch → Verlauf → Prop} (hG : Offen G) (hqty : st.sofortVerkaufenQty = some oldQty)
    (hpos : 0 < oldQty) (hsymbol : st.symbolToClose = some (some symbol)) (hne : symbol ≠ "")
    (h : ∀ r, r.qty = oldQty → ∃ b',
      b.antwortet (.submitOrder (.verdraengung oldQty) r) (.ok b.length) b' ∧
      G b (.submitOrder (.verdraengung oldQty) r) (.ok b.length) b' ∧
      ∀ l', l ⊆ l' → ⟨.submitOrder (.verdraengung oldQty) r, .ok b.length⟩ ∈ l' →
        Q { st with displacementSellOrderId := some b.length, displacementSellQty := oldQty } b' l') :
    welt.Can G T (schrittMandantSofortVerkaufen u tenant context st) Q E b l := by
  unfold schrittMandantSofortVerkaufen
  have hjoin : st.symbolToClose.join = some symbol := by rw [hsymbol]; rfl
  split
  next q s hq hs =>
    obtain rfl := Option.some.inj (hq.symm.trans hqty)
    obtain rfl := Option.some.inj (hs.symm.trans hjoin)
    rw [if_neg hpos.ne']
    refine can_exceptException (World.can_bind (can_derivedCoid hG fun coid l₁ h₁ => ?_))
    refine World.can_bind (can_checkHalt hG nofun fun l₂ h₂ => World.can_bind ?_)
    refine can_sendeDurchsTor hG rfl hpos hne (.ok b.length) nofun fun r _ hr => ?_
    obtain ⟨b', ha, hG', hnach⟩ := h r hr
    refine ⟨b', ha, hG', fun l₃ h₃ hmem => World.can_bind ?_⟩
    refine can_registerDisplacementLeg hG fun l₄ h₄ => World.can_bind ?_
    refine can_dienst hG () fun l₅ h₅ => World.can_pure ?_
    exact hnach l₅ (fun _ hm => h₅ (h₄ (h₃ (h₂ (h₁ hm))))) (h₅ (h₄ hmem))
  next hno => exact absurd hjoin (hno oldQty symbol hqty)

theorem can_schrittMandantMenge {Q : St → Buch → Verlauf → Prop}
    (hpos : 0 < freigegebeneMenge event source st.size)
    (h : Q { st with size := freigegebeneMenge event source st.size } b l) :
    welt.Can G T (schrittMandantMenge event source st) Q E b l := by
  unfold schrittMandantMenge
  dsimp only
  rw [if_neg (not_le.mpr hpos)]
  exact World.can_pure h

theorem can_schrittMandantCompliance {Q : Unit → Buch → Verlauf → Prop} (hG : Offen G)
    (hslot : G b (.slotBelegen none) () b) (h : ∀ l', l ⊆ l' → Q () b l') :
    welt.Can G T (schrittMandantCompliance u tenant event source st) Q E b l := by
  unfold schrittMandantCompliance
  split
  next =>
    dsimp only
    refine World.can_bind (can_dienst hG true fun l₁ h₁ => ?_)
    have hstaub (qty held equity : Rat) : dustFloorSkipsExit u event qty held equity = false := by
      simp [dustFloorSkipsExit]
    rw [if_pos rfl, hstaub]
    refine World.can_bind (can_dienst hG true fun l₂ h₂ => ?_)
    rw [if_pos rfl]
    split
    next => exact World.can_pure (h l₂ fun _ hm => h₂ (h₁ hm))
    next => exact can_recordTrade hslot fun l₃ h₃ => h l₃ fun _ hm => h₃ (h₂ (h₁ hm))
  next => exact World.can_pure (h l fun _ hm => hm)

/-- A sale of what the position has, as far as it is approved. -/
theorem can_vorlauf_sell {Q : St → Buch → Verlauf → Prop} (hG : Offen G)
    (hseite : event.seite = .sell) (hpreis : 0 < event.kontext.currentPrice) (pos : Position)
    (hpos : 0 < freigegebeneMenge event source pos.qty)
    (hbestand : G b (.bestand event.symbol) (.ok pos) b) (hslot : G b (.slotBelegen none) () b)
    (h : ∀ l', l ⊆ l' → Q { size := freigegebeneMenge event source pos.qty
                            heldBrokerQty := |pos.qty| } b l') :
    welt.Can G T (vorlauf u tenant event source) Q E b l := by
  rw [vorlauf]
  refine World.can_bind (can_schrittMandantVorbereiten hG hpreis fun l₁ h₁ => World.can_bind ?_)
  unfold seitenschritte
  rw [hseite]
  refine can_schrittMandantBestand hG pos hbestand fun l₂ h₂ => World.can_bind ?_
  refine can_schrittMandantMenge hpos (World.can_bind ?_)
  refine can_schrittMandantCompliance hG hslot fun l₃ h₃ => World.can_pure ?_
  exact h l₃ fun _ hm => h₃ (h₂ (h₁ hm))

theorem can_vorlauf_buy {Q : St → Buch → Verlauf → Prop} (hG : Offen G)
    (hseite : event.seite = .buy) (hpreis : 0 < event.kontext.currentPrice) (account : Konto)
    {size : Rat} (hsize : 0 < size) (hpos : 0 < freigegebeneMenge event source size)
    (hslot : G b (.slotBelegen none) () b)
    (h : ∀ l', l ⊆ l' → Q { size := freigegebeneMenge event source size, account
                            sizingTrace := some none, symbolToClose := some none } b l') :
    welt.Can G T (vorlauf u tenant event source) Q E b l := by
  rw [vorlauf]
  refine World.can_bind (can_schrittMandantVorbereiten hG hpreis fun l₁ h₁ => World.can_bind ?_)
  unfold seitenschritte
  rw [hseite]
  refine World.can_bind (can_schrittMandantBemessung hG account hsize fun l₂ h₂ => World.can_bind ?_)
  refine can_schrittMandantPortfolio hG none hsize fun l₃ h₃ => World.can_bind (World.can_pure ?_)
  refine World.can_pure (World.can_bind (can_schrittMandantMenge hpos (World.can_bind ?_)))
  refine can_schrittMandantCompliance hG hslot fun l₄ h₄ => World.can_pure ?_
  exact h l₄ fun _ hm => h₄ (h₃ (h₂ (h₁ hm)))

/-- A purchase that displaces a position, which is sold after it. -/
theorem can_vorlauf_danach {symbol : String} {oldPos : Position} {account : Konto} {size : Rat}
    {Q : St → Buch → Verlauf → Prop} (hG : Offen G) (hseite : event.seite = .buy)
    (hfirst : u.displacementBuyFirst = true) (hpreis : 0 < event.kontext.currentPrice)
    (hsize : 0 < size) (hpos : 0 < freigegebeneMenge event source size) (hne : symbol ≠ "")
    (hold : 0 < oldPos.qty) (hmult : account.multiplier = 1)
    (hbp : size * event.kontext.currentPrice ≤ account.buyingPower)
    (hslot : G b (.slotBelegen none) () b)
    (h : ∀ l', l ⊆ l' → Q { size := freigegebeneMenge event source size, account
                            sizingTrace := some none, symbolToClose := some (some symbol)
                            deferredCloseSymbol := some symbol
                            deferredCloseQty := oldPos.qty } b l') :
    welt.Can G T (vorlauf u tenant event source) Q E b l := by
  rw [vorlauf]
  refine World.can_bind (can_schrittMandantVorbereiten hG hpreis fun l₁ h₁ => World.can_bind ?_)
  unfold seitenschritte
  rw [hseite]
  refine World.can_bind (can_schrittMandantBemessung hG account hsize fun l₂ h₂ => World.can_bind ?_)
  refine can_schrittMandantPortfolio hG (some symbol) hsize fun l₃ h₃ => World.can_bind ?_
  refine can_schrittMandantVerdraengung hG rfl hne hold hmult hbp fun l₄ h₄ => ?_
  rw [if_pos hfirst]
  refine World.can_pure (World.can_bind (can_schrittMandantMenge hpos (World.can_bind ?_)))
  refine can_schrittMandantCompliance hG hslot fun l₅ h₅ => World.can_pure ?_
  exact h l₅ fun _ hm => h₅ (h₄ (h₃ (h₂ (h₁ hm))))

/-- A purchase that displaces a position, which is sold before it. -/
theorem can_vorlauf_davor {symbol : String} {oldPos : Position} {account : Konto} {size : Rat}
    {Q : St → Buch → Verlauf → Prop} (hG : Offen G) (hseite : event.seite = .buy)
    (hfirst : u.displacementBuyFirst = false) (hpreis : 0 < event.kontext.currentPrice)
    (hsize : 0 < size) (hpos : 0 < freigegebeneMenge event source size) (hne : symbol ≠ "")
    (hold : 0 < oldPos.qty) (hmult : account.multiplier = 1)
    (hbp : size * event.kontext.currentPrice ≤ account.buyingPower)
    (h : ∀ r, r.qty = oldPos.qty → ∃ b',
      b.antwortet (.submitOrder (.verdraengung oldPos.qty) r) (.ok b.length) b' ∧
      G b (.submitOrder (.verdraengung oldPos.qty) r) (.ok b.length) b' ∧
      G b' (.slotBelegen none) () b' ∧
      ∀ st l', l ⊆ l' → ⟨.submitOrder (.verdraengung oldPos.qty) r, .ok b.length⟩ ∈ l' →
        st.size = freigegebeneMenge event source size → st.deferredCloseSymbol = none →
        st.symbolToClose = some (some symbol) → st.displacementSellOrderId = some b.length →
        st.displacementSellQty = oldPos.qty → Q st b' l') :
    welt.Can G T (vorlauf u tenant event source) Q E b l := by
  rw [vorlauf]
  refine World.can_bind (can_schrittMandantVorbereiten hG hpreis fun l₁ h₁ => World.can_bind ?_)
  unfold seitenschritte
  rw [hseite]
  refine World.can_bind (can_schrittMandantBemessung hG account hsize fun l₂ h₂ => World.can_bind ?_)
  refine can_schrittMandantPortfolio hG (some symbol) hsize fun l₃ h₃ => World.can_bind ?_
  refine can_schrittMandantVerdraengung hG rfl hne hold hmult hbp fun l₄ h₄ => ?_
  rw [if_neg (by simp [hfirst])]
  refine can_schrittMandantSofortVerkaufen hG rfl hold rfl hne fun r hr => ?_
  obtain ⟨b', ha, hG', hslot, hnach⟩ := h r hr
  refine ⟨b', ha, hG', fun l₅ h₅ hmem => World.can_bind ?_⟩
  refine can_schrittMandantMenge hpos (World.can_bind ?_)
  refine can_schrittMandantCompliance hG hslot fun l₆ h₆ => World.can_pure ?_
  exact hnach _ l₆ (fun _ hm => h₆ (h₅ (h₄ (h₃ (h₂ (h₁ hm)))))) (h₆ hmem) rfl rfl rfl rfl rfl

end

/-! ## To the broker -/

section

variable {u : Umfeld} {tenant : Tenant} {event : Signal} {source : Quelle} {st : St}

theorem istLimitExit_buildBrokerOrderRequest (symbol : String) (qty : Rat) (seite : Seite)
    (coid : String) (currentPrice : Rat) (useLimitOrders useLimitExits : Bool)
    (spreadBuffer : Rat) :
    istLimitExit seite (buildBrokerOrderRequest symbol qty seite coid currentPrice useLimitOrders
      useLimitExits spreadBuffer) =
      (seite == .sell && (useLimitOrders || useLimitExits) && decide (currentPrice ≠ 0)) := by
  unfold buildBrokerOrderRequest istLimitExit
  dsimp only
  split
  next hlimit =>
    cases seite with
    | buy => rfl
    | sell => simpa using hlimit
  next hmarkt =>
    cases seite with
    | buy => rfl
    | sell =>
        rw [not_and_or] at hmarkt
        rcases hmarkt with h | h
        · simp_all [marketOrderRequest]
        · simp_all [marketOrderRequest]

theorem can_schrittMandantAuftrag {Q : Auftrag → Buch → Verlauf → Prop} (hG : Offen G)
    (h : ∀ req l', l ⊆ l' → req.qty = st.size →
      istLimitExit event.seite req = (event.seite == .sell &&
        (u.useLimitOrders || u.useLimitExits) && decide (event.kontext.currentPrice ≠ 0)) →
      (event.kontext.clientOrderId ≠ "" →
        schluessel req = some event.kontext.clientOrderId) → Q req b l') :
    welt.Can G T (schrittMandantAuftrag u event st) Q E b l := by
  rw [schrittMandantAuftrag]
  have hreq (coid : String) (l' : Verlauf) (hl : l ⊆ l')
      (hcoid : event.kontext.clientOrderId ≠ "" → coid = event.kontext.clientOrderId) :
      Q (buildBrokerOrderRequest event.symbol st.size event.seite coid event.kontext.currentPrice
        u.useLimitOrders u.useLimitExits u.limitOrderSpreadBufferPct) b l' := by
    refine h _ l' hl (qty_buildBrokerOrderRequest ..) (istLimitExit_buildBrokerOrderRequest ..)
      fun hne => ?_
    rw [schluessel, form_buildBrokerOrderRequest, hcoid hne]
    exact if_neg hne
  have hende (coid : String) (l' : Verlauf) (hl : l ⊆ l')
      (hcoid : event.kontext.clientOrderId ≠ "" → coid = event.kontext.clientOrderId) :
      welt.Can G T (if event.isProtectiveExit = true then
          return buildBrokerOrderRequest event.symbol st.size event.seite coid
            event.kontext.currentPrice u.useLimitOrders u.useLimitExits u.limitOrderSpreadBufferPct
        else do
          checkHalt .auftrag
          return buildBrokerOrderRequest event.symbol st.size event.seite coid
            event.kontext.currentPrice u.useLimitOrders u.useLimitExits
            u.limitOrderSpreadBufferPct : Lauf Auftrag) Q E b l' := by
    split
    next => exact World.can_pure (hreq coid l' hl hcoid)
    next =>
      refine World.can_bind (can_checkHalt hG (by simp) fun l₂ h₂ => World.can_pure ?_)
      exact hreq coid l₂ (fun _ hm => h₂ (hl hm)) hcoid
  refine World.can_bind ?_
  unfold auftragsCoid
  split
  next => exact World.can_pure (hende _ l (fun _ hm => hm) fun _ => rfl)
  next hempty =>
    exact can_derivedCoid hG fun coid l₁ h₁ => hende coid l₁ h₁ fun hne => absurd hne hempty

/-- The order of the event is taken, or fails for good. -/
theorem can_submitWithMarketFailsafe {request : Auftrag} {a : Absende} {isExit : Bool}
    {Q : Nat → Buch → Verlauf → Prop} (hG : Offen G) (hqty : request.qty = a.qty) (hpos : 0 < a.qty)
    (hsymbol : a.symbol ≠ "") (ans : Except Fremdfehler Nat)
    (hans : ∀ f, ans = .error f → istDuplikat f = false ∧ isExit = false)
    (h : ∀ r, r.qty = a.qty → ∃ b', b.antwortet (.submitOrder (.auftrag a.qty isExit) r) ans b' ∧
      G b (.submitOrder (.auftrag a.qty isExit) r) ans b' ∧
      ∀ l', l ⊆ l' → ⟨.submitOrder (.auftrag a.qty isExit) r, ans⟩ ∈ l' →
        Geliefert Q E ans b' l') :
    welt.Can G T (submitWithMarketFailsafe u request a isExit) Q E b l := by
  rw [submitWithMarketFailsafe]
  refine World.can_tryCatch (can_sendeDurchsTor hG hqty hpos hsymbol ans (fun f hf => (hans f hf).1)
    fun r _ hr => ?_)
  obtain ⟨b', ha, hG', hnach⟩ := h r (hr.trans hqty)
  refine ⟨b', ha, hG', fun l₁ h₁ hmem => ?_⟩
  have hende := hnach l₁ h₁ hmem
  cases ans with
  | ok id => exact hende
  | error f =>
    obtain ⟨-, rfl⟩ := hans f rfl
    cases f with
    | sonst => exact World.can_throw hende
    | apiError s d => exact World.can_throw hende

theorem schluessel_ne {r : Auftrag} {c : String} (h : schluessel r = some c) : c ≠ "" := by
  unfold schluessel at h
  split at h
  next => cases h
  next c' hc =>
    split at h
    next => cases h
    next hne => exact Option.some.inj h ▸ hne

theorem nextAttempt_isOk (digest : String → String) (z : Idempotenz.Ziffern) {key : String}
    (hkey : key ≠ "") : ∃ coid, Idempotenz.nextAttempt digest z key = .ok coid := by
  unfold Idempotenz.nextAttempt
  rw [if_neg hkey]
  split
  next => split <;> exact ⟨_, rfl⟩
  next => exact ⟨_, rfl⟩

theorem can_naechsterVersuch {coid : Option String} {Q : String → Buch → Verlauf → Prop}
    (hG : Offen G) (hcoid : ∀ c, coid = some c → c ≠ "")
    (h : ∀ next l', l ⊆ l' → next ≠ "" → (∀ c c', coid = some c →
      Idempotenz.nextAttempt u.digest u.ziffern c = .ok c' → next = c') → Q next b l') :
    welt.Can G T (naechsterVersuch u coid) Q E b l := by
  unfold naechsterVersuch
  cases coid with
  | some key =>
      obtain ⟨next, hnext⟩ := nextAttempt_isOk u.digest u.ziffern (hcoid key rfl)
      refine World.can_bind (World.can_pure ?_)
      dsimp only
      rw [hnext]
      refine World.can_pure (h next l (fun _ hm => hm) (nextAttempt_ne hnext) fun c c' hc hc' => ?_)
      obtain rfl := Option.some.inj hc
      exact Except.ok.inj (hnext.symm.trans hc')
  | none =>
      have hkey : "u" ≠ "" := by decide
      obtain ⟨next, hnext⟩ := nextAttempt_isOk u.digest u.ziffern hkey
      refine World.can_bind (can_still hG rfl "u" rfl fun l' hl => ?_)
      dsimp only
      rw [hnext]
      exact World.can_pure (h next l' hl (nextAttempt_ne hnext) nofun)

/-- An exit is rejected, or its answer is lost, and its fallback is taken. -/
theorem can_submitWithMarketFailsafe_nachAblehnung {request : Auftrag} {a : Absende}
    {Q : Nat → Buch → Verlauf → Prop} (hG : Offen G) (hqty : request.qty = a.qty) (hpos : 0 < a.qty)
    (hsymbol : a.symbol ≠ "") (s : Option Nat)
    (h : ∀ r, Wie request a.seite r → r.qty = a.qty → ∃ b₁,
      b.antwortet (.submitOrder (.auftrag a.qty true) r) (.error (.apiError s false)) b₁ ∧
      G b (.submitOrder (.auftrag a.qty true) r) (.error (.apiError s false)) b₁ ∧
      ∀ r', r'.qty = a.qty → (∀ c c', schluessel request = some c →
        Idempotenz.nextAttempt u.digest u.ziffern c = .ok c' → r'.form.clientOrderId = some c') →
        ∃ b₂, b₁.antwortet (.submitOrder (.nachAblehnung a.qty) r') (.ok b₁.length) b₂ ∧
        G b₁ (.submitOrder (.nachAblehnung a.qty) r') (.ok b₁.length) b₂ ∧
        ∀ l', l ⊆ l' →
          ⟨.submitOrder (.auftrag a.qty true) r, .error (.apiError s false)⟩ ∈ l' →
          ⟨.submitOrder (.nachAblehnung a.qty) r', .ok b₁.length⟩ ∈ l' → Q b₁.length b₂ l') :
    welt.Can G T (submitWithMarketFailsafe u request a true) Q E b l := by
  have hdup : istDuplikat (.apiError s false) = false := Bool.and_false _
  rw [submitWithMarketFailsafe]
  refine can_exceptApiError (can_sendeDurchsTor hG hqty hpos hsymbol (.error (.apiError s false))
    (fun f hf => Except.error.inj hf ▸ hdup) fun r hwie hr => ?_)
  obtain ⟨b₁, ha, hG₁, hnach⟩ := h r hwie (hr.trans hqty)
  refine ⟨b₁, ha, hG₁, fun l₁ h₁ hmem => ⟨s, false, rfl, ?_⟩⟩
  rw [if_pos rfl]
  refine World.can_bind ?_
  have hfallback (coid : String) (l₂ : Verlauf) (h₂ : l₁ ⊆ l₂) (hne : coid ≠ "")
      (hcoid : ∀ c c', schluessel request = some c →
        Idempotenz.nextAttempt u.digest u.ziffern c = .ok c' → coid = c') :
      welt.Can G T (sendeDurchsTor u .broker (.nachAblehnung a.qty)
        (marketOrderRequest a.symbol a.qty a.seite (some coid)) a) Q E b₁ l₂ := by
    refine can_sendeDurchsTor hG rfl hpos hsymbol (.ok b₁.length) (by simp) fun r' hwie' hr' => ?_
    obtain ⟨b₂, ha₂, hG₂, hfertig⟩ := hnach r' hr' fun c c' hc hc' =>
      hcoid c c' hc hc' ▸ hwie'.form coid (schluessel_marketOrderRequest hne)
    exact ⟨b₂, ha₂, hG₂, fun l₃ h₃ hmem' =>
      hfertig l₃ (fun _ hm => h₃ (h₂ (h₁ hm))) (h₃ (h₂ hmem)) hmem'⟩
  refine can_naechsterVersuch hG (fun c hc => schluessel_ne hc) fun coid l₂ h₂ hne hcoid => ?_
  exact hfallback coid l₂ h₂ hne hcoid

/-- Whether an answer to a status query shows an order as executed. -/
def meldetGefuellt : Except Fremdfehler (Option Orderstand) → Bool
  | .ok (some live) => live.status == .filled
  | _ => false

theorem can_schrittMandantFuellung {z : Zweck} {id : Nat}
    {Q : Bool × Option Orderstand → Buch → Verlauf → Prop}
    (hn : abfragen u.orderFillTimeoutSeconds u.orderFillPollSeconds = some 1)
    (a : Except Fremdfehler (Option Orderstand)) (ha : b.antwortet (.getOrderById z id) a b)
    (hG : G b (.getOrderById z id) a b)
    (h : ∀ l', l ⊆ l' → Q (meldetGefuellt a, nachAbfrage none a) b l') :
    welt.Can G T (schrittMandantFuellung u z id) Q E b l := by
  unfold schrittMandantFuellung
  rw [hn]
  show welt.Can G T (frageAb z id 1 none) Q E b l
  rw [frageAb]
  refine World.can_bind (can_frage a ha hG fun l₁ h₁ _ => ?_)
  have hfertig := h l₁ h₁
  dsimp only
  cases a with
  | error f => exact World.can_pure hfertig
  | ok stand =>
    cases stand with
    | none => exact World.can_pure hfertig
    | some live =>
      dsimp only [meldetGefuellt] at hfertig ⊢
      split
      next hfilled =>
        have htrue : (live.status == .filled) = true := beq_iff_eq.mpr hfilled
        rw [htrue] at hfertig
        exact World.can_pure hfertig
      next hno =>
        have hfalse : (live.status == .filled) = false := beq_eq_false_iff_ne.mpr hno
        rw [hfalse] at hfertig
        split
        next => exact World.can_pure hfertig
        next => exact World.can_pure hfertig

/-- An order that the broker takes and that is polled once.  What follows is the end of
the run or the cancellation, and the book may go on before it. -/
theorem can_abgang {Q : Bool → Buch → Verlauf → Prop} (hG : Offen G)
    (hschatten : u.shadowMode = false) (hsymbol : event.symbol ≠ "") (hpos : 0 < st.size)
    (hdeferred : st.deferredCloseSymbol = none) (isExit : Bool)
    (hexit : (event.seite == .sell && (u.useLimitOrders || u.useLimitExits) &&
      decide (event.kontext.currentPrice ≠ 0)) = isExit)
    (hn : abfragen u.orderFillTimeoutSeconds u.orderFillPollSeconds = some 1)
    (a : Except Fremdfehler (Option Orderstand))
    (h : ∀ r, r.qty = st.size → ∃ b₁ b₂,
      b.antwortet (.submitOrder (.auftrag st.size isExit) r) (.ok b.length) b₁ ∧
      G b (.submitOrder (.auftrag st.size isExit) r) (.ok b.length) b₁ ∧ b₁.Weiter b₂ ∧
      b₂.antwortet (.getOrderById (.auftrag st.size isExit) b.length) a b₂ ∧
      G b₂ (.getOrderById (.auftrag st.size isExit) b.length) a b₂ ∧
      ∀ req l', l ⊆ l' → ⟨.submitOrder (.auftrag st.size isExit) r, .ok b.length⟩ ∈ l' →
        istLimitExit event.seite req = isExit →
        if meldetGefuellt a then Q true b₂ l'
        else welt.Can G T (do
            schrittMandantStorno u tenant event source st req b.length (nachAbfrage none a)
            return false) Q E b₂ l') :
    welt.Can G T (abgang u tenant event source st) Q E b l := by
  rw [abgang]
  refine World.can_bind (can_schrittMandantAuftrag hG fun req l₁ h₁ hqty hlimit _ => ?_)
  rw [hexit] at hlimit
  rw [hschatten, hlimit]
  refine World.can_bind (World.can_bind ?_)
  rw [hlimit]
  refine World.can_tryCatch (can_submitWithMarketFailsafe hG hqty hpos hsymbol (.ok b.length) (by simp)
    fun r hr => ?_)
  obtain ⟨b₁, b₂, ha₁, hG₁, hd, ha₂, hG₂, hnach⟩ := h r hr
  refine ⟨b₁, ha₁, hG₁, fun l₂ h₂ hmem => World.can_bind ?_⟩
  rw [hdeferred]
  refine World.can_tryCatch (World.can_pure (World.can_pure (World.can_bind (World.can_drift hd ?_))))
  refine can_schrittMandantFuellung hn a ha₂ hG₂ fun l₃ h₃ => ?_
  have hende := hnach req l₃ (fun _ hm => h₃ (h₂ (h₁ hm))) (h₃ hmem) hlimit
  dsimp only
  split at hende
  next hfilled =>
    rw [if_pos hfilled]
    exact World.can_pure hende
  next hno =>
    rw [if_neg hno]
    exact hende

/-- The sale after the purchase comes to the target when the broker takes it. -/
theorem can_verkaufeAufgeschoben {st : St} {symbol : String} {Q : Unit → Buch → Verlauf → Prop}
    (hG : Offen G) (hsymbol : st.deferredCloseSymbol = some symbol) (hne : symbol ≠ "")
    (hpos : 0 < st.deferredCloseQty)
    (h : ∀ r, r.qty = st.deferredCloseQty → ∃ b',
      b.antwortet (.submitOrder .aufgeschoben r) (.ok b.length) b' ∧
      G b (.submitOrder .aufgeschoben r) (.ok b.length) b' ∧
      ∀ l', l ⊆ l' → ⟨.submitOrder .aufgeschoben r, .ok b.length⟩ ∈ l' → T b' l') :
    welt.Can G T (verkaufeAufgeschoben u .broker tenant event st) Q E b l := by
  unfold verkaufeAufgeschoben
  rw [hsymbol]
  refine World.can_bind (can_exceptException (World.can_bind ?_))
  refine can_registerDisplacementLeg hG fun l₁ h₁ => ?_
  refine World.can_bind (can_istHalted hG nofun fun l₂ h₂ => ?_)
  have hdecision : (if event.kontext.decisionId ≠ "" then event.kontext.decisionId
      else ersatzDecisionId .displacement tenant.userId symbol) ≠ "" := by
    split
    next h => exact h
    next => exact ersatzDecisionId_ne _ _ _
  obtain ⟨intent, hintent⟩ := bildeIntent_isSome .sell .displacement false false hdecision hne hpos
  rw [hintent]
  refine World.can_bind (can_istHalted hG nofun fun l₃ h₃ => World.can_bind ?_)
  refine World.can_bind (World.can_bind (can_istHalted hG nofun fun l₄ h₄ => ?_))
  have hfrei : (OrderGateway.decide intent (some (verdraengungsEntscheid intent true false))
      false).approved = true := by
    rw [OrderGateway.decide_approved]
    exact Bool.or_true _
  dsimp only
  rw [hfrei]
  refine World.can_bind (World.can_tryCatch ?_)
  obtain ⟨b', ha, hG', hnach⟩ :=
    h ((marketOrderRequest symbol st.deferredCloseQty .sell none).mitSchluessel u.digest intent) rfl
  refine can_broker (.ok b.length) ha hG' fun l₅ h₅ hmem => World.can_stop ?_
  exact hnach l₅ (fun _ hm => h₅ (h₄ (h₃ (h₂ (h₁ hm))))) hmem

/-- A recovery comes to the target when the broker takes the purchase. -/
theorem can_recoverDisplacement {userId symbol : String} {context : Kontext} {id : Nat} {q : Rat}
    {Q : Unit → Buch → Verlauf → Prop} (hG : Offen G) (hne : symbol ≠ "")
    (a : Except Fremdfehler (Option Orderstand))
    (ha : b.antwortet (.getOrderById (.verdraengung q) id) a b)
    (hstorno : G b (.cancelOrderById (.verdraengung q) id) (.ok ()) b)
    (habfrage : G b (.getOrderById (.verdraengung q) id) a b) (hpos : 0 < (gefuellt a).getD q)
    (h : ∀ r, r.qty = (gefuellt a).getD q → ∃ b',
      b.antwortet (.submitOrder .rueckkauf r) (.ok b.length) b' ∧
      G b (.submitOrder .rueckkauf r) (.ok b.length) b' ∧
      ∀ l', l ⊆ l' → ⟨.getOrderById (.verdraengung q) id, a⟩ ∈ l' →
        ⟨.submitOrder .rueckkauf r, .ok b.length⟩ ∈ l' → T b' l') :
    welt.Can G T (recoverDisplacement u userId symbol (some id) q context) Q E b l := by
  have hkauf (l₂ : Verlauf) (h₂ : l ⊆ l₂)
      (hmem : ⟨.getOrderById (.verdraengung q) id, a⟩ ∈ l₂) : welt.Can G T (do
        if (gefuellt a).getD q ≤ 0 then return ()
        exceptException (do
            let coid ← derivedCoid u context .displacement 1
            checkHalt .vorRueckkauf
            let _ ← sendeDurchsTor u .broker .rueckkauf
              (marketOrderRequest symbol ((gefuellt a).getD q) .buy (some coid))
              { symbol, seite := .buy, qty := (gefuellt a).getD q, userId
                decisionId := context.decisionId }
            let _ ← registerDisplacementLeg u .rueckkauf symbol .buy ((gefuellt a).getD q) userId 0
            dienst (.recordTrade symbol))
          fun reBuyErr => frage (.kritisch reBuyErr)) Q E b l₂ := by
    rw [if_neg (not_le.mpr hpos)]
    refine can_exceptException (World.can_bind (can_derivedCoid hG fun coid l₃ h₃ => ?_))
    refine World.can_bind (can_checkHalt hG (by simp) fun l₄ h₄ => World.can_bind ?_)
    refine can_sendeDurchsTor hG rfl hpos hne (.ok b.length) (by simp) fun r _ hr => ?_
    obtain ⟨b', ha', hG', hnach⟩ := h r hr
    refine ⟨b', ha', hG', fun l₅ h₅ hmem' => World.can_stop ?_⟩
    exact hnach l₅ (fun _ hm => h₅ (h₄ (h₃ (h₂ hm)))) (h₅ (h₄ (h₃ hmem))) hmem'
  unfold recoverDisplacement
  rw [if_neg hne]
  refine World.can_bind (can_exceptException (World.can_bind ?_))
  refine can_exceptApiError (World.can_bind (can_frage (.ok ()) rfl hstorno fun l₁ h₁ _ => ?_))
  refine World.can_pure (World.can_bind (can_frage a ha habfrage fun l₂ h₂ hmem => ?_))
  have hkauf₂ := hkauf l₂ (fun _ hm => h₂ (h₁ hm)) hmem
  refine World.can_bind (can_liefere ?_)
  cases a with
  | error f => exact ⟨(by simp), World.can_pure hkauf₂⟩
  | ok st =>
    cases st with
    | none => exact World.can_pure hkauf₂
    | some st =>
      have hgefuellt : gefuellt (.ok (some st)) = liesWert st.filledQty := rfl
      rw [hgefuellt] at hkauf₂
      rw [Geliefert]
      dsimp only
      cases hwert : liesWert st.filledQty with
      | none =>
          rw [hwert] at hkauf₂
          exact World.can_throw ⟨(by simp), World.can_pure hkauf₂⟩
      | some g =>
          rw [hwert] at hkauf₂
          exact World.can_pure hkauf₂

end

/-! ## Whole runs -/

section

variable {u : Umfeld} {tenant : Tenant} {event : Signal} {source : Quelle}

/-- A run that comes to the target before it ends, ends with a filled order, or reports an
error other than the end before the broker. -/
theorem can_executeTenantOrder {Q : Bool → Buch → Verlauf → Prop} (hG : Offen G)
    (h : ∀ l', l ⊆ l' → welt.Can G T (vorlauf u tenant event source)
      (fun st => welt.Can G T (abgang u tenant event source st)
        (fun gefuellt b l => gefuellt = true ∧ ∀ l', l ⊆ l' → Q true b l')
        fun e b l => e ≠ .vorDemBroker ∧ G b (.fehler e) () b ∧ G b .auditSkipped () b ∧
          ∀ l', l ⊆ l' → ⟨.fehler e, ()⟩ ∈ l' → ⟨.auditSkipped, ()⟩ ∈ l' → Q false b l')
      (fun _ _ _ => False) b l') :
    welt.Can G T (executeTenantOrder u tenant event source) Q E b l := by
  rw [executeTenantOrder]
  refine World.can_bind (can_dienst hG true fun l₁ h₁ => ?_)
  rw [if_pos rfl]
  refine World.can_tryCatch (World.can_bind (World.may_mono (h l₁ h₁) fun r b l hr => ?_))
  cases r with
  | error e => exact hr.elim
  | ok st =>
    refine World.can_bind (World.may_mono hr fun r b l hr => ?_)
    cases r with
    | ok gefuellt =>
      obtain ⟨rfl, hQ⟩ := hr
      dsimp only
      rw [if_pos rfl]
      refine World.can_bind (World.can_tryCatch (can_dienst hG () fun l₂ h₂ => ?_))
      exact World.can_pure (hQ l₂ h₂)
    | error e =>
      obtain ⟨hne, hfehler, hskipped, hQ⟩ := hr
      have hmelden : welt.Can G T (do
          schrittMandantFehler false e
          return false : Lauf Bool) Q E b l := by
        refine World.can_bind (World.can_bind (can_frage () rfl hfehler fun l₂ h₂ hmem => ?_))
        refine can_frage () rfl hskipped fun l₃ h₃ hmem' => World.can_pure ?_
        exact hQ l₃ (fun _ hm => h₃ (h₂ hm)) (h₃ hmem) hmem'
      cases e with
      | vorDemBroker => exact absurd rfl hne
      | _ => exact hmelden

/-- A marketable limit exit whose answer is an API error, and its fallback. -/
theorem can_ausstieg {Q : Bool → Buch → Verlauf → Prop} (hG : Offen G)
    (hschatten : u.shadowMode = false) (hlimit : u.useLimitExits = true)
    (hseite : event.seite = .sell) (hsymbol : event.symbol ≠ "")
    (hpreis : 0 < event.kontext.currentPrice) (pos : Position) (menge : Rat)
    (hmenge : freigegebeneMenge event source pos.qty = menge) (hpos : 0 < menge)
    (hbestand : G b (.bestand event.symbol) (.ok pos) b) (hslot : G b (.slotBelegen none) () b)
    (s : Option Nat)
    (h : ∀ r, r.qty = menge → (event.kontext.clientOrderId ≠ "" →
        r.form.clientOrderId = some event.kontext.clientOrderId) → ∃ b₁,
      b.antwortet (.submitOrder (.auftrag menge true) r) (.error (.apiError s false)) b₁ ∧
      G b (.submitOrder (.auftrag menge true) r) (.error (.apiError s false)) b₁ ∧
      ∀ r', r'.qty = menge → (∀ c, event.kontext.clientOrderId ≠ "" →
        Idempotenz.nextAttempt u.digest u.ziffern event.kontext.clientOrderId = .ok c →
        r'.form.clientOrderId = some c) → ∃ b₂,
        b₁.antwortet (.submitOrder (.nachAblehnung menge) r') (.ok b₁.length) b₂ ∧
        G b₁ (.submitOrder (.nachAblehnung menge) r') (.ok b₁.length) b₂ ∧
        ∀ l', l ⊆ l' →
          ⟨.submitOrder (.auftrag menge true) r, .error (.apiError s false)⟩ ∈ l' →
          ⟨.submitOrder (.nachAblehnung menge) r', .ok b₁.length⟩ ∈ l' →
          ∃ b₃, b₂.Weiter b₃ ∧ T b₃ l') :
    welt.Can G T (executeTenantOrder u tenant event source) Q E b l := by
  subst hmenge
  refine can_executeTenantOrder hG fun l₁ h₁ => ?_
  refine can_vorlauf_sell hG hseite hpreis pos hpos hbestand hslot fun l₂ h₂ => ?_
  rw [abgang]
  refine World.can_bind (can_schrittMandantAuftrag hG fun req l₃ h₃ hqty hexit hkey => ?_)
  have hexit' : istLimitExit event.seite req = true := by
    rw [hexit, hseite, hlimit]
    simp [hpreis.ne']
  rw [hschatten]
  refine World.can_bind (World.can_bind ?_)
  rw [hexit']
  refine can_exceptApiError (can_submitWithMarketFailsafe_nachAblehnung hG hqty hpos hsymbol s
    fun r hwie hr => ?_)
  obtain ⟨b₁, ha₁, hG₁, hnach⟩ := h r hr fun hne => hwie.form _ (hkey hne)
  refine ⟨b₁, ha₁, hG₁, fun r' hr' hkey' => ?_⟩
  obtain ⟨b₂, ha₂, hG₂, hfertig⟩ := hnach r' hr' fun c hne hc => hkey' _ c (hkey hne) hc
  refine ⟨b₂, ha₂, hG₂, fun l₄ h₄ hmem hmem' => ?_⟩
  obtain ⟨b₃, hd, hT⟩ := hfertig l₄ (fun _ hm => h₄ (h₃ (h₂ (h₁ hm)))) hmem hmem'
  exact World.can_drift hd (World.can_stop hT)

end

end

/-- What may come about from an empty book is reached. -/
theorem mandantenlauf_reach {G : Buch → (i : Frage) → i.Antwort → Buch → Prop}
    {T : Buch → Verlauf → Prop} {u : Umfeld} {tenant : Tenant} {event : Signal} {source : Quelle}
    (h : welt.Can G T (executeTenantOrder u tenant event source) (fun _ => T) (fun _ => T) [] []) :
    ∃ c, ((mandantenlauf u tenant event source).restrict (World.answers G)).Reach c ∧
      T c.store c.log :=
  World.reach_of_can (fun _ ho => absurd ho List.not_mem_nil) h

/-- A result that may come about from an empty book is reached. -/
theorem mandantenlauf_reach_ergebnis {G : Buch → (i : Frage) → i.Antwort → Buch → Prop}
    {Q : Bool → Buch → Verlauf → Prop} {u : Umfeld} {tenant : Tenant} {event : Signal}
    {source : Quelle}
    (h : welt.Can G (fun _ _ => False) (executeTenantOrder u tenant event source) Q
      (fun _ _ _ => False) [] []) :
    ∃ c b, ((mandantenlauf u tenant event source).restrict (World.answers G)).Reach c ∧
      c.rest = .done (.ok b) ∧ Q b c.store c.log := by
  have hleer : Unberuehrt [] := fun _ ho => absurd ho List.not_mem_nil
  obtain ⟨c, res, hc, hres, hQ⟩ := World.reach_of_can_done hleer h
  cases res with
  | ok b => exact ⟨c, b, hc, hres, hQ⟩
  | error e => exact hQ.elim

theorem offen_true : Offen fun _ _ _ _ => True :=
  fun _ _ _ _ _ => trivial

theorem mandantenlauf_reach_frei {T : Buch → Verlauf → Prop} {u : Umfeld} {tenant : Tenant}
    {event : Signal} {source : Quelle}
    (h : welt.Can (fun _ _ _ _ => True) T (executeTenantOrder u tenant event source)
      (fun _ => T) (fun _ => T) [] []) :
    ∃ c, (mandantenlauf u tenant event source).Reach c ∧ T c.store c.log := by
  obtain ⟨c, hc, hT⟩ := mandantenlauf_reach h
  exact ⟨c, hc.of_restrict, hT⟩

/-! ## What the book may do -/

/-- An order that fills in full, if it is open. -/
def Order.ausgefuehrt (o : Order) : Order :=
  if o.offen then
    { o with filledQty := o.qty, offen := false, filledQty_nonneg := o.qty_pos.le
             filledQty_le := le_rfl }
  else o

def Order.abgelaufen (o : Order) : Order := { o with offen := false }

theorem Order.weiter_ausgefuehrt (o : Order) : o.Weiter o.ausgefuehrt := by
  unfold ausgefuehrt
  split
  next hoffen => exact ⟨rfl, rfl, rfl, rfl, rfl, o.filledQty_le, fun h => by simp [hoffen] at h⟩
  next => exact .refl o

theorem Order.weiter_abgelaufen (o : Order) : o.Weiter o.abgelaufen :=
  ⟨rfl, rfl, rfl, rfl, rfl, le_rfl, fun _ => ⟨rfl, rfl⟩⟩

theorem Buch.weiter_map (b : Buch) {f : Order → Order} (hf : ∀ o : Order, o.Weiter (f o)) :
    b.Weiter (b.map f) :=
  ⟨b.map f, [], by simp, List.forall₂_map_right_iff.mpr (List.forall₂_same.mpr fun o _ => hf o),
    fun _ ho => absurd ho List.not_mem_nil⟩

/-! ## An example -/

/-- An engine that exits by marketable limits and polls an order once. -/
def beispielUmfeld (displacementBuyFirst : Bool) : Umfeld where
  digest := id
  ziffern := Idempotenz.asciiZiffern
  shadowMode := false
  displacementBuyFirst
  useLimitOrders := false
  useLimitExits := true
  limitOrderSpreadBufferPct := 1 / 100
  allowRiskReducingExits := true
  complianceGuardian := true
  dustFloor := {}
  orderFillTimeoutSeconds := 1
  orderFillPollSeconds := 1

def beispielTenant : Tenant := ⟨"u1", 100000⟩

def beispielSignal (seite : Seite) : Signal where
  symbol := "AAPL"
  seite
  kontext := { currentPrice := 100, positionQty := 0, decisionId := "d1", clientOrderId := "" }
  suggestedQuantity := 0

end Absendung
