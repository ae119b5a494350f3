import AutonomousEngine.Absendung.Abgang

/-!
# The order run of a tenant

The run takes the lock of its symbol and goes through the steps.  An order that
was cancelled unfilled counts as executed, since it has reached the broker.
After any other order the books are brought up to date, and an error there
changes nothing of the result.

An error before that is reported, together with a record that the signal was
skipped.  The run keeps to its protocol (`executeTenantOrder_follows`).
-/

namespace Absendung

open Basis
open Gateway (Auftrag)
open Verkauf (Quelle)

/-! ## The run -/

/-- The steps that a sale or a purchase has on its own. -/
def seitenschritte (u : Umfeld) (tenant : Tenant) (event : Signal) : Lauf St :=
  match event.seite with
  | .sell => schrittMandantBestand event {}
  | .buy => do
      let st ← schrittMandantBemessung {}
      let st ← schrittMandantPortfolio st
      let st ← schrittMandantVerdraengung u event.kontext.currentPrice st
      schrittMandantSofortVerkaufen u tenant event.kontext st

def vorlauf (u : Umfeld) (tenant : Tenant) (event : Signal) (source : Quelle) : Lauf St := do
  schrittMandantVorbereiten event
  let st ← seitenschritte u tenant event
  let st ← schrittMandantMenge event source st
  schrittMandantCompliance u tenant event source st
  return st

/-- The steps from the request on.  `false` is an order that was cancelled. -/
def abgang (u : Umfeld) (tenant : Tenant) (event : Signal) (source : Quelle) (st : St) :
    Lauf Bool := do
  let req ← schrittMandantAuftrag u event st
  if u.shadowMode then
    schrittMandantSchatten u tenant event st req
    return true
  else
    let order ← schrittMandantSenden u tenant event source st req
    let (gefuellt, liveOrder) ← schrittMandantFuellung u
      (.auftrag st.size (istLimitExit event.seite req)) order
    if gefuellt then return true
    else
      schrittMandantStorno u tenant event source st req order liveOrder
      return false

/-- Reports an error, and that the signal was skipped unless its order was
executed. -/
def schrittMandantFehler (orderSubmitted : Bool) (e : Ende) : Lauf Unit := do
  frage (.fehler e)
  if !orderSubmitted then frage .auditSkipped

/-- What a run that breaks off still does. -/
def fehlerfaenger : Ende → Lauf Bool
  | .vorDemBroker => return false
  | e => do
      schrittMandantFehler false e
      return false

/-- Executes an order for a tenant.  `true` says that it has reached the broker. -/
def executeTenantOrder (u : Umfeld) (tenant : Tenant) (event : Signal) (source : Quelle) :
    Lauf Bool := do
  if ← dienst .lock then
    tryCatch (do
        let st ← vorlauf u tenant event source
        if ← abgang u tenant event source st then
          tryCatch (dienst .nachlauf) fun e => schrittMandantFehler true e
        return true)
      fehlerfaenger
  else return false

/-! ## What it asks -/

/-- What is fixed for a run, as far as its protocol names it. -/
structure Rahmen.Passt (k : Rahmen) (u : Umfeld) (event : Signal) (source : Quelle) : Prop where
  seite : k.seite = event.seite
  buyFirst : k.buyFirst = u.displacementBuyFirst
  coid : ∀ c, k.coid = some c → c = event.kontext.clientOrderId ∧ c ≠ ""
  folge : ∀ c, k.folge = some c → event.kontext.clientOrderId ≠ "" ∧
    Idempotenz.nextAttempt u.digest u.ziffern event.kontext.clientOrderId = .ok c
  obergrenze : ∀ o, k.obergrenze = some o → source = .humanApproved ∧
    o = |event.suggestedQuantity| ∧ 0 < o

/-- A run that has a size and has sent nothing for its event. -/
structure Vorbereitet (k : Rahmen) (u : Umfeld) (event : Signal) (source : Quelle) (st : St)
    (x : Zwischenstand) : Prop extends Bereit k u source st x where
  eigen : x.eigen = .nichts
  gesehen : x.gesehen = none
  storniert : x.storniert = false
  nachgereicht : x.nachgereicht = false
  size_le : source = .humanApproved → 0 < |event.suggestedQuantity| →
    st.size ≤ |event.suggestedQuantity|

/-- How a run has ended: its result says whether the order was accepted, unless an
error about a field that was never set was reported. -/
structure Beendet (b : Bool) (x : Zwischenstand) : Prop where
  erhalten : b = x.eigen.erhalten ∨ x.fehler.any Ende.ungebunden = true
  zurueck : Zurueckgenommen x.tausch x.gehalten

section

variable {k : Rahmen} {x : Zwischenstand} {u : Umfeld} {tenant : Tenant} {event : Signal}
  {source : Quelle} {st : St}

/-- What the steps of one side have found out: the state and the summary agree on the
displacement, and a size of zero is one of an empty position. -/
structure Bemessen (k : Rahmen) (st : St) (leer : Bool) (tausch : Tausch) : Prop where
  zurueck : Zurueckgenommen tausch false
  symbolToClose : st.symbolToClose.isSome = true ↔ k.seite = .buy
  deferred : st.deferredCloseSymbol.isSome = true → k.buyFirst = true
  verkauft : ∀ id, st.displacementSellOrderId = some id →
    tausch = .verkauft id st.displacementSellQty
  leer : st.sizingTrace = none → st.size ≤ 0 → k.seite = .sell ∧ leer = true

theorem meets_seitenschritte {Q : St → Zwischenstand → Prop} (hk : k.Passt u event source)
    (h : ∀ st leer ausgenommen tausch, Bemessen k st leer tausch →
      Q st { leer, ausgenommen, tausch }) :
    Meets (Schritt k) {} (seitenschritte u tenant event) Q (Abgebrochen k) := by
  have hx : Vorher {} := ⟨rfl, rfl, zurueckgenommen_keiner⟩
  unfold seitenschritte
  cases hseite : event.seite with
  | sell =>
      have hk' : k.seite = .sell := hk.seite.trans hseite
      refine meets_schrittMandantBestand hx fun qty held ausgenommen => h _ _ _ .keiner ?_
      exact
        { zurueck := zurueckgenommen_keiner, symbolToClose := by simp [hk'], deferred := by simp, verkauft := by simp
          leer := fun _ hle => ⟨hk', decide_eq_true hle⟩ }
  | buy =>
      have hk' : k.seite = .buy := hk.seite.trans hseite
      simp only [meets_bind]
      refine meets_schrittMandantBemessung hx fun account size zeroReason => ?_
      refine meets_schrittMandantPortfolio hx fun symbolToClose => ?_
      refine meets_schrittMandantVerdraengung hx fun st hst => ?_
      have hleer {st : St} (h : st.sizingTrace = some zeroReason) :
          st.sizingTrace = none → st.size ≤ 0 → k.seite = .sell ∧ false = true := by
        intro hnone
        rw [h] at hnone
        cases hnone
      have hbemessen : Bemessen k st false .keiner := by
        cases hst with
        | nicht => exact ⟨zurueckgenommen_keiner, by simp [hk'], by simp, by simp, hleer rfl⟩
        | danach _ _ hfirst =>
            exact ⟨zurueckgenommen_keiner, by simp [hk'], fun _ => hk.buyFirst.trans hfirst, by simp,
              hleer rfl⟩
        | davor => exact ⟨zurueckgenommen_keiner, by simp [hk'], by simp, by simp, hleer rfl⟩
      refine meets_schrittMandantSofortVerkaufen hx rfl (fun hsofort => ?_)
        (h st false false .keiner hbemessen)
        fun id q s _ _ => h _ _ false _ ?_
      · cases hst with
        | nicht => cases hsofort
        | danach => cases hsofort
        | davor s _ hfirst hsymbol hne => exact ⟨hk.buyFirst.trans hfirst, s, hsymbol, hne⟩
      · exact
          { zurueck := zurueckgenommen_verkauft, symbolToClose := hbemessen.symbolToClose
            deferred := hbemessen.deferred, leer := hbemessen.leer
            verkauft := fun id' hid => by obtain rfl := Option.some.inj hid; rfl }

theorem meets_vorlauf {Q : St → Zwischenstand → Prop} (hk : k.Passt u event source)
    (h : ∀ st y, Vorbereitet k u event source st y → Q st y) :
    Meets (Schritt k) {} (vorlauf u tenant event source) Q (Abgebrochen k) := by
  rw [vorlauf, meets_bind]
  refine meets_schrittMandantVorbereiten ⟨rfl, rfl, nofun⟩ ?_
  rw [meets_bind]
  refine meets_seitenschritte hk fun st leer ausgenommen tausch hst => ?_
  have hx : Vorher { leer, ausgenommen, tausch } := ⟨rfl, rfl, hst.zurueck⟩
  rw [meets_bind]
  refine meets_schrittMandantMenge hx (fun size hpos hle => ?_) fun hnone hsize =>
    ⟨rfl, hst.leer hnone hsize, .inr rfl, hst.zurueck⟩
  rw [meets_bind]
  refine meets_schrittMandantCompliance hx rfl fun belegt hbelegt => h _ _ ?_
  exact
    { fehler := rfl, zurueck := hst.zurueck, uebersprungen := rfl, erstattet := rfl
      belegt := fun hg hs hb => hbelegt hg hs (hk.seite ▸ hb)
      symbolToClose := hst.symbolToClose, deferred := hst.deferred, verkauft := hst.verkauft
      eigen := rfl, gesehen := rfl, storniert := rfl, nachgereicht := rfl, size_le := hle }

/-- The steps from the request on leave an accepted order and no report. -/
theorem meets_abgang {Q : Bool → Zwischenstand → Prop} (hk : k.Passt u event source)
    (hv : Vorbereitet k u event source st x)
    (h : ∀ b y, y.eigen.erhalten = true → y.fehler = none →
      Zurueckgenommen y.tausch y.gehalten → Q b y) :
    Meets (Schritt k) x (abgang u tenant event source st) Q (Abgebrochen k) := by
  have hb := hv.toBereit
  rw [abgang, meets_bind]
  refine meets_schrittMandantAuftrag ⟨hv.eigen, hv.fehler, hv.zurueck⟩ fun req hqty hcoid => ?_
  have hfolge : ∀ c, k.folge = some c → ∃ c₀, schluessel req = some c₀ ∧
      Idempotenz.nextAttempt u.digest u.ziffern c₀ = .ok c := fun c hc =>
    ⟨_, hcoid (hk.folge c hc).1, (hk.folge c hc).2⟩
  split
  next =>
    rw [meets_bind]
    exact meets_schrittMandantSchatten hb hv.eigen hqty (h true _ rfl hv.fehler hv.zurueck)
  next =>
    rw [meets_bind]
    have hgrenze : k.Begrenzt st.size := by
      intro o ho
      obtain ⟨hhuman, rfl, hpos⟩ := hk.obergrenze o ho
      exact hv.size_le hhuman hpos
    refine meets_schrittMandantSenden hb hv.eigen hqty hk.seite.symm (fun c hc => ?_) hfolge
      hgrenze fun id frei => ?_
    · obtain ⟨rfl, hne⟩ := hk.coid c hc
      exact hcoid hne
    · rw [meets_bind]
      refine meets_schrittMandantFuellung rfl rfl hv.storniert hv.gesehen
        fun gefuellt gesehen => ?_
      dsimp only
      split
      next => exact h true _ rfl hv.fehler hv.zurueck
      next =>
        rw [meets_bind]
        refine meets_schrittMandantStorno ?_ rfl hk.seite.symm rfl hv.nachgereicht rfl hfolge hgrenze
          fun nachgereicht tausch gehalten erstattet hzurueck => h false _ rfl hv.fehler hzurueck
        exact ⟨hb.fehler, hb.zurueck, hb.uebersprungen, hb.erstattet, hb.belegt, hb.symbolToClose,
          hb.deferred, hb.verkauft⟩

theorem meets_fehlerfaenger {e : Ende} (h : Abgebrochen k e x) :
    Meets (Schritt k) x (fehlerfaenger e) Beendet fun _ => Beendet false := by
  have hende : Beendet false { x with fehler := some e, uebersprungen := true } := by
    refine ⟨h.erhalten.imp (fun herh => herh.symm) fun hun => hun, h.zurueck⟩
  have hmelden : Meets (Schritt k) x (do
      schrittMandantFehler false e
      return false : Lauf Bool) Beendet fun _ => Beendet false := by
    rw [meets_bind, schrittMandantFehler, meets_bind]
    refine meets_frage fun _ => ⟨_, .fehler h.fehler h.moeglich, ?_⟩
    exact meets_frage fun _ => ⟨_, .uebersprungen h.erhalten, hende⟩
  cases e with
  | vorDemBroker => exact ⟨.inl (h.erhalten.resolve_right nofun).symm, h.zurueck⟩
  | _ => exact hmelden

/-- The order run of a tenant keeps to its protocol. -/
theorem executeTenantOrder_meets (hk : k.Passt u event source) :
    Meets (Schritt k) {} (executeTenantOrder u tenant event source) Beendet
      fun _ => Beendet false := by
  have hleer : Beendet false {} := ⟨.inl rfl, nofun⟩
  rw [executeTenantOrder, meets_bind]
  refine meets_dienst (fun acquired => ?_) fun _ => hleer
  split
  next =>
    rw [meets_tryCatch]
    refine Meets.mono (E := Abgebrochen k) (Q := Beendet) ?_ (fun _ _ h => h) fun e y hab => ?_
    · rw [meets_bind]
      refine meets_vorlauf hk fun st y hv => ?_
      rw [meets_bind]
      refine meets_abgang hk hv fun b z herhalten hfehler hzurueck => ?_
      split
      next =>
        rw [meets_bind, meets_tryCatch]
        refine meets_dienst (fun _ => ⟨.inl herhalten.symm, hzurueck⟩) fun f => ?_
        rw [schrittMandantFehler, meets_bind]
        exact meets_frage fun _ => ⟨_, .fehler hfehler trivial, ⟨.inl herhalten.symm, hzurueck⟩⟩
      next => exact ⟨.inl herhalten.symm, hzurueck⟩
    · exact meets_fehlerfaenger hab
  next => exact hleer

end

/-- How a program that may raise has ended. -/
def Ausgegangen : Except Ende Bool → Zwischenstand → Prop
  | .ok b, x => Beendet b x
  | .error _, x => Beendet false x

theorem executeTenantOrder_follows {k : Rahmen} {u : Umfeld} {event : Signal} {source : Quelle}
    (hk : k.Passt u event source) (tenant : Tenant) :
    (executeTenantOrder u tenant event source).run.Follows (Schritt k) Ausgegangen {} :=
  follows_run.mpr (executeTenantOrder_meets hk)

def rahmen (u : Umfeld) (event : Signal) : Rahmen where
  seite := event.seite
  buyFirst := u.displacementBuyFirst

theorem rahmen_passt (u : Umfeld) (event : Signal) (source : Quelle) :
    (rahmen u event).Passt u event source :=
  ⟨rfl, rfl, nofun, nofun, nofun⟩

/-! ## Its runs -/

def Unberuehrt (b : Buch) : Prop := ∀ o ∈ b, o.zweck = none

/-- The runs of an order of a tenant, against a broker that may do anything. -/
def mandantenlauf (u : Umfeld) (tenant : Tenant) (event : Signal) (source : Quelle) :
    System (Conf Buch Frage Frage.Antwort (Except Ende Bool)) (Option (Σ i, Frage.Antwort i)) :=
  welt.run Unberuehrt (executeTenantOrder u tenant event source).run

end Absendung
