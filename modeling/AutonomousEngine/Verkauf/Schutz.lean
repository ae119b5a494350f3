import AutonomousEngine.Verkauf.Pfade

/-!
# Protective exits

Once per cycle the stop check looks at every held position, and for each that
trips a stop it dispatches a sale whose context is marked.  Such a sale must not
wait behind a soft gate.

The halt honours the mark at every place where it is looked at, and the dust
floor and the daily budget stop no exit of a held position
(`SchutzSignal.nieWeich_desktop`, `SchutzSignal.nieWeich_mandant`).  The minimum
hold does not know the mark.  The desktop asks the event for its class and gets
none, and a tenant does not ask.  So a stop of a fresh position waits on both paths
(`schutz_exit_wartet`), and `schutz_exit_beide_pfade` says exactly when nothing but
the market, the broker's data, the write lease or `checkOrder` is in its way.
-/

namespace Verkauf

open Basis

/-! ## The stop check -/

/-- The tier of an exit. -/
inductive Tier where
  | risk
  | opinion
deriving DecidableEq, Repr

/-- A position as the stop check reads it. -/
structure Position where
  symbol : String
  qty : Rat
  avgEntryPrice : Rat
  currentPrice : Rat
deriving DecidableEq, Repr

/-- The context that the exit analysis gets. -/
structure PositionContext where
  symbol : String
  entryPrice : Rat
  currentPrice : Rat
  highWaterMark : Rat
  hoursHeld : Rat
  entryTime : Rat
deriving DecidableEq, Repr

/-- What the stop check reads.  The exit analysis is a function of its context,
`none` when it holds. -/
structure StopLage where
  getAllPositions : Option (List Position)
  tradeHistory : String → List Rat
  highWaterMarks : String → Option Rat
  entryTimes : String → Option Rat
  now : Rat
  analyzeExit : PositionContext → Option Tier
  retentionThreshold : Rat := 0
  liveConsensus : String → Option Rat

def aeltester : List Rat → Option Rat
  | [] => none
  | t :: ts => some (ts.foldl min t)

/-- The tier of the exit that a position calls for.  Incomplete data call for
none. -/
def evaluatePositionStop (S : StopLage) (symbol : String) (currentPrice avgEntryPrice : Rat)
    (entryTime highWaterMark : Option Rat) : Option Tier :=
  if avgEntryPrice ≤ 0 then none
  else
    match entryTime with
    | none => none
    | some entry =>
        if currentPrice ≤ 0 then none
        else S.analyzeExit
          { symbol, entryPrice := avgEntryPrice, currentPrice
            highWaterMark :=
              (highWaterMark.filter fun m => decide (0 < m)).getD (max avgEntryPrice currentPrice)
            hoursHeld := max 0 (S.now - entry), entryTime := entry }

/-- A planned exit. -/
structure PositionPlan where
  symbol : String
  qty : Rat
  avgEntryPrice : Rat
  currentPrice : Rat
  tier : Tier
deriving DecidableEq, Repr

def planPositionStops (S : StopLage) (positions : List Position) : List PositionPlan :=
  positions.filterMap fun pos =>
    if pos.symbol = "" ∨ pos.qty ≤ 0 then none
    else
      let entryTime := (S.entryTimes pos.symbol).orElse fun _ =>
        aeltester (S.tradeHistory pos.symbol)
      (evaluatePositionStop S pos.symbol pos.currentPrice pos.avgEntryPrice entryTime
        (S.highWaterMarks pos.symbol)).map fun tier =>
          { symbol := pos.symbol, qty := pos.qty, avgEntryPrice := pos.avgEntryPrice
            currentPrice := pos.currentPrice, tier }

/-- Whether the live consensus keeps a name.  It never keeps a risk exit. -/
def consensusRetentionVeto (S : StopLage) (symbol : String) (tier : Tier) : Bool :=
  if tier = .risk then false
  else if S.retentionThreshold ≤ 0 then false
  else
    match S.liveConsensus symbol with
    | none => false
    | some consensus => decide (S.retentionThreshold < consensus)

def stopEvent (p : PositionPlan) : SignalEvent :=
  { symbol := p.symbol, action := .sell
    decisionContext :=
      { currentPrice := p.currentPrice, positionQty := p.qty, triggeredByStop := true }
    suggestedQuantity := 0 }

/-- The sales that a stop check dispatches, with their tiers. -/
def runPositionStopChecks (S : StopLage) : List (Tier × SignalEvent) :=
  match S.getAllPositions with
  | none => []
  | some positions =>
      (planPositionStops S positions).filterMap fun p =>
        if consensusRetentionVeto S p.symbol p.tier then none else some (p.tier, stopEvent p)

/-- What a dispatched sale looks like. -/
structure SchutzSignal (event : SignalEvent) : Prop where
  verkauf : event.action = .sell
  echt : event.isSimulation = false
  ohneMenge : event.suggestedQuantity = 0
  marke : event.decisionContext.triggeredByStop = true
  preis : 0 < event.decisionContext.currentPrice
  bestand : 0 < event.decisionContext.positionQty

/-- A position that calls for an exit has a price. -/
theorem preis_of_evaluate {S : StopLage} {symbol : String} {currentPrice avgEntryPrice : Rat}
    {entryTime highWaterMark : Option Rat} {tier : Tier}
    (h : evaluatePositionStop S symbol currentPrice avgEntryPrice entryTime highWaterMark =
      some tier) :
    0 < currentPrice := by
  unfold evaluatePositionStop at h
  split at h
  next => cases h
  next =>
    cases entryTime with
    | none => cases h
    | some entry =>
      by_contra hle
      simp only [if_pos (not_lt.mp hle), reduceCtorEq] at h

theorem plan_pos {S : StopLage} {positions : List Position} {p : PositionPlan}
    (h : p ∈ planPositionStops S positions) : 0 < p.currentPrice ∧ 0 < p.qty := by
  obtain ⟨pos, -, hpos⟩ := List.mem_filterMap.mp h
  split at hpos
  next => cases hpos
  next hno =>
    obtain ⟨tier, htier, rfl⟩ := Option.map_eq_some_iff.mp hpos
    exact ⟨preis_of_evaluate htier, not_le.mp fun hle => hno (.inr hle)⟩

theorem schutzSignal_of_mem {S : StopLage} {tier : Tier} {event : SignalEvent}
    (h : (tier, event) ∈ runPositionStopChecks S) : SchutzSignal event := by
  unfold runPositionStopChecks at h
  split at h
  next => cases h
  next positions _ =>
    obtain ⟨p, hp, heq⟩ := List.mem_filterMap.mp h
    split at heq
    next => cases heq
    next =>
      obtain ⟨-, rfl⟩ := Prod.mk.inj (Option.some.inj heq)
      obtain ⟨hpreis, hqty⟩ := plan_pos hp
      exact ⟨rfl, rfl, rfl, rfl, hpreis, hqty⟩

theorem risk_dispatched {S : StopLage} {positions : List Position} {p : PositionPlan}
    (hS : S.getAllPositions = some positions) (hp : p ∈ planPositionStops S positions)
    (hrisk : p.tier = .risk) : (.risk, stopEvent p) ∈ runPositionStopChecks S := by
  unfold runPositionStopChecks
  rw [hS]
  exact List.mem_filterMap.mpr ⟨p, hp, by simp [consensusRetentionVeto, hrisk]⟩

/-! ## A protective exit on its way -/

/-- The broker holds the position: it does not report it missing, and what it
reports is a long position. -/
def Gehalten (L : Lage) : Prop :=
  L.getOpenPosition ≠ .fehlt ∧ ∀ x, L.getOpenPosition = .menge x → 0 < x

/-- Compliance lets risk reducing exits pass a spent budget. -/
def BudgetOffen (L : Lage) : Prop :=
  ∀ g, L.complianceGuardian = some g → g.allowRiskReducingExits = true

/-- What stops a protective exit at the release of its shares. -/
def StopptFreigabe (P : Abbruch → Prop) (b : Broker) (symbol : String) (qty : Rat) : Prop :=
  liegtEtwas b symbol = true →
    (stopsWeg b symbol = false → P (.stueckeNichtFrei (some .stornoOffen))) ∧
    (stopsWeg b symbol = true →
      (bestandFrei b symbol = none → P (.stueckeNichtFrei (some .bestandUnlesbar))) ∧
      ∀ frei, bestandFrei b symbol = some frei → min qty frei < minBrokerQty →
        P (.stueckeNichtFrei (some (.nichtsFrei frei))))

def StopptTor (P : Abbruch → Prop) (t : TorLage) (dryRun : Bool) (symbol : String) (qty : Rat) :
    Prop :=
  (t.darfSchreiben = false → P .keineSchreibberechtigung) ∧
  (t.darfSchreiben = true → dryRun = false → StopptFreigabe P t.broker symbol qty)

def StopptAusgang (P : Abbruch → Prop) (L : Lage) (order : ComplianceOrder) : Prop :=
  (∀ g, L.complianceGuardian = some g → g.checkOrder order = false → P .checkOrder) ∧
  ((∀ g, L.complianceGuardian = some g → g.checkOrder order = true) →
    StopptTor P L.tor L.shadowMode order.symbol order.quantity)

def StopptDesktop (P : Abbruch → Prop) (L : DesktopLage) (event : SignalEvent) : Prop :=
  (L.marktGeschlossen = true → P .marktGeschlossen) ∧
  (L.marktGeschlossen = false →
    (L.getOpenPosition = .fehler → P .bestandUnlesbar) ∧
    ∀ x, L.getOpenPosition = .menge x →
      (hitlHoldsOrder L.hitl event x = true → P .wartetAufMensch) ∧
      (hitlHoldsOrder L.hitl event x = false →
        (∀ b, L.portfolioManager = some b → (canSellPosition b L.now event.symbol).1 = false →
          P (.gehalten (canSellPosition b L.now event.symbol).2)) ∧
        ((∀ b, L.portfolioManager = some b →
            (canSellPosition b L.now event.symbol).1 = true) →
          StopptAusgang P L.toLage
            (complianceOrder event x |x| (L.activeUid.getD "global")))))

def StopptMandant (P : Abbruch → Prop) (L : MandantLage) (event : SignalEvent) : Prop :=
  (L.marktGeschlossen = true → P .marktGeschlossen) ∧
  (L.marktGeschlossen = false →
    (L.lockErhalten = false → P .orderSperre) ∧
    (L.lockErhalten = true →
      ((canSellPosition L.portfolioManager L.now event.symbol).1 = false →
        P (.gehalten (canSellPosition L.portfolioManager L.now event.symbol).2)) ∧
      ((canSellPosition L.portfolioManager L.now event.symbol).1 = true →
        (L.getOpenPosition = .fehler → P .bestandUnlesbar) ∧
        ∀ x, L.getOpenPosition = .menge x →
          StopptAusgang P L.toLage (complianceOrder event x |x| L.userId))))

section Ausgang

variable {P : Abbruch → Prop} {event : SignalEvent} {L : Lage} {qty : Rat}

theorem SchutzSignal.haltExempt (h : SchutzSignal event) :
    haltExemptProtectiveExit event.decisionContext event.action = true := by
  simp [haltExemptProtectiveExit, h.verkauf, h.marke]

/-- The halt stops no protective exit, wherever it is looked at. -/
theorem SchutzSignal.ends_checkHalt (h : SchutzSignal event) {Q : Unit → Prop}
    {punkt : HaltPunkt} : Ends P Q (checkHalt L event punkt) ↔ Q () := by
  simp [checkHalt, h.haltExempt]

/-- A protective exit passes the head of both paths unless the market is closed. -/
theorem SchutzSignal.ends_schrittMarktOffen (h : SchutzSignal event) {Q : Unit → Prop} :
    Ends P Q (schrittMarktOffen L event) ↔
      (L.marktGeschlossen = true → P .marktGeschlossen) ∧ (L.marktGeschlossen = false → Q ()) := by
  simp [schrittMarktOffen, h.verkauf, h.echt, and_comm]

/-- At the gate only the write lease and the release of the shares stop it, and the gateway
approves it. -/
theorem ends_sendeDurchsTor_schutz {t : TorLage} {dryRun : Bool} {symbol : String}
    (hpos : 0 < qty) :
    Ends P (fun r => r.2 = true) (sendeDurchsTor t dryRun symbol qty true) ↔
      StopptTor P t dryRun symbol qty := by
  have hart : ohneFreigabe dryRun (verkaufsIntent t symbol qty true) = dryRun := by
    simp [ohneFreigabe, freigestellt, verkaufsIntent]
  have hurteil : t.decide (verkaufsIntent t symbol qty true) = true := by
    simp [TorLage.decide, freigestellt, verkaufsIntent]
  rw [ends_sendeDurchsTor hpos, hart, hurteil, and_comm]
  unfold StopptTor StopptFreigabe
  refine and_congr_right fun _ => imp_congr_right fun _ => ?_
  cases dryRun with
  | true => simp
  | false =>
    cases liegtEtwas t.broker symbol with
    | false => simp
    | true =>
      cases stopsWeg t.broker symbol with
      | false => simp
      | true =>
        cases bestandFrei t.broker symbol with
        | none => simp
        | some frei =>
          simp only [Bool.true_eq_false, or_self, if_false, reduceCtorEq, false_imp_iff, true_and,
            forall_const, Option.some.injEq, forall_eq']
          split
          next hmin => simp [hmin]
          next hmin => simp [hmin]

/-- From compliance on, with the whole position as the quantity: the dust floor and the budget
stop no exit of what is held. -/
theorem SchutzSignal.ends_ausgang (h : SchutzSignal event) (userId : String) (source : Quelle)
    (hbudget : BudgetOffen L) (hpos : 0 < qty) {rest : Except Abbruch (Rat × Bool)}
    (hrest : Ends P (fun r => r.2 = true) rest ↔
      StopptTor P L.tor L.shadowMode event.symbol qty) :
    Ends P (fun _ => Ends P (fun r => r.2 = true) rest)
        (eisenKuppel L event (complianceOrder event qty |qty| userId) source) ↔
      StopptAusgang P L (complianceOrder event qty |qty| userId) := by
  have hheld : 0 < (complianceOrder event qty |qty| userId).heldQty := abs_pos.mpr hpos.ne'
  have hle : (complianceOrder event qty |qty| userId).quantity ≤
      (complianceOrder event qty |qty| userId).heldQty := le_abs_self qty
  rw [ends_eisenKuppel, hrest]
  unfold StopptAusgang
  cases hg : L.complianceGuardian with
  | none => simp [complianceOrder]
  | some g =>
    have htrade : checkTrade g (complianceOrder event qty |qty| userId) source = true :=
      checkTrade_of_gehalten (hbudget g hg) h.verkauf (classifyExitKind_eq_none event) hheld hle
        source
    simp only [htrade, Option.some.injEq, forall_eq', forall_const, Bool.true_eq_false,
      false_imp_iff, and_true]
    exact and_comm

theorem SchutzSignal.ends_schrittAbsenden {L : DesktopLage} (h : SchutzSignal event)
    (hpos : 0 < qty) :
    Ends P (fun r => r.2 = true) (schrittAbsenden L event qty) ↔
      StopptTor P L.tor L.shadowMode event.symbol qty := by
  unfold schrittAbsenden
  rw [h.haltExempt]
  cases L.shadowMode with
  | true => exact ends_sendeDurchsTor_schutz hpos
  | false =>
    rw [if_neg Bool.false_ne_true, ends_bind, h.ends_checkHalt]
    exact ends_sendeDurchsTor_schutz hpos

theorem SchutzSignal.ends_schrittMandantSenden {L : MandantLage} (h : SchutzSignal event)
    (hpos : 0 < qty) :
    Ends P (fun r => r.2 = true) (schrittMandantSenden L event qty) ↔
      StopptTor P L.tor L.shadowMode event.symbol qty := by
  rw [schrittMandantSenden, h.haltExempt]
  exact ends_sendeDurchsTor_schutz hpos

/-- The desktop path of a protective exit of a held position. -/
theorem SchutzSignal.ends_desktop {L : DesktopLage} (h : SchutzSignal event)
    (hgehalten : Gehalten L.toLage) (hbudget : BudgetOffen L.toLage) :
    Ends P (fun r => r.2 = true) (processSignalEvent L event) ↔ StopptDesktop P L event := by
  have hmenge : desktopMenge L event = (fun qty => (qty, |qty|)) <$> L.getOpenPosition.lies := by
    simp [desktopMenge, h.ohneMenge]
  unfold processSignalEvent StopptDesktop
  rw [ends_bind, h.ends_schrittMarktOffen, hmenge, ends_bind, ends_map, ends_lies]
  refine and_congr_right fun _ => imp_congr_right fun _ => ?_
  cases hpos : L.getOpenPosition with
  | fehlt => exact absurd hpos hgehalten.1
  | fehler => simp
  | menge x =>
    have hx : 0 < x := hgehalten.2 x hpos
    have hzeuge : ¬ |x| ≤ 0 := not_le.mpr (abs_pos.mpr hx.ne')
    have hrest := h.ends_ausgang (P := P) (L.activeUid.getD "global") .ai hbudget hx
      (h.ends_schrittAbsenden hx)
    simp only [ends_bind, ends_gate, ends_schrittDesktopVerkaufstor, schrittCompliance,
      if_neg hzeuge, schrittDesktopAuftrag, h.ends_checkHalt, hrest]
    cases L.portfolioManager with
    | none => simp [hx, and_comm]
    | some b => simp [hx, and_comm]

/-- The tenant path of a protective exit of a held position. -/
theorem SchutzSignal.ends_mandant {L : MandantLage} (h : SchutzSignal event)
    (hgehalten : Gehalten L.toLage) (hbudget : BudgetOffen L.toLage) :
    Ends P (fun r => r.2 = true) (schrittVerteilung L event) ↔ StopptMandant P L event := by
  unfold schrittVerteilung executeTenantOrder StopptMandant
  rw [ends_bind, h.ends_schrittMarktOffen]
  refine and_congr_right fun _ => imp_congr_right fun _ => ?_
  simp only [ends_bind, ends_gate, schrittMandantVorbereiten, schrittMandantBestand, ends_lies,
    h.preis, decide_true, forall_const, Bool.true_eq_false, false_imp_iff, and_true]
  cases hpos : L.getOpenPosition with
  | fehlt => exact absurd hpos hgehalten.1
  | fehler => simp [and_comm]
  | menge x =>
    have hx : 0 < x := hgehalten.2 x hpos
    have hmenge : schrittMandantMenge event .ai x = .ok x := by
      simp [schrittMandantMenge, not_le.mpr hx]
    have hrest := h.ends_ausgang (P := P) L.userId .ai hbudget hx (h.ends_schrittMandantSenden hx)
    simp only [hmenge, ends_ok, schrittMandantCompliance, schrittMandantAuftrag, h.ends_checkHalt,
      hrest]
    simp [and_comm]

end Ausgang

/-! ## What may stop a protective exit -/

/-- What may stop a protective exit: a closed market, broker data that cannot be
read, `checkOrder` and a missing write lease. -/
def Erlaubt : Abbruch → Prop
  | .marktGeschlossen => True
  | .bestandUnlesbar => True
  | .stueckeNichtFrei (some .bestandUnlesbar) => True
  | .checkOrder => True
  | .keineSchreibberechtigung => True
  | _ => False

/-- A protective exit reaches the gateway and is approved there, or is stopped by
what may stop it. -/
def WartetNicht (x : Except Abbruch (Rat × Bool)) : Prop :=
  Ends Erlaubt (fun r => r.2 = true) x

/-- What rests on a symbol can be cancelled, and enough is free then. -/
def StueckeFrei (b : Broker) (symbol : String) (qty : Rat) : Prop :=
  liegtEtwas b symbol = true → stopsWeg b symbol = true ∧
    ∀ frei, bestandFrei b symbol = some frei → minBrokerQty ≤ min qty frei

/-- Nothing but `checkOrder` and the write lease is in the way from compliance
on. -/
def AusgangFrei (L : Lage) (order : ComplianceOrder) : Prop :=
  (∀ g, L.complianceGuardian = some g → g.checkOrder order = true) →
    L.tor.darfSchreiben = true → L.shadowMode = false →
      StueckeFrei L.tor.broker order.symbol order.quantity

/-- When a protective exit does not wait on the desktop path: in an open market,
with a position that can be read, no human is asked, the minimum hold is over,
and the way out is free. -/
def DesktopFrei (L : DesktopLage) (event : SignalEvent) : Prop :=
  L.marktGeschlossen = false → ∀ x, L.getOpenPosition = .menge x →
    hitlHoldsOrder L.hitl event x = false ∧
    (∀ b, L.portfolioManager = some b → (canSellPosition b L.now event.symbol).1 = true) ∧
    AusgangFrei L.toLage (complianceOrder event x |x| (L.activeUid.getD "global"))

/-- When a protective exit does not wait on the tenant path: in an open market,
the lock is free, the minimum hold is over, and with a position that can be read
the way out is free. -/
def MandantFrei (L : MandantLage) (event : SignalEvent) : Prop :=
  L.marktGeschlossen = false →
    L.lockErhalten = true ∧
    (canSellPosition L.portfolioManager L.now event.symbol).1 = true ∧
    ∀ x, L.getOpenPosition = .menge x →
      AusgangFrei L.toLage (complianceOrder event x |x| L.userId)

/-- A gate that has to be open, and what follows behind it. -/
theorem and_imp_iff_and {a b : Prop} : a ∧ (a → b) ↔ a ∧ b :=
  and_congr_right fun ha => forall_prop_of_true ha

theorem stopptAusgang_erlaubt {L : Lage} {order : ComplianceOrder} :
    StopptAusgang Erlaubt L order ↔ AusgangFrei L order := by
  simp [StopptAusgang, StopptTor, StopptFreigabe, AusgangFrei, StueckeFrei, Erlaubt, and_imp_iff_and]

theorem stopptDesktop_erlaubt {L : DesktopLage} {event : SignalEvent} :
    StopptDesktop Erlaubt L event ↔ DesktopFrei L event := by
  simp [StopptDesktop, DesktopFrei, stopptAusgang_erlaubt, Erlaubt, and_imp_iff_and]

theorem stopptMandant_erlaubt {L : MandantLage} {event : SignalEvent} :
    StopptMandant Erlaubt L event ↔ MandantFrei L event := by
  simp [StopptMandant, MandantFrei, stopptAusgang_erlaubt, Erlaubt, and_imp_iff_and]

/-- Without a human in the loop and with shares that can be released, only the minimum hold is in
the way of a desktop. -/
theorem desktopFrei_iff_verkaufstor {L : DesktopLage} {event : SignalEvent} {x : Rat}
    (hmarkt : L.marktGeschlossen = false) (hitl : L.hitl.enabled = false)
    (hx : L.getOpenPosition = .menge x) (hfrei : StueckeFrei L.tor.broker event.symbol x) :
    DesktopFrei L event ↔
      ∀ b, L.portfolioManager = some b → (canSellPosition b L.now event.symbol).1 = true := by
  constructor
  · intro h
    exact (h hmarkt x hx).2.1
  · intro htor _ y hy
    obtain rfl : x = y := Positionsantwort.menge.inj (hx.symm.trans hy)
    exact ⟨by simp [hitlHoldsOrder, hitl], htor, fun _ _ _ => hfrei⟩

/-- And of a tenant, when the lock is free. -/
theorem mandantFrei_iff_verkaufstor {L : MandantLage} {event : SignalEvent} {x : Rat}
    (hmarkt : L.marktGeschlossen = false) (hlock : L.lockErhalten = true)
    (hx : L.getOpenPosition = .menge x) (hfrei : StueckeFrei L.tor.broker event.symbol x) :
    MandantFrei L event ↔ (canSellPosition L.portfolioManager L.now event.symbol).1 = true := by
  constructor
  · intro h
    exact (h hmarkt).2.1
  · intro htor _
    refine ⟨hlock, htor, fun y hy => ?_⟩
    obtain rfl : x = y := Positionsantwort.menge.inj (hx.symm.trans hy)
    exact fun _ _ _ => hfrei

/-! ## What never stops a protective exit -/

/-- The soft gates that a protective exit never meets: the dust floor, the daily
budget, the halt and the lock of the reconciliation. -/
def Weich : Abbruch → Prop
  | .staub _ => True
  | .tageslimit => True
  | .halt => True
  | .abgleichSperre => True
  | _ => False

/-- A protective exit reaches the gateway and is approved there, or is stopped by
something that is not soft. -/
def NieWeich (x : Except Abbruch (Rat × Bool)) : Prop :=
  Ends (fun a => ¬ Weich a) (fun r => r.2 = true) x

/-- On the desktop path a protective exit of a held position never waits behind the dust floor,
the daily budget or the halt, whatever else it meets. -/
theorem SchutzSignal.nieWeich_desktop {event : SignalEvent} (h : SchutzSignal event)
    {L : DesktopLage} (hgehalten : Gehalten L.toLage) (hbudget : BudgetOffen L.toLage) :
    NieWeich (processSignalEvent L event) :=
  (h.ends_desktop hgehalten hbudget).mpr
    (by simp [StopptDesktop, StopptAusgang, StopptTor, StopptFreigabe, Weich])

/-- On the tenant path neither. -/
theorem SchutzSignal.nieWeich_mandant {event : SignalEvent} (h : SchutzSignal event)
    {L : MandantLage} (hgehalten : Gehalten L.toLage) (hbudget : BudgetOffen L.toLage) :
    NieWeich (schrittVerteilung L event) :=
  (h.ends_mandant hgehalten hbudget).mpr
    (by simp [StopptMandant, StopptAusgang, StopptTor, StopptFreigabe, Weich])

/-! ## A position that has lost -/

/-- The exit analysis below the hard stop. -/
def hardStop (ctx : PositionContext) : Option Tier :=
  if (ctx.currentPrice - ctx.entryPrice) / ctx.entryPrice * 100 ≤ -8 then some .risk else none

/-- A position that has lost a tenth since it was bought at time zero. -/
def verlust (now : Rat) : StopLage where
  getAllPositions := some [{ symbol := "AAA", qty := 10, avgEntryPrice := 100, currentPrice := 90 }]
  tradeHistory := fun _ => [0]
  highWaterMarks := fun _ => none
  entryTimes := fun _ => none
  now
  analyzeExit := hardStop
  liveConsensus := fun _ => none

def verlustVerkauf : SignalEvent :=
  stopEvent { symbol := "AAA", qty := 10, avgEntryPrice := 100, currentPrice := 90, tier := .risk }

/-- An open market, a readable position, and nothing that rests at the broker. -/
def ruhigeLage (bestand now : Rat) : Lage where
  marktGeschlossen := false
  getOpenPosition := .menge bestand
  complianceGuardian := none
  dustFloor := {}
  equity := 1000
  now
  shadowMode := false
  tor :=
    { darfSchreiben := true, abgleich := none, halt := fun _ => false
      broker := { getOrders := some [], stornoBestaetigt := fun _ => true
                  getAllPositions := some [] } }

/-- The trade book as it is shipped, with the purchase at time zero. -/
def kaufbuch : Handelsbuch where
  tradeHistory := fun _ => [0]
  consecutiveSellSignals := fun _ => 0
  consecutiveSellThreshold := 8
  minHoldHours := 4

/-- The desktop and a tenant in that situation. -/
def ruhigerDesktop (bestand now : Rat) : DesktopLage where
  toLage := ruhigeLage bestand now
  getOpenPositionErneut := .menge bestand
  portfolioManager := some kaufbuch
  hitl := {}
  activeUid := none

@[inherit_doc ruhigerDesktop]
def ruhigerMandant (bestand now : Rat) : MandantLage where
  toLage := ruhigeLage bestand now
  lockErhalten := true
  portfolioManager := kaufbuch
  userId := "u"

theorem verlustVerkauf_mem (now : Rat) :
    (.risk, verlustVerkauf) ∈ runPositionStopChecks (verlust now) := by
  have hname : ("AAA" : String) ≠ "" := by decide
  refine risk_dispatched rfl (List.mem_filterMap.mpr ⟨_, List.mem_singleton_self _, ?_⟩) rfl
  norm_num [evaluatePositionStop, verlust, aeltester, hardStop, hname]

theorem gehalten_ruhigeLage {bestand : Rat} (hpos : 0 < bestand) (now : Rat) :
    Gehalten (ruhigeLage bestand now) := by
  constructor
  · intro h
    cases h
  · intro x hx
    cases hx
    exact hpos

theorem budgetOffen_ruhigeLage (bestand now : Rat) : BudgetOffen (ruhigeLage bestand now) := by
  intro g hg
  cases hg

/-! ## When a protective exit waits -/

/-- On each path, a protective exit does not wait exactly when that path is free. -/
theorem schutz_exit_beide_pfade {S : StopLage} {event : SignalEvent}
    (hevent : (.risk, event) ∈ runPositionStopChecks S) {D : DesktopLage} {M : MandantLage}
    (hD : Gehalten D.toLage) (hM : Gehalten M.toLage)
    (hbudgetD : BudgetOffen D.toLage) (hbudgetM : BudgetOffen M.toLage) :
    (WartetNicht (processSignalEvent D event) ↔ DesktopFrei D event) ∧
      (WartetNicht (schrittVerteilung M event) ↔ MandantFrei M event) := by
  have h : SchutzSignal event := schutzSignal_of_mem hevent
  exact ⟨(h.ends_desktop hD hbudgetD).trans stopptDesktop_erlaubt,
    (h.ends_mandant hM hbudgetM).trans stopptMandant_erlaubt⟩

/-- Five hours after the purchase the stop goes out, on both paths. -/
theorem schutz_exit_beide_pfade_verlust :
    WartetNicht (processSignalEvent (ruhigerDesktop 10 5) verlustVerkauf) ∧
      WartetNicht (schrittVerteilung (ruhigerMandant 10 5) verlustVerkauf) := by
  have hurteil : (canSellPosition kaufbuch 5 "AAA").1 = true := by
    norm_num [canSellPosition, kaufbuch]
  have hpos : (0 : Rat) < 10 := by norm_num
  have hausgang : ∀ order, AusgangFrei (ruhigeLage 10 5) order := fun order _ _ _ hliegt => by
    simp [liegtEtwas, ruhigeLage] at hliegt
  obtain ⟨hdesktop, hmandant⟩ := schutz_exit_beide_pfade (verlustVerkauf_mem 5)
    (D := ruhigerDesktop 10 5) (M := ruhigerMandant 10 5) (gehalten_ruhigeLage hpos 5)
    (gehalten_ruhigeLage hpos 5) (budgetOffen_ruhigeLage 10 5) (budgetOffen_ruhigeLage 10 5)
  refine ⟨hdesktop.mpr ?_, hmandant.mpr ?_⟩
  · intro _ x _
    refine ⟨rfl, ?_, hausgang _⟩
    intro b hb
    cases hb
    exact hurteil
  · intro _
    exact ⟨rfl, hurteil, fun x _ => hausgang _⟩

/-- One hour after the purchase the stop waits for the minimum hold, on both paths. -/
theorem schutz_exit_wartet :
    (.risk, verlustVerkauf) ∈ runPositionStopChecks (verlust 1) ∧
      processSignalEvent (ruhigerDesktop 10 1) verlustVerkauf =
        .error (.gehalten (.zuFrueh 1 4 8)) ∧
      schrittVerteilung (ruhigerMandant 10 1) verlustVerkauf =
        .error (.gehalten (.zuFrueh 1 4 8)) ∧
      ¬ WartetNicht (processSignalEvent (ruhigerDesktop 10 1) verlustVerkauf) ∧
      ¬ WartetNicht (schrittVerteilung (ruhigerMandant 10 1) verlustVerkauf) := by
  have hurteil : canSellPosition kaufbuch 1 "AAA" = (false, .zuFrueh 1 4 8) := by
    norm_num [canSellPosition, kaufbuch]
  have hdesktop : processSignalEvent (ruhigerDesktop 10 1) verlustVerkauf =
      .error (.gehalten (.zuFrueh 1 4 8)) := by
    rw [eq_error_iff_ends]
    simp [processSignalEvent, schrittMarktOffen, desktopMenge, ruhigerDesktop, ruhigeLage,
      verlustVerkauf, stopEvent, hurteil, hitlHoldsOrder]
  have hmandant : schrittVerteilung (ruhigerMandant 10 1) verlustVerkauf =
      .error (.gehalten (.zuFrueh 1 4 8)) := by
    rw [eq_error_iff_ends]
    simp [schrittVerteilung, executeTenantOrder, schrittMarktOffen, schrittMandantVorbereiten,
      schrittMandantBestand, ruhigerMandant, ruhigeLage, verlustVerkauf, stopEvent, hurteil]
  refine ⟨verlustVerkauf_mem 1, hdesktop, hmandant, ?_, ?_⟩
  · rw [hdesktop]
    exact id
  · rw [hmandant]
    exact id

end Verkauf
