import AutonomousEngine.Verkauf.Schutz

/-!
# The quantity of a sale

A sale should hand the gateway at most what is held at that time, and at most
what the signal asked for.  Both paths only ever lower the quantity after they
have resolved it, so everything depends on where they take it from.

The desktop takes the signal's quantity as it is, and a position that has shrunk
since the decision is sold short.  A tenant takes the position as it was read,
so a trim closes it.  The release of the shares bounds both, but only where an
order rests on the symbol (`Gedeckt`).
-/

namespace Verkauf

open Basis

/-! ## Trims -/

/-- A recommendation to reduce a position, with the drift as text. -/
structure TrimEmpfehlung where
  symbol : String
  marketValue : Rat
  adjustmentValue : Rat
  driftPct : String
deriving DecidableEq, Repr

/-- The sale that follows a recommendation.  Its quantity is clamped to what is
held. -/
def trimAusstieg (rec : TrimEmpfehlung) (heldQty price minOrderValue : Rat) :
    Option SignalEvent :=
  if rec.marketValue ≤ 0 ∨ heldQty ≤ 0 then none
  else
    let trimQty := heldQty * min 1 (|rec.adjustmentValue| / rec.marketValue)
    if trimQty ≤ 0 ∨ (0 < price ∧ trimQty * price < minOrderValue) then none
    else some
      { symbol := rec.symbol, action := .sell
        decisionContext :=
          { currentPrice := price, positionQty := heldQty
            portfolioReason := "deconcentration_trim: drift " ++ rec.driftPct ++ "% → target" }
        suggestedQuantity := trimQty }

/-! ## What bounds the quantity at the gate -/

/-- The free quantity that the release of the shares reads, if it reads one. -/
def FreiGelesen (L : Lage) (event : SignalEvent) (frei : Rat) : Prop :=
  L.shadowMode = false ∧
  (L.tor.halt .intent = true → haltExemptProtectiveExit event.decisionContext event.action = true) ∧
  liegtEtwas L.tor.broker event.symbol = true ∧
  bestandFrei L.tor.broker event.symbol = some frei

/-- A quantity that the gate is given stays within a bound: it is within the
bound itself, or it exceeds what is free and that is within the bound. -/
def Gedeckt (L : Lage) (event : SignalEvent) (menge schranke : Rat) : Prop :=
  menge ≤ schranke ∨ ∃ frei, FreiGelesen L event frei ∧ frei < menge - epsilon ∧ frei ≤ schranke

/-- The release is skipped for a sale that the gateway would deny, and for the dry run. -/
theorem ohneFreigabe_verkaufsIntent (t : TorLage) (dryRun : Bool) (symbol : String) (qty : Rat)
    (isProtectiveExit : Bool) :
    ohneFreigabe dryRun (verkaufsIntent t symbol qty isProtectiveExit) =
      (t.halt .intent && !isProtectiveExit || dryRun) := by
  cases isProtectiveExit with
  | true => simp [ohneFreigabe, freigestellt, verkaufsIntent]
  | false => simp [ohneFreigabe, freigestellt, verkaufsIntent, verkaufsArt, neverBlockedKinds]

theorem freiGelesen_iff {L : Lage} {event : SignalEvent} {frei : Rat}
    (hskip : ((L.tor.halt .intent = true →
        haltExemptProtectiveExit event.decisionContext event.action = true) ∧
      L.shadowMode = false) ∧ liegtEtwas L.tor.broker event.symbol = true)
    (hfrei : bestandFrei L.tor.broker event.symbol = some frei) (f : Rat) :
    FreiGelesen L event f ↔ f = frei := by
  obtain ⟨⟨hhalt, hshadow⟩, hliegt⟩ := hskip
  constructor
  · intro h
    exact Option.some.inj (h.2.2.2.symm.trans hfrei)
  · intro h
    exact ⟨hshadow, hhalt, hliegt, h ▸ hfrei⟩

theorem gesenkt_le_iff {frei menge schranke : Rat} :
    gesenkt frei menge ≤ schranke ↔ menge ≤ schranke ∨ frei < menge - epsilon ∧ frei ≤ schranke := by
  unfold gesenkt
  split
  next hlt =>
    have hle : frei ≤ menge := hlt.le.trans (sub_le_self menge epsilon_pos.le)
    constructor
    · intro h
      exact .inr ⟨hlt, h⟩
    · intro h
      rcases h with h | h
      · exact hle.trans h
      · exact h.2
  next hge => simp [hge]

theorem menge_sendeDurchsTor (L : Lage) (event : SignalEvent) {menge : Rat} (hpos : 0 < menge) :
    Ends (fun _ => True) (fun r => ∀ schranke, r.1 ≤ schranke ↔ Gedeckt L event menge schranke)
      (sendeDurchsTor L.tor L.shadowMode event.symbol menge
        (haltExemptProtectiveExit event.decisionContext event.action)) := by
  rw [ends_sendeDurchsTor hpos, ohneFreigabe_verkaufsIntent]
  refine ⟨fun _ => ?_, fun _ => trivial⟩
  split
  next hskip =>
    -- nothing is read, so only the quantity itself can be within the bound
    intro schranke
    constructor
    · exact .inl
    · rintro (h | ⟨frei, ⟨hshadow, hhalt, hliegt, -⟩, -⟩)
      · exact h
      · cases hi : L.tor.halt .intent with
        | false => simp [hi, hshadow, hliegt] at hskip
        | true => simp [hhalt hi, hshadow, hliegt] at hskip
  next hskip =>
    split
    next => trivial
    next =>
      split
      next => trivial
      next frei hfrei =>
        split
        next => trivial
        next =>
          intro schranke
          have hgelesen : ∀ f, FreiGelesen L event f ↔ f = frei :=
            freiGelesen_iff (by simpa using hskip) hfrei
          rw [gesenkt_le_iff]
          simp [Gedeckt, hgelesen]

/-! ## The desktop path -/

/-- What a sale of the desktop hands to the gateway stays within a bound: so does the quantity
of the signal, or without one the position that was read. -/
def DesktopGedeckt (L : DesktopLage) (event : SignalEvent) (schranke : Rat) : Prop :=
  (0 < event.suggestedQuantity → Gedeckt L.toLage event event.suggestedQuantity schranke) ∧
  (event.suggestedQuantity ≤ 0 → ∀ x, L.getOpenPosition = .menge x →
    Gedeckt L.toLage event x schranke)

/-- The quantity that the desktop resolves is the one that has to be within the bound. -/
theorem desktopGedeckt_iff {L : DesktopLage} {event : SignalEvent} {qty held schranke : Rat}
    (h : desktopMenge L event = .ok (qty, held)) :
    DesktopGedeckt L event schranke ↔ Gedeckt L.toLage event qty schranke := by
  unfold desktopMenge at h
  split at h
  next hle =>
    cases hpos : L.getOpenPosition with
    | fehlt => simp [hpos, Positionsantwort.lies] at h
    | fehler => simp [hpos, Positionsantwort.lies] at h
    | menge x =>
      simp only [hpos, Positionsantwort.lies, Except.map_ok, Except.ok.injEq, Prod.mk.injEq] at h
      simp [DesktopGedeckt, hle, not_lt.mpr hle, hpos, h.1]
  next hlt =>
    simp only [Except.ok.injEq, Prod.mk.injEq] at h
    rw [← h.1]
    simp [DesktopGedeckt, not_le.mp hlt, hlt]

theorem menge_desktop (L : DesktopLage) (event : SignalEvent) :
    Ends (fun _ => True) (fun r => ∀ schranke, r.1 ≤ schranke ↔ DesktopGedeckt L event schranke)
      (processSignalEvent L event) := by
  have hegal : ∀ a : Abbruch, True := fun _ => trivial
  unfold processSignalEvent
  refine ends_bind_of_ok hegal fun _ _ => ends_bind_of_ok hegal fun paar hmenge => ?_
  obtain ⟨qty, held⟩ := paar
  refine ends_bind_of_ok hegal fun _ hnull => ?_
  have hpos : 0 < qty := of_decide_eq_true (gate_eq_ok_iff.mp hnull)
  -- human, minimum hold, compliance and halt leave the quantity alone
  refine ends_bind_of_ok hegal fun _ _ => ends_bind_of_ok hegal fun _ _ =>
    ends_bind_of_ok hegal fun _ _ => ends_bind_of_ok hegal fun _ _ => ?_
  simp only [desktopGedeckt_iff hmenge]
  have hsenden := menge_sendeDurchsTor L.toLage event hpos
  unfold schrittAbsenden
  cases hshadow : L.shadowMode with
  | true =>
    rw [hshadow] at hsenden
    exact hsenden
  | false =>
    rw [hshadow] at hsenden
    exact ends_bind_of_ok hegal fun _ _ => hsenden

/-! ## The tenant path -/

/-- What a sale of a tenant hands to the gateway stays within a bound: so does the position that
was read, whatever the signal asks for. -/
def MandantGedeckt (L : MandantLage) (event : SignalEvent) (schranke : Rat) : Prop :=
  ∀ x, L.getOpenPosition = .menge x → Gedeckt L.toLage event x schranke

theorem menge_mandant (L : MandantLage) (event : SignalEvent) :
    Ends (fun _ => True) (fun r => ∀ schranke, r.1 ≤ schranke ↔ MandantGedeckt L event schranke)
      (schrittVerteilung L event) := by
  have hegal : ∀ a : Abbruch, True := fun _ => trivial
  unfold schrittVerteilung executeTenantOrder
  refine ends_bind_of_ok hegal fun _ _ => ends_bind_of_ok hegal fun _ _ =>
    ends_bind_of_ok hegal fun _ _ => ends_bind_of_ok hegal fun bestand hbestand =>
      ends_bind_of_ok hegal fun size hsize => ends_bind_of_ok hegal fun _ _ =>
        ends_bind_of_ok hegal fun _ _ => ?_
  obtain ⟨hgleich, hpos⟩ := menge_of_schrittMandantMenge hsize
  have hgelesen : L.getOpenPosition = .menge size :=
    hgleich.symm ▸ getOpenPosition_of_bestand hbestand
  simp only [MandantGedeckt, hgelesen, Positionsantwort.menge.injEq, forall_eq']
  exact menge_sendeDurchsTor L.toLage event hpos

/-! ## What is held and what was asked for -/

/-- The quantity that a sale should hand to the gateway at most. -/
def MengeErlaubt (event : SignalEvent) (h menge : Rat) : Prop :=
  menge ≤ h ∧ (0 < event.suggestedQuantity → menge ≤ event.suggestedQuantity)

theorem desktopGedeckt_suggested {L : DesktopLage} {event : SignalEvent}
    (hpos : 0 < event.suggestedQuantity) : DesktopGedeckt L event event.suggestedQuantity :=
  ⟨fun _ => .inl le_rfl, fun hle => absurd hpos (not_lt.mpr hle)⟩

/-- On each path, what a sale hands to the gateway is within what is held and what was asked for
exactly when the quantity that the path resolves is. -/
theorem verkaufsmenge_erlaubt_iff (event : SignalEvent) (h : Rat) :
    (∀ (L : DesktopLage) (menge : Rat) (urteil : Bool),
      processSignalEvent L event = .ok (menge, urteil) →
        (MengeErlaubt event h menge ↔ DesktopGedeckt L event h)) ∧
    (∀ (L : MandantLage) (menge : Rat) (urteil : Bool),
      schrittVerteilung L event = .ok (menge, urteil) →
        (MengeErlaubt event h menge ↔
          MandantGedeckt L event h ∧
            (0 < event.suggestedQuantity → MandantGedeckt L event event.suggestedQuantity))) := by
  constructor
  · intro L menge urteil hrun
    have hschranken := (menge_desktop L event).of_ok hrun
    constructor
    · intro herlaubt
      exact (hschranken h).mp herlaubt.1
    · intro hgedeckt
      exact ⟨(hschranken h).mpr hgedeckt, fun hpos =>
        (hschranken _).mpr (desktopGedeckt_suggested hpos)⟩
  · intro L menge urteil hrun
    have hschranken := (menge_mandant L event).of_ok hrun
    simp only [MengeErlaubt, hschranken]

def trimVerkauf (qty : Rat) : SignalEvent where
  symbol := "AAA"
  action := .sell
  decisionContext :=
    { currentPrice := 100, positionQty := 10
      portfolioReason := "deconcentration_trim: drift +1.0% → target" }
  suggestedQuantity := qty

def trimRat (adjustmentValue : Rat) : TrimEmpfehlung where
  symbol := "AAA"
  marketValue := 1000
  adjustmentValue
  driftPct := "+1.0"

/-- In an open market where nothing rests at the broker the desktop sells what the trim asks
for. -/
theorem trim_ruhigerDesktop {bestand qty : Rat} (hpos : 0 < qty) :
    processSignalEvent (ruhigerDesktop bestand 5) (trimVerkauf qty) = .ok (qty, true) := by
  have hurteil : (canSellPosition kaufbuch 5 "AAA").1 = true := by
    norm_num [canSellPosition, kaufbuch]
  rw [eq_ok_iff_ends]
  simp [processSignalEvent, schrittMarktOffen, desktopMenge, ruhigerDesktop, ruhigeLage, trimVerkauf,
    hpos, hurteil, hitlHoldsOrder, schrittCompliance, schrittDesktopAuftrag, schrittAbsenden,
    checkHalt, ends_sendeDurchsTor hpos, liegtEtwas, TorLage.decide]

theorem trim_ruhigerMandant {bestand qty : Rat} (hpos : 0 < bestand) :
    schrittVerteilung (ruhigerMandant bestand 5) (trimVerkauf qty) = .ok (bestand, true) := by
  have hurteil : (canSellPosition kaufbuch 5 "AAA").1 = true := by
    norm_num [canSellPosition, kaufbuch]
  rw [eq_ok_iff_ends]
  simp [schrittVerteilung, executeTenantOrder, schrittMarktOffen, schrittMandantVorbereiten,
    schrittMandantBestand, schrittMandantMenge, ruhigerMandant, ruhigeLage, trimVerkauf, hpos,
    hurteil, schrittMandantCompliance, schrittMandantAuftrag, schrittMandantSenden, checkHalt,
    ends_sendeDurchsTor hpos, liegtEtwas, TorLage.decide]

/-- A trim of five shares of ten stays within what is held. -/
theorem verkaufsmenge_erlaubt_iff_trim :
    MengeErlaubt (trimVerkauf 5) 10 5 ∧ ¬ MengeErlaubt (trimVerkauf 5) 10 10 := by
  have hfuenf : (0 : Rat) < 5 := by norm_num
  have hzehn : (0 : Rat) < 10 := by norm_num
  obtain ⟨hdesktop, hmandant⟩ := verkaufsmenge_erlaubt_iff (trimVerkauf 5) 10
  constructor
  · refine (hdesktop (ruhigerDesktop 10 5) 5 true (trim_ruhigerDesktop hfuenf)).mpr ⟨?_, ?_⟩
    · intro _
      exact .inl (by norm_num [trimVerkauf])
    · intro hle
      exact absurd hle (not_le.mpr hfuenf)
  · intro herlaubt
    have hgedeckt := ((hmandant (ruhigerMandant 10 5) 10 true
      (trim_ruhigerMandant hzehn)).mp herlaubt).2 hfuenf 10 rfl
    rcases hgedeckt with hle | ⟨frei, ⟨-, -, hliegt, -⟩, -⟩
    · norm_num [trimVerkauf] at hle
    · simp [liegtEtwas, ruhigerMandant, ruhigeLage] at hliegt

/-- A trim of one share of ten closes the position of a tenant, and a trim of five shares sells
two more than the desktop holds when the position has shrunk to three. -/
theorem verkaufsmenge_zu_gross :
    (trimAusstieg (trimRat 100) 10 100 0 = some (trimVerkauf 1) ∧
      schrittVerteilung (ruhigerMandant 10 5) (trimVerkauf 1) = .ok (10, true) ∧
      ¬ MengeErlaubt (trimVerkauf 1) 10 10) ∧
    (trimAusstieg (trimRat 500) 10 100 0 = some (trimVerkauf 5) ∧
      processSignalEvent (ruhigerDesktop 3 5) (trimVerkauf 5) = .ok (5, true) ∧
      ¬ MengeErlaubt (trimVerkauf 5) 3 5) := by
  refine ⟨⟨?_, trim_ruhigerMandant (by norm_num), ?_⟩, ?_, trim_ruhigerDesktop (by norm_num), ?_⟩
  · norm_num [trimAusstieg, trimRat, trimVerkauf]
    rfl
  · norm_num [MengeErlaubt, trimVerkauf]
  · norm_num [trimAusstieg, trimRat, trimVerkauf]
    rfl
  · norm_num [MengeErlaubt, trimVerkauf]

end Verkauf
