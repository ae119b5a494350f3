import AutonomousEngine.Reconciliation.Dienst

/-!
# When the service lets entries pass

Before its first run the service blocks every entry.  The first run adopts the
books of the broker and counts as reconciled.  It does both whether or not its
reads succeeded: a failed read is an empty list by then.

So the starting books come from a complete run exactly when the first run is
complete (`scharf_iff`).  No later run adopts anything, and none of them lets
entries pass that an earlier one blocked.
-/

namespace Reconciliation

open Basis
open Verkauf (IntentKind)

def Antworten.Vollstaendig (a : Antworten) : Prop :=
  a.orders.isOk = true ∧ a.abgeschlosseneOrders.isOk = true ∧ a.positions.isOk = true

namespace ReconciliationService

/-! ## What a run keeps -/

section Rahmen

variable (t : Textlesung)

/-- Two services that differ in their fills only. -/
structure NurFills (d d' : ReconciliationService) : Prop where
  abgleich : d'.toAbgleich = d.toAbgleich
  internalOrderIds : d'.internalOrderIds = d.internalOrderIds
  knownPositions : d'.knownPositions = d.knownPositions
  adopted : d'.adopted = d.adopted
  blockOnBreak : d'.blockOnBreak = d.blockOnBreak
  blockRecord : d'.blockRecord = d.blockRecord

theorem NurFills.refl (d : ReconciliationService) : NurFills d d :=
  ⟨rfl, rfl, rfl, rfl, rfl, rfl⟩

theorem NurFills.trans {d d' d'' : ReconciliationService} (h : NurFills d d')
    (h' : NurFills d' d'') : NurFills d d'' :=
  ⟨h'.abgleich.trans h.abgleich, h'.internalOrderIds.trans h.internalOrderIds,
    h'.knownPositions.trans h.knownPositions, h'.adopted.trans h.adopted,
    h'.blockOnBreak.trans h.blockOnBreak, h'.blockRecord.trans h.blockRecord⟩

theorem onBrokerFill_nurFills (d : ReconciliationService) (o : BrokerOrder)
    (decisionId jetzt : String) : NurFills d (d.onBrokerFill t o decisionId jetzt).2 := by
  unfold onBrokerFill
  split
  next => exact .refl d
  next =>
    split
    next => exact .refl d
    next =>
      split
      next => exact .refl d
      next => exact ⟨rfl, rfl, rfl, rfl, rfl, rfl⟩

theorem trageNach_nurFills (jetzt : String) (d : ReconciliationService) (os : List BrokerOrder) :
    NurFills d (d.trageNach t jetzt os).2 := by
  induction os generalizing d with
  | nil => exact .refl d
  | cons o os ih =>
      have hfill := onBrokerFill_nurFills t d o "" jetzt
      unfold trageNach
      split
      next => exact ih d
      next =>
        split
        next d' hb => exact (hb ▸ hfill).trans (ih d')
        next d' hb =>
          rw [hb] at hfill
          exact hfill
        next e d' hb => exact (hb ▸ hfill).trans (ih d')

/-- A comparison after the first one changes the fills only. -/
theorem compare_nurFills (jetzt : String) {d : ReconciliationService} (w : BrokerState)
    (h : d.adopted = true) : NurFills d (d.compare t jetzt w).2 := by
  simpa [compare, h] using trageNach_nurFills t jetzt d w.fillOrders

/-- The first comparison takes over, and its breaks are the failed reads. -/
theorem compare_of_not_adopted (jetzt : String) {d : ReconciliationService} (w : BrokerState)
    (h : d.adopted = false) :
    d.compare t jetzt w = (some (w.errors.map nichtAbrufbar), d.uebernimm t w) := by
  simp [compare, h]

theorem report_adopted (d : ReconciliationService) (r : ReconciliationRecord) :
    (d.report r).adopted = d.adopted := by
  unfold report
  dsimp only
  split
  next => rfl
  next =>
    split
    next => rfl
    next => split <;> rfl

theorem report_reconciledOnce (d : ReconciliationService) (r : ReconciliationRecord) :
    (d.report r).reconciledOnce = d.reconciledOnce := by
  unfold report
  dsimp only
  split
  next => rfl
  next =>
    split
    next => rfl
    next => split <;> rfl

/-- A report blocks for an open break, and lifts no block. -/
theorem report_entriesBlocked (d : ReconciliationService) (r : ReconciliationRecord) :
    (d.report r).entriesBlocked =
      (d.entriesBlocked || d.blockOnBreak && r.breaks.any (!·.geheilt)) := by
  unfold report
  dsimp only
  split
  next hclean =>
    have hnil : r.breaks = [] := by simpa [ReconciliationRecord.clean] using hclean
    simp [hnil]
  next =>
    split
    next hopen =>
      have hnone : r.breaks.any (!·.geheilt) = false := by
        simpa [List.filter_eq_nil_iff] using hopen
      simp [hnone]
    next hopen =>
      have hsome : r.breaks.any (!·.geheilt) = true := by
        simpa [List.filter_eq_nil_iff] using hopen
      split
      next hb => simp [hb, hsome]
      next hb => simp [hb]

end Rahmen

/-! ## The first run and the others -/

section Laeufe

variable (t : Textlesung) {d : ReconciliationService} (l : Lauf)

/-- The first run leaves the service adopted and reconciled.  It blocks entries
when a read failed and the service is set to block. -/
theorem runOnce_erster (h : d.adopted = false) :
    (d.runOnce t l).2.adopted = true ∧ (d.runOnce t l).2.reconciledOnce = true ∧
      (d.runOnce t l).2.entriesBlocked =
        (d.entriesBlocked || d.blockOnBreak && !(watch l.antworten).errors.isEmpty) := by
  have hcmp := compare_of_not_adopted t l.finishedAt (watch l.antworten) h
  have hall : ((watch l.antworten).errors.map nichtAbrufbar).any (!·.geheilt) =
      !(watch l.antworten).errors.isEmpty := by
    cases (watch l.antworten).errors with
    | nil => rfl
    | cons e es => simp [nichtAbrufbar]
  unfold runOnce
  dsimp only
  rw [hcmp]
  refine ⟨?_, ?_, ?_⟩
  · rw [report_adopted]
    rfl
  · rw [report_reconciledOnce]
  · rw [report_entriesBlocked]
    exact congrArg (fun x => d.entriesBlocked || d.blockOnBreak && x) hall

/-- A later run adopts nothing and keeps every block. -/
theorem runOnce_spaeter (h : d.adopted = true) (hr : d.reconciledOnce = true) :
    (d.runOnce t l).2.adopted = true ∧ (d.runOnce t l).2.reconciledOnce = true ∧
      (d.entriesBlocked = true → (d.runOnce t l).2.entriesBlocked = true) := by
  have hcmp := compare_nurFills t l.finishedAt (watch l.antworten) h
  have hab := hcmp.abgleich
  unfold runOnce
  dsimp only
  split
  next d' hc =>
    rw [hc] at hcmp hab
    refine ⟨hcmp.adopted.trans h, ?_, fun hb => ?_⟩
    · rw [← hr]
      exact congrArg (·.reconciledOnce) hab
    · rw [← hb]
      exact congrArg (·.entriesBlocked) hab
  next breaks d' hc =>
    rw [hc] at hcmp hab
    refine ⟨?_, ?_, fun hb => ?_⟩
    · rw [report_adopted]
      exact hcmp.adopted.trans h
    · rw [report_reconciledOnce]
    · rw [report_entriesBlocked]
      have hkeep : d'.entriesBlocked = true := by
        rw [← hb]
        exact congrArg (·.entriesBlocked) hab
      simp [hkeep]

end Laeufe

/-! ## Arming -/

/-- A step lets entries pass, or takes the books over, only in a run whose reads
all succeeded. -/
def Scharf (d : ReconciliationService) : Aktion → ReconciliationService → Prop
  | .lauf l, d' =>
      (d.blocks .entry = true → d'.blocks .entry = false → l.antworten.Vollstaendig) ∧
        (d.adopted = false → d'.adopted = true → l.antworten.Vollstaendig)
  | _, _ => True

theorem blocks_entry (d : ReconciliationService) :
    d.blocks .entry = (!d.reconciledOnce || d.entriesBlocked) := by
  have hentry : IntentKind.entry ∉ Verkauf.neverBlockedOnBreak := by decide
  cases hr : d.reconciledOnce <;> simp [blocks, Verkauf.Abgleich.blocks, hentry, hr]

theorem scharf_spaeter (t : Textlesung) {d d' : ReconciliationService} {ls : List Lauf}
    (h : d.adopted = true) (hr : d.reconciledOnce = true)
    (hrun : (system t).Run d (ls.map .lauf) d') :
    ((system t).restrict Scharf).Run d (ls.map .lauf) d' := by
  induction ls generalizing d with
  | nil => cases hrun with | nil => exact .nil _
  | cons l ls ih =>
      cases hrun with
      | @cons _ _ d₁ _ _ hs hrest =>
          obtain ⟨ha, hr', hb⟩ := runOnce_spaeter t l h hr
          have hd₁ : d₁ = (d.runOnce t l).2 := hs
          rw [← hd₁] at ha hr' hb
          refine .cons ⟨hs, fun hblock hfree => ?_, fun hno => ?_⟩ (ih ha hr' hrest)
          · rw [blocks_entry, hr] at hblock
            rw [blocks_entry, hr', hb (by simpa using hblock)] at hfree
            simp at hfree
          · simp [h] at hno

/-- A run of the service arms and adopts only by complete reads exactly when the
reads of its first run all succeeded. -/
theorem scharf_iff (t : Textlesung) (blockOnBreak : Bool) (knownPositions : Buch)
    {ls : List Lauf} {d' : ReconciliationService}
    (hrun : (system t).Run (neu blockOnBreak knownPositions) (ls.map .lauf) d') :
    ((system t).restrict Scharf).Run (neu blockOnBreak knownPositions) (ls.map .lauf) d' ↔
      ∀ l ∈ ls.head?, l.antworten.Vollstaendig := by
  cases ls with
  | nil =>
      refine ⟨fun _ l hl => by simp at hl, fun _ => ?_⟩
      cases hrun with | nil => exact .nil _
  | cons l ls =>
      cases hrun with
      | @cons _ _ d₁ _ _ hs hrest =>
          obtain ⟨ha, hr, -⟩ := runOnce_erster t (d := neu blockOnBreak knownPositions) l rfl
          have hd₁ : d₁ = ((neu blockOnBreak knownPositions).runOnce t l).2 := hs
          rw [← hd₁] at ha hr
          constructor
          · intro h
            cases h with
            | @cons _ _ d₂ _ _ h _ =>
                obtain ⟨hs', -, hadopt⟩ := h
                have heq : d₂ = d₁ := Eq.trans hs' (Eq.symm hs)
                have hfull : l.antworten.Vollstaendig := hadopt rfl (heq ▸ ha)
                simpa using hfull
          · intro h
            have hfull : l.antworten.Vollstaendig := h l (by simp)
            exact .cons ⟨hs, fun _ _ => hfull, fun _ _ => hfull⟩ (scharf_spaeter t ha hr hrest)

def ohneZahlen : Textlesung := ⟨fun _ => none, fun _ => "", fun _ => false⟩

/-- A run that finds no orders, with a given answer for the positions. -/
def leererLauf (positions : Except String (List Position)) : Lauf :=
  ⟨"rec-1", "09:30", "09:30", ⟨.ok [], .ok [], positions⟩⟩

def zehn : Textlesung := ⟨fun s => if s = "10" then some 10 else none, fun _ => "10", fun _ => false⟩

/-- A complete first run adopts a position and arms the service.  A second one that cannot read the
positions finds a break and blocks. -/
theorem scharf_iff_zweiLaeufe :
    ((neu true .leer).runOnce zehn (leererLauf (.ok [⟨"AAPL", "10"⟩]))).2.blocks .entry = false ∧
    ∃ d' : ReconciliationService,
      ((system zehn).restrict Scharf).Run (neu true .leer)
        [.lauf (leererLauf (.ok [⟨"AAPL", "10"⟩])), .lauf (leererLauf (.error "timeout"))] d' ∧
      d'.adopted = true ∧ d'.blocks .entry = true := by
  have hrun : (system zehn).Run (neu true .leer)
      ([leererLauf (.ok [⟨"AAPL", "10"⟩]), leererLauf (.error "timeout")].map .lauf) _ :=
    .cons rfl (.cons rfl (.nil _))
  refine ⟨by decide, _, (scharf_iff zehn true .leer hrun).mpr fun l hl => ?_, by decide, by decide⟩
  obtain rfl : leererLauf (.ok [⟨"AAPL", "10"⟩]) = l := by simpa using hl
  exact ⟨rfl, rfl, rfl⟩

/-- A first run that could not read the positions takes over an empty book and
lets entries pass, where the service is set to observe. -/
theorem scharf_nach_ausfall :
    ∃ d' : ReconciliationService,
      (system ohneZahlen).Run (neu false .leer) [.lauf (leererLauf (.error "timeout"))] d' ∧
        d'.blocks .entry = false ∧ d'.adopted = true ∧
        ¬((system ohneZahlen).restrict Scharf).Run (neu false .leer)
          [.lauf (leererLauf (.error "timeout"))] d' := by
  refine ⟨_, .cons rfl (.nil _), by decide, by decide, fun h => ?_⟩
  cases h with
  | cons h _ =>
      obtain ⟨rfl, harm, -⟩ := h
      have hfull := harm (by decide) (by decide)
      exact absurd hfull.2.2 (by decide)

end ReconciliationService

end Reconciliation
