import AutonomousEngine.Verkauf.Menge

/-!
# Exit classes and the reasons of a sale

A sale says in three places why it is made.  Its context is marked by the stop
path, its context has a text for the portfolio, and the signal itself may carry a
reason from where it was decided.  The audit trail reads the last two, each where it
is.  `classifyExitKind` looks for the first two on the signal, which has neither, and
its answer is what compliance and the dust floor see.

So the class agrees with the decision exactly for a sale that says nothing
(`ausstiegsklasse_iff`).
-/

namespace Verkauf

/-! ## Reasons -/

/-- The classes of a reason. -/
inductive VerkaufsgrundKlasse where
  | hardStop
  | trailing
  | lossCut
  | lossEscalation
  | momentumFade
  | composite
  | rankDrop
  | rotation
  | bookOverflow
  | trim
  | consensusSell
  | modelSell
  | displacement
  | panic
  | breaker
  | strategySwitch
  | brokerStop
  | manual
  | unknown
deriving DecidableEq, Repr

/-- The reason of a sale, from where it was decided. -/
structure Verkaufsgrund where
  klasse : VerkaufsgrundKlasse
deriving DecidableEq, Repr

/-- A signal with the reason it may carry. -/
structure BegruendetesSignal extends SignalEvent where
  verkaufsgrund : Option Verkaufsgrund
deriving DecidableEq, Repr

/-- The class of an exit that a class of reasons stands for. -/
def VerkaufsgrundKlasse.exitKind : VerkaufsgrundKlasse → Option ExitKind
  | .rotation => some .rotation
  | .trim => some .trim
  | _ => none

/-! ## What the decision says -/

/-- The rotation or trim that the context names. -/
def DecisionContext.meinung (context : DecisionContext) : Option ExitKind :=
  exitKindOf none (some context.portfolioReason)

/-- The rotation or trim that the carried reason names. -/
def BegruendetesSignal.grundMeinung (event : BegruendetesSignal) : Option ExitKind :=
  event.verkaufsgrund.bind fun grund => grund.klasse.exitKind

/-- A class that the context or the carried reason names. -/
def BegruendetesSignal.Nennt (event : BegruendetesSignal) (k : ExitKind) : Prop :=
  event.decisionContext.meinung = some k ∨ event.grundMeinung = some k

/-- The class of an exit agrees with the decision behind it: it is `risk` exactly
for the stop path, and else one that the decision names, if it names one. -/
structure KlasseStimmt (event : BegruendetesSignal) (exitKind : Option ExitKind) : Prop where
  schutz : exitKind = some .risk ↔ event.decisionContext.triggeredByStop = true
  meinung : event.decisionContext.triggeredByStop = false → (∃ k, event.Nennt k) →
    ∃ k, event.Nennt k ∧ exitKind = some k

/-- No class agrees with a decision that says nothing only. -/
theorem klasseStimmt_none_iff (event : BegruendetesSignal) :
    KlasseStimmt event none ↔
      event.decisionContext.triggeredByStop = false ∧ ∀ k, ¬event.Nennt k := by
  constructor
  · intro h
    have hstop : event.decisionContext.triggeredByStop = false := by
      cases htrigger : event.decisionContext.triggeredByStop with
      | false => rfl
      | true => exact absurd (h.schutz.mpr htrigger) nofun
    refine ⟨hstop, fun k hk => ?_⟩
    obtain ⟨k', -, hnone⟩ := h.meinung hstop ⟨k, hk⟩
    cases hnone
  · rintro ⟨hstop, hleer⟩
    refine ⟨⟨nofun, fun htrigger => ?_⟩, fun _ ⟨k, hk⟩ => absurd hk (hleer k)⟩
    rw [hstop] at htrigger
    cases htrigger

/-- The class that both ways to the broker hand to compliance and to the dust floor
agrees with the decision exactly when the decision is no protective exit and names
neither a rotation nor a trim. -/
theorem ausstiegsklasse_iff (event : BegruendetesSignal) (qty heldQty : Rat) (userId : String) :
    (KlasseStimmt event (complianceOrder event.toSignalEvent qty heldQty userId).exitKind ∧
        KlasseStimmt event (classifyExitKind event.toSignalEvent)) ↔
      event.decisionContext.triggeredByStop = false ∧ ∀ k, ¬event.Nennt k := by
  show (KlasseStimmt event (classifyExitKind event.toSignalEvent) ∧ _) ↔ _
  rw [classifyExitKind_eq_none, and_self_iff]
  exact klasseStimmt_none_iff event

/-! ## The exit round -/

/-- The sale of a name that has dropped out of the ranks. -/
def rotationsAusstieg (symbol : String) (currentPrice qty : Rat) (rank n topN : Nat) :
    BegruendetesSignal where
  symbol := symbol
  action := .sell
  decisionContext :=
    { currentPrice, positionQty := qty
      portfolioReason := "rotation: dropped to rank " ++ toString rank ++ "/" ++ toString n ++
        " (out of top-" ++ toString topN ++ ")" }
  suggestedQuantity := 0
  verkaufsgrund := some ⟨.rotation⟩

/-- Neither a rotation nor a protective exit gets its class. -/
theorem ausstiegsklasse_fehlt :
    ¬KlasseStimmt (rotationsAusstieg "AAA" 100 10 31 40 20)
        (classifyExitKind (rotationsAusstieg "AAA" 100 10 31 40 20).toSignalEvent) ∧
      ¬KlasseStimmt
        { symbol := "AAA", action := .sell
          decisionContext := { currentPrice := 90, positionQty := 10, triggeredByStop := true }
          verkaufsgrund := some ⟨.hardStop⟩ } none := by
  rw [classifyExitKind_eq_none, klasseStimmt_none_iff, klasseStimmt_none_iff]
  refine ⟨fun h => ?_, fun h => ?_⟩
  · exact h.2 .rotation (.inr rfl)
  · cases h.1

end Verkauf
