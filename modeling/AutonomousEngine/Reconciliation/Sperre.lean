import AutonomousEngine.Idempotenz.Schluessel
import AutonomousEngine.Reconciliation.Scharfschaltung

/-!
# The block is sticky

A run that reports a break it did not heal blocks new entries, where the service
is set to.  Only `release_block` lifts the block: a later run adds to it or leaves
it as it is (`runOnce_entriesBlocked`), and a fill that comes in between does not
touch it.
-/

namespace Reconciliation

open Basis
open Idempotenz (legText)

namespace ReconciliationService

/-- `blocks`, for any text that may be given for the kind. -/
def blocksText (d : ReconciliationService) (intentKind : String) : Bool :=
  if intentKind ∈ Verkauf.neverBlockedOnBreak.map legText then false
  else if !d.reconciledOnce then true
  else d.entriesBlocked

/-! ## What one call does to the block -/

variable (t : Textlesung)

theorem report_blockOnBreak (d : ReconciliationService) (r : ReconciliationRecord) :
    (d.report r).blockOnBreak = d.blockOnBreak := by
  unfold report
  dsimp only
  split
  next => rfl
  next =>
    split
    next => rfl
    next => split <;> rfl

/-- A comparison does not touch the block. -/
theorem compare_abgleich (jetzt : String) (d : ReconciliationService) (w : BrokerState) :
    (d.compare t jetzt w).2.toAbgleich = d.toAbgleich ∧
      (d.compare t jetzt w).2.blockOnBreak = d.blockOnBreak := by
  cases h : d.adopted with
  | true =>
      have hnur := compare_nurFills t jetzt w h
      exact ⟨hnur.abgleich, hnur.blockOnBreak⟩
  | false =>
      rw [compare_of_not_adopted t jetzt w h]
      exact ⟨rfl, rfl⟩

theorem runOnce_blockOnBreak (d : ReconciliationService) (l : Lauf) :
    (d.runOnce t l).2.blockOnBreak = d.blockOnBreak := by
  have hcmp := (compare_abgleich t l.finishedAt d (watch l.antworten)).2
  unfold runOnce
  dsimp only
  split
  next d' hc => rwa [hc] at hcmp
  next breaks d' hc =>
    rw [hc] at hcmp
    rw [report_blockOnBreak]
    exact hcmp

/-- A run with a record adds its open breaks to the block. -/
theorem runOnce_some {d : ReconciliationService} {l : Lauf} {r : ReconciliationRecord}
    (h : (d.runOnce t l).1 = some r) :
    (d.runOnce t l).2.reconciledOnce = true ∧
      (d.runOnce t l).2.entriesBlocked =
        (d.entriesBlocked || d.blockOnBreak && r.breaks.any (!·.geheilt)) := by
  obtain ⟨hab, hbreak⟩ := compare_abgleich t l.finishedAt d (watch l.antworten)
  unfold runOnce at h ⊢
  dsimp only at h ⊢
  split at h
  next => cases h
  next breaks d' hc =>
    rw [hc] at hab hbreak
    have hblocked : d'.entriesBlocked = d.entriesBlocked := congrArg (·.entriesBlocked) hab
    have hbreak : d'.blockOnBreak = d.blockOnBreak := hbreak
    obtain rfl := Option.some.inj h
    rw [report_reconciledOnce, report_entriesBlocked]
    exact ⟨rfl, by rw [← hblocked, ← hbreak]⟩

/-- A run that raises leaves the block as it is. -/
theorem runOnce_none {d : ReconciliationService} {l : Lauf} (h : (d.runOnce t l).1 = none) :
    (d.runOnce t l).2.toAbgleich = d.toAbgleich := by
  have hab := (compare_abgleich t l.finishedAt d (watch l.antworten)).1
  unfold runOnce at h ⊢
  dsimp only at h ⊢
  split at h
  next d' hc => rwa [hc] at hab
  next => cases h

theorem runOnce_entriesBlocked {d : ReconciliationService} (l : Lauf)
    (h : d.entriesBlocked = true) : (d.runOnce t l).2.entriesBlocked = true := by
  cases hr : (d.runOnce t l).1 with
  | none => exact (congrArg (·.entriesBlocked) (runOnce_none t hr)).trans h
  | some r =>
      rw [(runOnce_some t hr).2, h]
      rfl

/-! ## Calls one after the other -/

/-- A call of the service: an action, or a fill that is entered directly. -/
inductive Ereignis where
  | aktion (a : Aktion)
  | onBrokerFill (o : BrokerOrder) (decisionId jetzt : String)

def ereignis (d : ReconciliationService) : Ereignis → ReconciliationService
  | .aktion a => d.schritt t a
  | .onBrokerFill o decisionId jetzt => (d.onBrokerFill t o decisionId jetzt).2

def nach (d : ReconciliationService) (es : List Ereignis) : ReconciliationService :=
  es.foldl (ereignis t) d

def Ereignis.hebtAuf : Ereignis → Bool
  | .aktion .aufheben => true
  | _ => false

theorem beiHandelsereignis_nurFills (d : ReconciliationService) (o : BrokerOrder)
    (jetzt : String) : NurFills d (d.beiHandelsereignis t o jetzt) := by
  unfold beiHandelsereignis
  split
  next => exact onBrokerFill_nurFills t d o "" jetzt
  next => exact .refl d

theorem ereignis_blockOnBreak (d : ReconciliationService) (e : Ereignis) :
    (d.ereignis t e).blockOnBreak = d.blockOnBreak := by
  cases e with
  | aktion a =>
      cases a with
      | lauf l => exact runOnce_blockOnBreak t d l
      | strom o jetzt => exact (beiHandelsereignis_nurFills t d o jetzt).blockOnBreak
      | anmelden orderId => rfl
      | abmelden orderId => rfl
      | setzePositionen b => rfl
      | aufheben => rfl
  | onBrokerFill o decisionId jetzt =>
      exact (onBrokerFill_nurFills t d o decisionId jetzt).blockOnBreak

theorem nach_blockOnBreak (d : ReconciliationService) (es : List Ereignis) :
    (d.nach t es).blockOnBreak = d.blockOnBreak := by
  induction es generalizing d with
  | nil => rfl
  | cons e es ih => exact (ih (d.ereignis t e)).trans (ereignis_blockOnBreak t d e)

/-- A call that is no release keeps the block. -/
theorem ereignis_entriesBlocked {d : ReconciliationService} {e : Ereignis}
    (he : e.hebtAuf = false) (h : d.entriesBlocked = true) :
    (d.ereignis t e).entriesBlocked = true := by
  cases e with
  | aktion a =>
      cases a with
      | lauf l => exact runOnce_entriesBlocked t l h
      | strom o jetzt =>
          have hab := (beiHandelsereignis_nurFills t d o jetzt).abgleich
          exact (congrArg (·.entriesBlocked) hab).trans h
      | anmelden orderId => exact h
      | abmelden orderId => exact h
      | setzePositionen b => exact h
      | aufheben => cases he
  | onBrokerFill o decisionId jetzt =>
      have hab := (onBrokerFill_nurFills t d o decisionId jetzt).abgleich
      exact (congrArg (·.entriesBlocked) hab).trans h

theorem nach_entriesBlocked {d : ReconciliationService} {es : List Ereignis}
    (hes : ∀ e ∈ es, e.hebtAuf = false) (h : d.entriesBlocked = true) :
    (d.nach t es).entriesBlocked = true := by
  induction es generalizing d with
  | nil => exact h
  | cons e es ih =>
      have hfirst := ereignis_entriesBlocked t (hes e List.mem_cons_self) h
      exact ih (fun e' he' => hes e' (List.mem_cons_of_mem e he')) hfirst

theorem blocksText_of_entriesBlocked {d : ReconciliationService} (h : d.entriesBlocked = true)
    {kind : String} (hkind : kind ∉ Verkauf.neverBlockedOnBreak.map legText) :
    d.blocksText kind = true := by
  unfold blocksText
  rw [if_neg hkind, h]
  split
  next => rfl
  next => rfl

/-- With the block on, an open break of a run blocks every kind that can be blocked
until a release.  A run whose breaks are all healed blocks nothing it did not find
blocked, and the other kinds are never blocked. -/
theorem sperre_klebt {d : ReconciliationService} (hd : d.blockOnBreak = true) :
    (∀ vor l r danach kind, ((d.nach t vor).runOnce t l).1 = some r →
      (∃ b ∈ r.breaks, b.geheilt = false) → (∀ e ∈ danach, e.hebtAuf = false) →
      kind ∉ Verkauf.neverBlockedOnBreak.map legText →
      (d.nach t (vor ++ .aktion (.lauf l) :: danach)).blocksText kind = true) ∧
    (∀ vor l r kind, ((d.nach t vor).runOnce t l).1 = some r →
      (∀ b ∈ r.breaks, b.geheilt = true) →
      (d.nach t (vor ++ [.aktion (.lauf l)])).blocksText kind = true →
      (d.nach t vor).blocksText kind = true) ∧
    ∀ es, ∀ kind ∈ Verkauf.neverBlockedOnBreak.map legText,
      (d.nach t es).blocksText kind = false := by
  refine ⟨?_, ?_, ?_⟩
  · rintro vor l r danach kind hr ⟨b, hb, hoffen⟩ hdanach hkind
    have hset : (d.nach t vor).blockOnBreak = true := (nach_blockOnBreak t d vor).trans hd
    have hany : r.breaks.any (!·.geheilt) = true := by
      refine List.any_eq_true.mpr ⟨b, hb, ?_⟩
      rw [hoffen]
      rfl
    have hblocked : ((d.nach t vor).runOnce t l).2.entriesBlocked = true := by
      rw [(runOnce_some t hr).2, hset, hany, Bool.true_and, Bool.or_true]
    have hend : d.nach t (vor ++ .aktion (.lauf l) :: danach) =
        nach t ((d.nach t vor).runOnce t l).2 danach := by
      rw [nach, List.foldl_append]
      rfl
    rw [hend]
    exact blocksText_of_entriesBlocked (nach_entriesBlocked t hdanach hblocked) hkind
  · intro vor l r kind hr hgeheilt hblocks
    have hany : r.breaks.any (!·.geheilt) = false := by
      refine List.any_eq_false.mpr fun b hb => ?_
      rw [hgeheilt b hb]
      exact Bool.false_ne_true
    obtain ⟨honce, hblocked⟩ := runOnce_some t hr
    rw [hany, Bool.and_false, Bool.or_false] at hblocked
    have hend : d.nach t (vor ++ [.aktion (.lauf l)]) = ((d.nach t vor).runOnce t l).2 := by
      rw [nach, List.foldl_append]
      rfl
    rw [hend] at hblocks
    unfold blocksText at hblocks ⊢
    rw [honce, hblocked] at hblocks
    split
    next hkind =>
      rw [if_pos hkind] at hblocks
      exact hblocks
    next hkind =>
      rw [if_neg hkind] at hblocks
      split
      next => rfl
      next => exact hblocks
  · intro es kind hkind
    exact if_pos hkind

/-- A run that could not read the positions blocks entries, and the next clean run
does not let them pass. -/
theorem sperre_klebt_ausfall :
    ((neu true .leer).nach ohneZahlen [.aktion (.lauf (leererLauf (.error "timeout"))),
      .aktion (.lauf (leererLauf (.ok [])))]).blocksText "entry" = true :=
  (sperre_klebt ohneZahlen (d := neu true .leer) rfl).1 [] (leererLauf (.error "timeout")) _
    [.aktion (.lauf (leererLauf (.ok [])))] "entry" rfl ⟨_, List.mem_singleton_self _, rfl⟩
    (by simp [Ereignis.hebtAuf]) (by decide)

end ReconciliationService

end Reconciliation
