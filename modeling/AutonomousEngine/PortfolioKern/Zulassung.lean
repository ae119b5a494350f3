import AutonomousEngine.PortfolioKern.Verdraengung

/-!
# Admission of a candidate

Whether a candidate may be bought, after a refresh of the book: while there is room, at
once (`imRaum`), and in a full book in exchange for the weakest position (`imVollenBuch`).
Before that stand the cooldown of the symbol, and, when the cap of the book is enforced,
the confirmation of the book and its overflow, and the slots held after a stop.
-/

namespace PortfolioKern

open Basis

/-- The answer to a candidate, with the symbol to close for it. -/
structure Antwort where
  shouldOpen : Bool
  grund : Grund
  symbolToClose : Option String := none
deriving DecidableEq

section

variable (m : Manager) (u : Umfeld)

def numPositions (b : Buch) : ℤ := b.positionScores.length

/-- Slots held after a stop, none when they cannot be read. -/
def reservedSlots : ℤ := u.reservedSlots.getD 0

/-- Why a new name has to wait for a slot. -/
def slotHoldReason (b : Buch) (o : OpportunityScore) : Option Grund :=
  if (b.position o.symbol).isSome then none
  else if 0 < reservedSlots u ∧ numPositions b < m.maxPositions ∧
      m.maxPositions ≤ numPositions b + reservedSlots u then
    some (.slotHold (reservedSlots u) (numPositions b) m.maxPositions)
  else none

/-- Why a holding is not filled up: it is in the band below its target. -/
def topupDeadBandReason (b : Buch) (o : OpportunityScore) : Option Grund :=
  match b.position o.symbol with
  | none => none
  | some held =>
      if m.topupDeadBandRel ≤ 0 ∨ b.totalCapital ≤ 0 then none
      else
        let currentPct := held.marketValue / b.totalCapital * .of 100
        if u.topupTargetPct * (.of 1 - m.topupDeadBandRel) ≤ currentPct then
          some (.deadBand o.symbol currentPct u.topupTargetPct)
        else none

def imRaum (b : Buch) (o : OpportunityScore) : Antwort :=
  if canTradeSymbolWhenRoom m u b o.symbol = false then ⟨false, .dailyLimit o.symbol, none⟩
  else if .of 25 ≤ o.totalScore then
    match topupDeadBandReason m u b o with
    | some grund => ⟨false, grund, none⟩
    | none => ⟨true, .platz (numPositions b) m.maxPositions, none⟩
  else ⟨false, .scoreZuNiedrig o.totalScore, none⟩

/-- Whether displacement is on, also when the configuration cannot be read. -/
def displacementEnabled : Option Config → Bool
  | some cfg => cfg.displacementEnabled
  | none => true

/-- The debate over the weakest position, with a counter that is on its date. -/
def debattieren (b : Buch) (o : OpportunityScore) : Antwort × Buch :=
  match debatePositionSwap m u b o (getWeakestPosition b) with
  | (true, grund) =>
      (⟨true, grund, (getWeakestPosition b).map PositionScore.symbol⟩, noteDisplacement u.heute b)
  | (false, grund) => (⟨false, grund, none⟩, b)

def imVollenBuch (b : Buch) (o : OpportunityScore) : Antwort × Buch :=
  match topupDeadBandReason m u b o with
  | some grund => (⟨false, grund, none⟩, b)
  | none =>
      if canTradeSymbol m u b o.symbol = false then (⟨false, .cooldown o.symbol, none⟩, b)
      else if displacementEnabled u.cfg = false then (⟨false, .displacementDisabled, none⟩, b)
      else if sessionBudgetOk (displacementSessionCap u.cfg) (b.amTag u.heute) = false then
        (⟨false, .sessionCap (b.amTag u.heute).displacementsSession (displacementSessionCap u.cfg),
          none⟩, b.amTag u.heute)
      else debattieren m u (b.amTag u.heute) o

def entscheiden (b : Buch) (o : OpportunityScore) : Antwort × Buch :=
  if withinOrderCooldown m u b o.symbol then
    (⟨false, .orderCooldown o.symbol m.minOrderIntervalSec, none⟩, b)
  else if bookCapEnforced u.cfg = true ∧ b.lastRefreshOk = false then
    (⟨false, .slotUnverified, none⟩, b)
  else if bookCapEnforced u.cfg = true ∧ m.maxPositions < numPositions b then
    (⟨false, .bookOverflow (numPositions b) m.maxPositions, none⟩, b)
  else
    match slotHoldReason m u b o with
    | some grund => (⟨false, grund, none⟩, b)
    | none =>
        if numPositions b < m.maxPositions then (imRaum m u b o, b)
        else imVollenBuch m u b o

/-- Whether a candidate should be bought. -/
def shouldOpenNewPosition (b : Buch) (o : OpportunityScore) : Antwort × Buch :=
  entscheiden m u (refreshPositions u b) o

end

/-! ## What an answer says -/

variable {m : Manager} {u : Umfeld} {b b' : Buch} {o : OpportunityScore} {a : Antwort}

/-- Why a candidate came to the debate. -/
structure Vorgelassen (m : Manager) (u : Umfeld) (b : Buch) (o : OpportunityScore) : Prop where
  keinCooldown : withinOrderCooldown m u b o.symbol = false
  bestaetigt : bookCapEnforced u.cfg = true → b.lastRefreshOk = true
  keinUeberlauf : bookCapEnforced u.cfg = true → numPositions b ≤ m.maxPositions
  voll : m.maxPositions ≤ numPositions b
  keinBand : topupDeadBandReason m u b o = none
  handelbar : canTradeSymbol m u b o.symbol = true
  eingeschaltet : displacementEnabled u.cfg = true
  budget : sessionBudgetOk (displacementSessionCap u.cfg) (b.amTag u.heute) = true

/-- What a call does: it declines and at most turns the counter to its date, opens a
position in a free slot, or decides by the debate. -/
inductive Ausgang (m : Manager) (u : Umfeld) (b : Buch) (o : OpportunityScore) :
    Antwort × Buch → Prop where
  | abgelehnt (grund : Grund) (b' : Buch) (h : b' = b ∨ b' = b.amTag u.heute) :
      Ausgang m u b o (⟨false, grund, none⟩, b')
  | platz (grund : Grund) (hroom : numPositions b < m.maxPositions)
      (hok : bookCapEnforced u.cfg = true → b.lastRefreshOk = true) :
      Ausgang m u b o (⟨true, grund, none⟩, b)
  | tausch (grund : Grund) (hvor : Vorgelassen m u b o)
      (hswap : (debatePositionSwap m u b o (getWeakestPosition b)).1 = true) :
      Ausgang m u b o (⟨true, grund, (getWeakestPosition b).map PositionScore.symbol⟩,
        noteDisplacement u.heute (b.amTag u.heute))

theorem ausgang_imVollenBuch (hc : withinOrderCooldown m u b o.symbol = false)
    (hok : bookCapEnforced u.cfg = true → b.lastRefreshOk = true)
    (hle : bookCapEnforced u.cfg = true → numPositions b ≤ m.maxPositions)
    (hfull : m.maxPositions ≤ numPositions b) : Ausgang m u b o (imVollenBuch m u b o) := by
  rw [imVollenBuch]
  split
  next => exact .abgelehnt _ _ (.inl rfl)
  next hband =>
    split
    next => exact .abgelehnt _ _ (.inl rfl)
    next htrade =>
      split
      next => exact .abgelehnt _ _ (.inl rfl)
      next hon =>
        split
        next => exact .abgelehnt _ _ (.inr rfl)
        next hbudget =>
          rw [debattieren, debatePositionSwap_amTag, getWeakestPosition_amTag]
          cases hswap : debatePositionSwap m u b o (getWeakestPosition b) with
          | mk swap grund =>
              cases swap with
              | false => exact .abgelehnt _ _ (.inr rfl)
              | true =>
                  refine .tausch grund ⟨hc, hok, hle, hfull, hband, ?_, ?_, ?_⟩ (by rw [hswap])
                  · exact Bool.eq_true_of_not_eq_false htrade
                  · exact Bool.eq_true_of_not_eq_false hon
                  · exact Bool.eq_true_of_not_eq_false hbudget

theorem ausgang (m : Manager) (u : Umfeld) (b : Buch) (o : OpportunityScore) :
    Ausgang m u b o (entscheiden m u b o) := by
  rw [entscheiden]
  split
  next => exact .abgelehnt _ _ (.inl rfl)
  next hcool =>
    split
    next => exact .abgelehnt _ _ (.inl rfl)
    next hok =>
      split
      next => exact .abgelehnt _ _ (.inl rfl)
      next hle =>
        have hconfirmed : bookCapEnforced u.cfg = true → b.lastRefreshOk = true := fun hcap =>
          Bool.eq_true_of_not_eq_false fun hfalse => hok ⟨hcap, hfalse⟩
        split
        next => exact .abgelehnt _ _ (.inl rfl)
        next =>
          split
          next hroom =>
            rw [imRaum]
            split
            next => exact .abgelehnt _ _ (.inl rfl)
            next =>
              split
              next =>
                split
                next => exact .abgelehnt _ _ (.inl rfl)
                next => exact .platz _ hroom hconfirmed
              next => exact .abgelehnt _ _ (.inl rfl)
          next hfull =>
            exact ausgang_imVollenBuch (Bool.eq_false_of_not_eq_true hcool) hconfirmed
              (fun hcap => not_lt.mp fun hlt => hle ⟨hcap, hlt⟩) (not_lt.mp hfull)

/-! ## The symbol to close -/

/-- What an answer owes the position that is to be closed: it is held, is another name
than the candidate and is protected by neither veto. -/
def TauschStimmt (m : Manager) (u : Umfeld) (b : Buch) (o : OpportunityScore) : Prop :=
  ∀ grund s, (shouldOpenNewPosition m u b o).1 = ⟨true, grund, some s⟩ → s ≠ o.symbol ∧
    ∃ p ∈ (refreshPositions u b).positionScores, p.symbol = s ∧
      haltefristVeto (displacementMinHoldDays u.cfg) p = false ∧
      konsensVeto u.cfg (refreshPositions u b) s = false

/-- When a refreshed book gives up a holding for the same name: the candidate is the
weakest position, no gate stops it, no veto protects it, and its scores as a candidate
are above its scores as a position. -/
structure Selbsttausch (m : Manager) (u : Umfeld) (b : Buch) (o : OpportunityScore)
    (p : PositionScore) : Prop where
  schwaechste : getWeakestPosition b = some p
  derselbe : p.symbol = o.symbol
  vorgelassen : Vorgelassen m u b o
  reif : haltefristVeto (displacementMinHoldDays u.cfg) p = false
  ohneRueckhalt : konsensVeto u.cfg b p.symbol = false
  ueberlegen : ueberlegen o p (argumenteDafuer o p (displacementMinHoldDays u.cfg)).length
    (argumenteDagegen m u b o p).length

/-- A candidate that is let in and wins the debate is exchanged. -/
theorem entscheiden_of_vorgelassen {p : PositionScore} (hvor : Vorgelassen m u b o)
    (hweak : getWeakestPosition b = some p)
    (hswap : (debatePositionSwap m u b o (some p)).1 = true) :
    ∃ grund, (entscheiden m u b o).1 = ⟨true, grund, some p.symbol⟩ := by
  have hok : ¬ (bookCapEnforced u.cfg = true ∧ b.lastRefreshOk = false) := by
    rintro ⟨hcap, hfalse⟩
    rw [hvor.bestaetigt hcap] at hfalse
    cases hfalse
  have hslot : slotHoldReason m u b o = none := by
    rw [slotHoldReason]
    split
    next => rfl
    next =>
      rw [if_neg]
      rintro ⟨-, hroom, -⟩
      exact absurd hvor.voll (not_le.mpr hroom)
  cases hd : debatePositionSwap m u b o (some p) with
  | mk swap grund =>
      rw [hd] at hswap
      cases hswap
      refine ⟨grund, ?_⟩
      rw [entscheiden, hvor.keinCooldown, if_neg Bool.false_ne_true, if_neg hok,
        if_neg fun h => absurd (hvor.keinUeberlauf h.1) (not_le.mpr h.2), hslot]
      dsimp only
      rw [if_neg (not_lt.mpr hvor.voll), imVollenBuch, hvor.keinBand]
      dsimp only
      rw [hvor.handelbar, if_neg Bool.true_eq_false.mp, hvor.eingeschaltet,
        if_neg Bool.true_eq_false.mp, hvor.budget, if_neg Bool.true_eq_false.mp, debattieren,
        debatePositionSwap_amTag, getWeakestPosition_amTag, hweak, hd]
      rfl

def zweiPlaetze : Manager where
  maxPositions := 2
  maxTradesPerDay := 3
  minOrderIntervalSec := .of 900
  rebalanceCooldownHours := .of 4
  topupDeadBandRel := .of (1 / 5)

/-- A broker that holds two positions of five percent each, one of them at a loss. -/
def vollesBuch (cfg : Config) (jetzt : ℤ) : Umfeld where
  cfg := some cfg
  jetzt := jetzt
  tradingDayEt t := t / tagMikrosekunden
  konto := some (some ⟨.of 10000, "A1"⟩)
  positions := some [some ⟨"AAPL", .of 500, .of (-6)⟩, some ⟨"MSFT", .of 500, .of 6⟩]
  reservedSlots := some 0
  topupTargetPct := .of 10

end PortfolioKern
