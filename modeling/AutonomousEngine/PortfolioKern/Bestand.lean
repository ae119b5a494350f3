import AutonomousEngine.Basis.ExtRat
import AutonomousEngine.Basis.JsonDict

/-!
# The book of the portfolio manager

The positions the manager knows, each with its scores, and what it remembers of its
trades.  A refresh asks the broker: it takes in each position that is reported, drops
the others and marks the book as confirmed.  When the broker does not answer, or one
of the positions cannot be read, what has been taken in stays and the book is not
confirmed.

Times are whole microseconds.  What is asked anew with each call (the configuration,
the clock, the broker) is an argument, `Umfeld`.
-/

namespace PortfolioKern

open Basis

/-! ## Positions -/

/-- A position with its scores.  Its symbol is the key under which the book keeps it. -/
structure PositionScore where
  symbol : String
  marketValue : ExtRat
  unrealizedPnlPct : ExtRat
  momentumScore : ExtRat := .of 50
  convictionScore : ExtRat := .of 50
  riskAdjustedScore : ExtRat := .of 50
  holdingPeriodScore : ExtRat := .of 50
  totalScore : ExtRat := .of 50
  daysHeld : ℤ := 0
  ageKnown : Bool := false
deriving DecidableEq

/-- A position as it is read from the broker. -/
structure BrokerPosition where
  symbol : String
  marketValue : ExtRat
  unrealizedPnlPct : ExtRat

/-- An account as it is read from the broker, with an empty id when it has none. -/
structure Konto where
  equity : ExtRat
  id : String

/-! ## The configuration -/

/-- What the manager reads from the configuration at each call. -/
structure Config where
  bookCapEnforcementEnabled : Bool := false
  rotationMinHoldCurrentLot : Bool := false
  holdingPeriodScoreFresh : ExtRat := .of 30
  holdingPeriodScoreSpanDays : ExtRat := 0
  displacementEnabled : Bool := true
  displacementRespectsMinHold : Bool := false
  smartExitMinHoldDays : ExtRat := 0
  displacementMaxPerSession : ℤ := 0
  consensusRetentionThreshold : ExtRat := 0

/-- Python's `x or y` of two numbers. -/
def oder (x y : ExtRat) : ExtRat := if x = 0 then y else x

/-- Whether the cap of the book is enforced, not when the configuration cannot be read. -/
def bookCapEnforced : Option Config → Bool
  | some cfg => cfg.bookCapEnforcementEnabled
  | none => false

def bestandLotUhrAktiv : Option Config → Bool
  | some cfg => cfg.rotationMinHoldCurrentLot
  | none => false

def holdingPeriodCfg : Option Config → ExtRat × ExtRat
  | some cfg => (oder cfg.holdingPeriodScoreFresh (.of 30), oder cfg.holdingPeriodScoreSpanDays 0)
  | none => (.of 30, 0)

/-! ## State and surroundings -/

/-- What the manager was made with. -/
structure Manager where
  maxPositions : ℤ
  maxTradesPerDay : ℤ
  minOrderIntervalSec : ExtRat
  rebalanceCooldownHours : ExtRat
  topupDeadBandRel : ExtRat

/-- What the manager remembers. -/
structure Buch where
  positionScores : List PositionScore
  tradeHistory : List (String × List ℤ)
  lastRebalance : List (String × ℤ)
  positionOpenedAt : List (String × ℤ)
  liveConsensus : List (String × ExtRat)
  totalCapital : ExtRat
  seenAccountId : Option String
  seenRefresh : Bool
  lastRefreshOk : Bool
  displacementSessionDate : Option ℤ
  displacementsSession : ℕ

def Buch.neu (totalCapital : ExtRat) : Buch where
  positionScores := []
  tradeHistory := []
  lastRebalance := []
  positionOpenedAt := []
  liveConsensus := []
  totalCapital := totalCapital
  seenAccountId := none
  seenRefresh := false
  lastRefreshOk := false
  displacementSessionDate := none
  displacementsSession := 0

/-- What is asked during a call.  `konto` is `none` for a broker without accounts and
`some none` when the account cannot be read, `positions` is `none` when the broker does
not answer and holds `none` for a position that cannot be read.  `reservedSlots` is
`none` when the reservation fails, and `topupTargetPct` is the weight a holding of the
candidate is filled up to. -/
structure Umfeld where
  cfg : Option Config
  jetzt : ℤ
  tradingDayEt : ℤ → ℤ
  konto : Option (Option Konto)
  positions : Option (List (Option BrokerPosition))
  reservedSlots : Option ℤ
  topupTargetPct : ExtRat

def tagMikrosekunden : ℤ := 24 * 60 * 60 * 1000000

def Umfeld.heute (u : Umfeld) : ℤ := u.jetzt / tagMikrosekunden

def Buch.position (b : Buch) (symbol : String) : Option PositionScore :=
  b.positionScores.find? (·.symbol = symbol)

/-- Puts a position in the place of the one with its symbol. -/
def setze (p : PositionScore) : List PositionScore → List PositionScore
  | [] => [p]
  | q :: qs => if q.symbol = p.symbol then p :: qs else q :: setze p qs

/-! ## Scores -/

/-- The points for the days a position has been held. -/
def holdingPeriodScore (daysHeld : ℤ) (fresh spanDays : ExtRat) : ExtRat :=
  let d := ExtRat.pyMax 0 (.of daysHeld)
  if 0 < spanDays then fresh + (.of 90 - fresh) * ExtRat.pyMin (.of 1) (d / spanDays)
  else if d < .of 1 then fresh
  else if d < .of 3 then .of 50
  else if d < .of 7 then .of 70
  else .of 90

/-- A number cut to the range of a score. -/
def punkte (x : ExtRat) : ExtRat := ExtRat.pyMax 0 (ExtRat.pyMin (.of 100) x)

def calculatePositionScores (cfg : Option Config) (p : PositionScore) : PositionScore :=
  let momentum := punkte (.of 50 + p.unrealizedPnlPct * .of 5)
  let holding := holdingPeriodScore p.daysHeld (holdingPeriodCfg cfg).1 (holdingPeriodCfg cfg).2
  let dailyReturn := p.unrealizedPnlPct / .of (max 1 p.daysHeld : ℤ)
  let risk := punkte (.of 50 + dailyReturn * .of 50)
  { p with
    momentumScore := momentum
    holdingPeriodScore := holding
    riskAdjustedScore := risk
    totalScore := momentum * .of (35 / 100) + holding * .of (20 / 100) + risk * .of (25 / 100) +
      p.convictionScore * .of (20 / 100) }

/-! ## The refresh -/

/-- Takes over the equity and, when the cap of the book is enforced, the identity of the
account.  The state of another account is forgotten. -/
def kontoAbgleich (u : Umfeld) (b : Buch) : Buch :=
  match u.konto with
  | some (some acc) =>
      let b := if 0 < acc.equity then { b with totalCapital := acc.equity } else b
      if bookCapEnforced u.cfg = true ∧ acc.id ≠ "" then
        let b :=
          if b.seenAccountId.any (· ≠ acc.id) then
            { b with positionScores := [], tradeHistory := [], positionOpenedAt := [] }
          else b
        { b with seenAccountId := some acc.id }
      else b
  | _ => b

/-- The days a position has been held, and whether they are known. -/
def haltedauer (u : Umfeld) (b : Buch) (symbol : String) : ℤ × Bool :=
  match (if bestandLotUhrAktiv u.cfg then dictGet symbol b.positionOpenedAt else none) with
  | some opened => ((u.jetzt - opened) / tagMikrosekunden, true)
  | none =>
      match dictGet symbol b.tradeHistory with
      | some (t :: ts) => ((u.jetzt - ts.foldl min t) / tagMikrosekunden, true)
      | _ => (0, false)

/-- Takes in a position.  One that was not held at the last refresh has a new clock,
except at the first refresh. -/
def aufnehmen (u : Umfeld) (zuvor : List String) (erster : Bool) (b : Buch) (pos : BrokerPosition) :
    Buch :=
  let b :=
    if bestandLotUhrAktiv u.cfg = true ∧ erster = false ∧ pos.symbol ∉ zuvor then
      { b with positionOpenedAt := dictSet pos.symbol u.jetzt b.positionOpenedAt }
    else b
  let score := calculatePositionScores u.cfg
    { symbol := pos.symbol, marketValue := pos.marketValue,
      unrealizedPnlPct := pos.unrealizedPnlPct, daysHeld := (haltedauer u b pos.symbol).1,
      ageKnown := (haltedauer u b pos.symbol).2 }
  { b with positionScores := setze score b.positionScores }

/-- Takes in the positions up to the first one that cannot be read, and says whether all
of them could be. -/
def einlesen (u : Umfeld) (zuvor : List String) (erster : Bool) :
    Buch → List (Option BrokerPosition) → Buch × Bool
  | b, [] => (b, true)
  | b, none :: _ => (b, false)
  | b, some pos :: ps => einlesen u zuvor erster (aufnehmen u zuvor erster b pos) ps

/-- Drops the positions that are not reported. -/
def geschlosseneEntfernen (symbole : List String) (b : Buch) : Buch :=
  let closed := (b.positionScores.map PositionScore.symbol).filter (· ∉ symbole)
  { b with
    positionScores := b.positionScores.filter (·.symbol ∈ symbole)
    positionOpenedAt := b.positionOpenedAt.filter (·.1 ∉ closed)
    liveConsensus := b.liveConsensus.filter (·.1 ∉ closed) }

def refreshPositions (u : Umfeld) (b : Buch) : Buch :=
  let b := kontoAbgleich u b
  match u.positions with
  | none => { b with lastRefreshOk := false }
  | some ps =>
      let zuvor := b.positionScores.map PositionScore.symbol
      let erster := !b.seenRefresh
      match einlesen u zuvor erster { b with seenRefresh := true } ps with
      | (b, false) => { b with lastRefreshOk := false }
      | (b, true) =>
          { geschlosseneEntfernen ((ps.filterMap id).map BrokerPosition.symbol) b with
            lastRefreshOk := true }

/-- The position with the lowest score, the first of them. -/
def getWeakestPosition (b : Buch) : Option PositionScore :=
  match b.positionScores with
  | [] => none
  | p :: ps => some (ps.foldl (fun q r => if r.totalScore < q.totalScore then r else q) p)

/-! ## What a refresh leaves alone -/

section

variable (u : Umfeld)

/-- The counter of the displacements and its date. -/
def Buch.zaehler (b : Buch) : Option ℤ × ℕ := (b.displacementSessionDate, b.displacementsSession)

theorem zaehler_kontoAbgleich (b : Buch) : (kontoAbgleich u b).zaehler = b.zaehler := by
  rw [kontoAbgleich]
  split
  next acc _ =>
    dsimp only
    split
    next =>
      split
      next => split <;> rfl
      next => split <;> rfl
    next => split <;> rfl
  next => rfl

theorem zaehler_aufnehmen (zuvor : List String) (erster : Bool) (b : Buch) (pos : BrokerPosition) :
    (aufnehmen u zuvor erster b pos).zaehler = b.zaehler := by
  rw [aufnehmen]
  split
  next => rfl
  next => rfl

theorem zaehler_einlesen (zuvor : List String) (erster : Bool) (b : Buch)
    (ps : List (Option BrokerPosition)) : (einlesen u zuvor erster b ps).1.zaehler = b.zaehler := by
  induction ps generalizing b with
  | nil => rfl
  | cons pos ps ih =>
      cases pos with
      | none => rfl
      | some pos => exact (ih _).trans (zaehler_aufnehmen u zuvor erster b pos)

/-- A refresh does not touch the counter of the displacements. -/
@[simp] theorem zaehler_refreshPositions (b : Buch) :
    (refreshPositions u b).zaehler = b.zaehler := by
  rw [refreshPositions]
  dsimp only
  split
  next => exact zaehler_kontoAbgleich u b
  next ps _ =>
    have hread := zaehler_einlesen u ((kontoAbgleich u b).positionScores.map PositionScore.symbol)
      (!(kontoAbgleich u b).seenRefresh) { kontoAbgleich u b with seenRefresh := true } ps
    split
    next c hc =>
      rw [hc] at hread
      exact hread.trans (zaehler_kontoAbgleich u b)
    next c hc =>
      rw [hc] at hread
      exact hread.trans (zaehler_kontoAbgleich u b)

end

/-! ## What a confirmed book shows -/

/-- The book shows the symbols that the broker has answered with, and each of its positions
could be read. -/
def Gemeldet (u : Umfeld) (b : Buch) : Prop :=
  ∃ ps, u.positions = some ps ∧ none ∉ ps ∧ ∀ s,
    s ∈ b.positionScores.map PositionScore.symbol ↔
      s ∈ (ps.filterMap id).map BrokerPosition.symbol

theorem mem_symbol_setze (p : PositionScore) (qs : List PositionScore) (s : String) :
    s ∈ (setze p qs).map PositionScore.symbol ↔
      s = p.symbol ∨ s ∈ qs.map PositionScore.symbol := by
  induction qs with
  | nil => rw [setze, List.map_singleton, List.mem_singleton, List.map_nil, or_iff_left (by simp)]
  | cons q qs ih =>
      rw [setze]
      split
      next heq => rw [List.map_cons, List.map_cons, heq, List.mem_cons, or_self_left]
      next => rw [List.map_cons, List.map_cons, List.mem_cons, List.mem_cons, ih, or_left_comm]

section

variable (u : Umfeld) (zuvor : List String) (erster : Bool)

theorem mem_symbol_aufnehmen (b : Buch) (pos : BrokerPosition) (s : String) :
    s ∈ (aufnehmen u zuvor erster b pos).positionScores.map PositionScore.symbol ↔
      s = pos.symbol ∨ s ∈ b.positionScores.map PositionScore.symbol := by
  rw [aufnehmen]
  dsimp only
  rw [mem_symbol_setze]
  split
  next => rfl
  next => rfl

/-- All positions are taken in if and only if each of them can be read. -/
theorem einlesen_eq_true_iff (b : Buch) (ps : List (Option BrokerPosition)) :
    (einlesen u zuvor erster b ps).2 = true ↔ none ∉ ps := by
  induction ps generalizing b with
  | nil => simp [einlesen]
  | cons pos ps ih =>
      cases pos with
      | none => simp [einlesen]
      | some pos =>
          rw [einlesen, ih, List.mem_cons, or_iff_right (by simp)]

theorem mem_symbol_einlesen (b : Buch) (ps : List (Option BrokerPosition))
    (h : none ∉ ps) (s : String) :
    s ∈ (einlesen u zuvor erster b ps).1.positionScores.map PositionScore.symbol ↔
      s ∈ (ps.filterMap id).map BrokerPosition.symbol ∨
        s ∈ b.positionScores.map PositionScore.symbol := by
  induction ps generalizing b with
  | nil => rw [einlesen, List.filterMap_nil, List.map_nil, or_iff_right (by simp)]
  | cons pos ps ih =>
      rw [List.mem_cons, not_or] at h
      cases pos with
      | none => exact absurd rfl h.1
      | some pos =>
          have hcons : (some pos :: ps).filterMap id = pos :: ps.filterMap id := rfl
          rw [einlesen, ih _ h.2, mem_symbol_aufnehmen, hcons, List.map_cons, List.mem_cons,
            or_left_comm, or_assoc]

end

theorem mem_symbol_geschlosseneEntfernen (symbole : List String) (b : Buch) (s : String) :
    s ∈ (geschlosseneEntfernen symbole b).positionScores.map PositionScore.symbol ↔
      s ∈ symbole ∧ s ∈ b.positionScores.map PositionScore.symbol := by
  simp only [geschlosseneEntfernen, List.mem_map, List.mem_filter, decide_eq_true_eq]
  constructor
  · rintro ⟨p, ⟨hp, hin⟩, rfl⟩
    exact ⟨hin, p, hp, rfl⟩
  · rintro ⟨hin, p, hp, rfl⟩
    exact ⟨p, ⟨hp, hin⟩, rfl⟩

/-- A refresh confirms the book if and only if the broker answers with positions that can all
be read. -/
theorem lastRefreshOk_refreshPositions (u : Umfeld) (b : Buch) :
    (refreshPositions u b).lastRefreshOk = true ↔ ∃ ps, u.positions = some ps ∧ none ∉ ps := by
  rw [refreshPositions]
  dsimp only
  cases hps : u.positions with
  | none => simp
  | some ps =>
      have hread := einlesen_eq_true_iff u ((kontoAbgleich u b).positionScores.map
        PositionScore.symbol) (!(kontoAbgleich u b).seenRefresh)
        { kontoAbgleich u b with seenRefresh := true } ps
      dsimp only
      split
      next c hc =>
        rw [hc] at hread
        simpa using hread
      next c hc =>
        rw [hc] at hread
        simpa using hread

/-- A confirmed book shows what the broker has answered, and nothing else. -/
theorem gemeldet_refreshPositions (u : Umfeld) (b : Buch)
    (h : (refreshPositions u b).lastRefreshOk = true) : Gemeldet u (refreshPositions u b) := by
  obtain ⟨ps, hps, hnone⟩ := (lastRefreshOk_refreshPositions u b).mp h
  refine ⟨ps, hps, hnone, fun s => ?_⟩
  have hread := (einlesen_eq_true_iff u ((kontoAbgleich u b).positionScores.map
    PositionScore.symbol) (!(kontoAbgleich u b).seenRefresh)
    { kontoAbgleich u b with seenRefresh := true } ps).mpr hnone
  have hmem := mem_symbol_einlesen u ((kontoAbgleich u b).positionScores.map
    PositionScore.symbol) (!(kontoAbgleich u b).seenRefresh)
    { kontoAbgleich u b with seenRefresh := true } ps hnone s
  rw [refreshPositions, hps]
  dsimp only
  split
  next c hc =>
    rw [hc] at hread
    cases hread
  next c hc =>
    rw [hc] at hmem
    show s ∈ (geschlosseneEntfernen _ c).positionScores.map PositionScore.symbol ↔ _
    rw [mem_symbol_geschlosseneEntfernen, hmem]
    exact ⟨fun hs => hs.1, fun hs => ⟨hs, .inl hs⟩⟩

/-! ## The weakest position -/

theorem foldl_mem {f : PositionScore → PositionScore → PositionScore}
    (hf : ∀ q r, f q r = q ∨ f q r = r) (ps : List PositionScore) (p : PositionScore) :
    ps.foldl f p ∈ p :: ps := by
  induction ps generalizing p with
  | nil => exact .head _
  | cons q ps ih =>
      rw [List.foldl_cons]
      rcases List.mem_cons.mp (ih (f p q)) with hfold | hfold
      · rw [hfold]
        rcases hf p q with heq | heq
        · rw [heq]
          exact .head _
        · rw [heq]
          exact .tail _ (.head _)
      · exact .tail _ (.tail _ hfold)

theorem mem_of_getWeakestPosition {b : Buch} {p : PositionScore}
    (h : getWeakestPosition b = some p) : p ∈ b.positionScores := by
  rw [getWeakestPosition] at h
  split at h
  next => cases h
  next q qs hbook =>
    rw [hbook, ← Option.some.inj h]
    refine foldl_mem (fun q r => ?_) qs q
    split
    next => exact .inr rfl
    next => exact .inl rfl

theorem getWeakestPosition_eq_none {b : Buch} (h : getWeakestPosition b = none) :
    b.positionScores = [] := by
  rw [getWeakestPosition] at h
  split at h
  next hnil => exact hnil
  next => cases h

end PortfolioKern
