import AutonomousEngine.Basis.Dict
import Mathlib.Data.Rat.Floor

/-!
# The levers of the exit round

Before the consensus runs, up to three levers send sales: names that fell out of the
top ranks are sold whole, then a book over its cap is wound down in the order of the
ranks, and what is too heavy is trimmed.  The first two share a budget for the round
and one for the day, the third has a budget for the day of its own.

What a sale becomes is decided elsewhere and may raise.  A lever ends then, and what
it had booked stays booked (`Stand`).
-/

namespace Ausstiegsrunde

open Basis

/-- The class of a sale. -/
inductive Weg where
  | rotation
  | bookOverflow
  | trim
deriving DecidableEq, Repr

/-- A sale handed over to `_process_signal_event`. -/
structure Ereignis where
  symbol : String
  weg : Weg
  /-- 0 sells the whole position. -/
  suggestedQuantity : ℚ
  positionQty : ℚ
  /-- Whether the call raised. -/
  geworfen : Bool
deriving DecidableEq, Repr

def Ereignis.voll (e : Ereignis) : Bool := e.weg ≠ .trim

/-- What the portfolio manager knows of a position. -/
structure Score where
  qty : ℚ
  daysHeld : ℚ
  currentPrice : ℚ
deriving DecidableEq, Repr

/-- A recommendation to rebalance, and what is found when its turn comes. -/
structure Empfehlung where
  action : String
  symbol : String
  marketValue : ℚ
  adjustmentValue : ℚ
  /-- The position of the symbol, where there is one. -/
  score : Option Score
  /-- The retention veto; it is absent when something that is read raises. -/
  veto : Option Bool
  /-- Whether `_process_signal_event` raises on the sale. -/
  wirft : Bool
deriving DecidableEq, Repr

/-- The budgets for a day. -/
structure Grenzen where
  rotationMaxExitsPerSession : ℤ
  trimMaxExitsPerSession : ℤ
deriving DecidableEq, Repr

/-- What one call is given and finds: its time, the settings, the books and the
answers of what it asks. -/
structure Umfeld where
  /-- Seconds. -/
  now : ℤ
  alreadyActed : List String
  rotationExitEnabled : Bool
  deconcentrationTrimEnabled : Bool
  bookCapEnforcementEnabled : Bool
  /-- Whether there is a portfolio manager. -/
  portfolioManager : Bool
  /-- The day of the latest panel; absent also when the panel or the positions cannot
  be read. -/
  snapshot : Option ℤ
  panelMaxAgeDays : ℤ
  topN : ℤ
  minHoldDays : ℚ
  hysteresis : ℚ
  maxExitsPerCycle : ℤ
  minHoldHardGate : Bool
  /-- The positions at the start of the rotation. -/
  positionScores : Dict String Score
  /-- The positions when the overflow is looked at. -/
  held : Dict String Score
  maxPositions : ℤ
  /-- The rank of a symbol; `none` when the reading raises, `some none` when it has
  none. -/
  rank : String → Option (Option ℤ)
  /-- The retention veto for a full exit; `none` when it raises. -/
  veto : Weg → String → Option Bool
  /-- Whether `_process_signal_event` raises on a full exit. -/
  wirft : Weg → String → Bool
  minOrderValue : ℚ
  /-- The recommendations; `none` when they cannot be read. -/
  rebalanceRecommendations : Option (List Empfehlung)

namespace Umfeld

variable (u : Umfeld)

def heute : ℤ := u.now / 86400

/-- `rot_cap`: at least one. -/
def rotCap : ℤ := max 1 u.maxExitsPerCycle

def cap : ℤ := if u.maxPositions = 0 then 10 else u.maxPositions

def panelFrisch : Bool := u.snapshot.any fun snap => u.heute - snap ≤ u.panelMaxAgeDays

def rangverlust (rank : ℤ) (score : Score) : Bool :=
  let minHoldOk : Bool := u.minHoldDays ≤ score.daysHeld
  let rankCollapsed : Bool := u.topN * u.hysteresis < rank
  !decide (rank ≤ u.topN) && decide (u.topN < rank) &&
    (minHoldOk || rankCollapsed && !u.minHoldHardGate)

end Umfeld

/-- What the levers of a call have done: the symbols that are booked as sold, the
exits of the rotation in this round, the exits of the day, and all that was handed
over. -/
structure Stand where
  exited : List String
  rotExits : ℕ
  session : ℕ
  ereignisse : List Ereignis
deriving DecidableEq, Repr

/-- A sale is handed over.  One that raises is not booked. -/
def Stand.uebergib (s : Stand) (e : Ereignis) : Stand :=
  if e.geworfen then { s with ereignisse := s.ereignisse ++ [e] }
  else
    { s with
      exited := s.exited ++ [e.symbol]
      session := s.session + 1
      ereignisse := s.ereignisse ++ [e] }

/-! ## Rotation -/

section

variable (g : Grenzen) (u : Umfeld) (acted : List String)

def vollerAusstieg (weg : Weg) (symbol : String) (score : Score) : Ereignis where
  symbol := symbol
  weg := weg
  suggestedQuantity := 0
  positionQty := score.qty
  geworfen := u.wirft weg symbol

/-- `_rotation_rangverlust`, and whether it returns. -/
def rotationRangverlust : List (String × Score) → Stand → Stand × Bool
  | [], s => (s, true)
  | (sym, score) :: rest, s =>
      if sym ∈ acted ∨ sym ∈ s.exited then rotationRangverlust rest s
      else
        match u.rank sym with
        | none => (s, false)
        | some none => rotationRangverlust rest s
        | some (some rank) =>
            if u.rangverlust rank score then
              match u.veto .rotation sym with
              | none => (s, false)
              | some true => rotationRangverlust rest s
              | some false =>
                  if u.rotCap ≤ s.rotExits then (s, true)
                  else if 0 < g.rotationMaxExitsPerSession ∧
                      g.rotationMaxExitsPerSession ≤ s.session then (s, true)
                  else
                    let e := vollerAusstieg u .rotation sym score
                    if e.geworfen then (s.uebergib e, false)
                    else
                      rotationRangverlust rest
                        { s.uebergib e with rotExits := s.rotExits + 1 }
            else rotationRangverlust rest s

/-! ## Overflow -/

/-- The candidates of `select_overflow_unwind` with their ranks, unless a reading
raises. -/
def waehlbar : List (String × Score) → Option (List (ℤ × String))
  | [] => some []
  | (sym, score) :: rest =>
      if score.daysHeld < u.minHoldDays then waehlbar rest
      else
        match u.rank sym with
        | none => none
        | some none => waehlbar rest
        | some (some rank) => (waehlbar rest).map ((rank, sym) :: ·)

/-- `select_overflow_unwind`: the weakest ranks first, no more than the excess and
the budget. -/
def selectOverflowUnwind (positions : List (String × Score)) (maxPositions budget : ℤ) :
    Option (List String) :=
  let excess := positions.length - maxPositions
  if excess ≤ 0 ∨ budget ≤ 0 then some []
  else
    (waehlbar u positions).map fun eligible =>
      let sorted := eligible.insertionSort fun a b => b.1 ≤ a.1
      (sorted.take (min (min excess budget) eligible.length).toNat).map Prod.snd

/-- The loop of `_rotation_ueberhang`, and whether it ends. -/
def ueberhangSchleife : List String → Stand → Stand × Bool
  | [], s => (s, true)
  | sym :: rest, s =>
      match u.held.get? sym, u.veto .bookOverflow sym with
      | none, _ => (s, false)
      | some _, none => (s, false)
      | some _, some true => ueberhangSchleife rest s
      | some score, some false =>
          let e := vollerAusstieg u .bookOverflow sym score
          if e.geworfen then (s.uebergib e, false) else ueberhangSchleife rest (s.uebergib e)

/-- `_budget`: what is left of the budgets of the round and of the day. -/
def ueberhangBudget (s : Stand) : ℤ :=
  let cycleLeft := max 0 (u.rotCap - s.rotExits)
  let sessLeft :=
    if 0 < g.rotationMaxExitsPerSession then max 0 (g.rotationMaxExitsPerSession - s.session)
    else cycleLeft
  min cycleLeft sessLeft

/-- `_rotation_ueberhang`, and whether it returns. -/
def rotationUeberhang (s : Stand) : Stand × Bool :=
  if u.cap < u.held.entries.length then
    let frei := u.held.entries.filter fun p => p.1 ∉ acted ∧ p.1 ∉ s.exited
    match selectOverflowUnwind u frei u.cap (ueberhangBudget g u s) with
    | none => (s, false)
    | some symbols => ueberhangSchleife u symbols s
  else (s, true)

/-! ## Trim -/

/-- The quantity that a trim sells: a part of what is held. -/
def trimQty (rec : Empfehlung) (score : Score) : ℚ :=
  score.qty * min 1 (|rec.adjustmentValue| / rec.marketValue)

/-- Whether a trim is too small for an order. -/
def staub (rec : Empfehlung) (score : Score) : Bool :=
  0 < score.currentPrice ∧ trimQty rec score * score.currentPrice < u.minOrderValue

/-- The position that a recommendation trims, if it does. -/
def trimmt (rec : Empfehlung) (exited : List String) : Option Score :=
  if rec.action ≠ "REDUCE" ∨ rec.symbol ∈ acted ∨ rec.symbol ∈ exited ∨ rec.marketValue ≤ 0 then
    none
  else
    rec.score.filter fun score =>
      !decide (score.qty ≤ 0) && !decide (trimQty rec score ≤ 0) && !staub u rec score

def teilverkauf (rec : Empfehlung) (score : Score) : Ereignis where
  symbol := rec.symbol
  weg := .trim
  suggestedQuantity := trimQty rec score
  positionQty := score.qty
  geworfen := rec.wirft

/-- The loop of `_trim_ausstiege`. -/
def trimSchleife : List Empfehlung → Stand → Stand
  | [], s => s
  | rec :: rest, s =>
      if 0 < g.trimMaxExitsPerSession ∧ g.trimMaxExitsPerSession ≤ s.session then s
      else
        match trimmt u acted rec s.exited with
        | none => trimSchleife rest s
        | some score =>
            match rec.veto with
            | none => s
            | some true => trimSchleife rest s
            | some false =>
                let e := teilverkauf rec score
                if e.geworfen then s.uebergib e else trimSchleife rest (s.uebergib e)

end

/-! ## The round -/

/-- A counter for a day. -/
structure Tageszaehler where
  datum : Option ℤ
  exits : ℕ
deriving DecidableEq, Repr

/-- The counter on a day: it starts again on a new one. -/
def Tageszaehler.am (z : Tageszaehler) (heute : ℤ) : ℕ := if z.datum = some heute then z.exits else 0

/-- What the engine keeps from one round to the next. -/
structure Sitzung where
  rotation : Tageszaehler
  trim : Tageszaehler
deriving DecidableEq, Repr

def Sitzung.neu : Sitzung := ⟨⟨none, 0⟩, ⟨none, 0⟩⟩

section

variable (g : Grenzen) (u : Umfeld)

def Stand.zuBeginn (session : ℕ) : Stand := ⟨[], 0, session, []⟩

/-- The two levers of `_rotation_ausstiege`, the overflow only after a rotation that
returned. -/
def rotationHebel (session : ℕ) : Stand :=
  match rotationRangverlust g u u.alreadyActed u.positionScores.entries (.zuBeginn session) with
  | (s, false) => s
  | (s, true) =>
      if u.bookCapEnforcementEnabled then (rotationUeberhang g u u.alreadyActed s).1 else s

/-- `_rotation_ausstiege`: what it sold and handed over, and the counter. -/
def rotationAusstiege (z : Tageszaehler) : List String × List Ereignis × Tageszaehler :=
  if u.panelFrisch then
    let s := rotationHebel g u (z.am u.heute)
    (s.exited, s.ereignisse, ⟨some u.heute, s.session⟩)
  else ([], [], z)

def trimAusstiege (acted : List String) (z : Tageszaehler) :
    List String × List Ereignis × Tageszaehler :=
  let s := trimSchleife g u acted (u.rebalanceRecommendations.getD []) (.zuBeginn (z.am u.heute))
  (s.exited, s.ereignisse, ⟨some u.heute, s.session⟩)

/-- `_run_deconcentration_and_rotation_exits`: what is returned and handed over. -/
def runde (z : Sitzung) : (List String × List Ereignis) × Sitzung :=
  if (u.rotationExitEnabled || u.deconcentrationTrimEnabled) && u.portfolioManager then
    let (exited, ereignisse, rotation) :=
      if u.rotationExitEnabled then rotationAusstiege g u z.rotation else ([], [], z.rotation)
    let (getrimmt, trims, trim) :=
      if u.deconcentrationTrimEnabled then
        trimAusstiege g u (u.alreadyActed ++ exited) z.trim
      else ([], [], z.trim)
    ((exited ++ getrimmt, ereignisse ++ trims), ⟨rotation, trim⟩)
  else (([], []), z)

/-- The calls of a run, each with what it handed over. -/
def lauf (g : Grenzen) : Sitzung → List Umfeld → List (Umfeld × List Ereignis)
  | _, [] => []
  | z, u :: us => (u, (runde g u z).1.2) :: lauf g (runde g u z).2 us

end

end Ausstiegsrunde
