import AutonomousEngine.Basis.ExtRat
import AutonomousEngine.Basis.JsonDict

/-!
# The check of a new order against the learned rules

Before an order the risk manager asks for a halt and for the VIX, and then goes through the
rules that were learned.  A rule has a trigger and an action.  Where the trigger matches, the
rule blocks the order or changes one of two modifiers, the scaler of the size and the
multiplier of the stop loss.  A rule whose evaluation raises is skipped.
-/

namespace Vorpruefung

open Basis

/-- A value that was read from JSON, or that stands in the market data. -/
inductive Wert where
  | none
  | bool (b : Bool)
  | ganz (n : ℤ)
  | zahl (x : ExtRat)
  | text (s : String)
  | liste (xs : List Wert)
  | dict (ms : List (String × Wert))

abbrev Woerterbuch : Type := List (String × Wert)

/-- What the language makes of texts, of large integers and of membership.  Nothing is given
where it raises. -/
structure Python where
  float : String → Option ExtRat
  floatGanz : ℤ → Option ExtRat
  lower : String → String
  /-- `x in y`. -/
  isIn : Wert → Wert → Option Bool
  str : Wert → String

namespace Wert

def wahr : Wert → Bool
  | .none => false
  | .bool b => b
  | .ganz n => n ≠ 0
  | .zahl x => x ≠ 0
  | .text s => s ≠ ""
  | .liste xs => !xs.isEmpty
  | .dict ms => !ms.isEmpty

/-- Whether a value is a text of the source. -/
def ist (s : String) : Wert → Bool
  | .text t => t = s
  | _ => false

/-- The number that a value is compared as. -/
def vergleichszahl : Wert → Option ExtRat
  | .bool b => some (.of b.toNat)
  | .ganz n => some (.of n)
  | .zahl x => some x
  | _ => Option.none

end Wert

structure Mods where
  sizeScaler : ExtRat
  slMultiplier : ExtRat
deriving DecidableEq

/-- What is returned; the modifiers are missing where the dictionary is empty. -/
structure Ergebnis where
  allowed : Bool
  reason : String
  mods : Option Mods
deriving DecidableEq

/-- What the rules are checked against. -/
structure Lage where
  side : String
  strategyName : Wert
  loopVix : ExtRat
  features : Wert

variable (P : Python)

/-- `float` of a value. -/
def toFloat : Wert → Option ExtRat
  | .bool b => some (.of b.toNat)
  | .ganz n => P.floatGanz n
  | .zahl x => some x
  | .text s => P.float s
  | _ => none

/-! ## The trigger -/

def sidePasst (trigger : Woerterbuch) (l : Lage) : Option Bool :=
  match dictGet "side" trigger with
  | none => some true
  | some w =>
      if w.wahr then
        match w with
        | .text s => some (P.lower s = P.lower l.side)
        | _ => none
      else some true

def strategyPasst (trigger : Woerterbuch) (l : Lage) : Option Bool :=
  match dictGet "strategy" trigger with
  | none => some true
  | some w => if w.wahr then P.isIn w l.strategyName else some true

def vixPasst (key : String) (verletzt : ExtRat → Bool) (trigger : Woerterbuch) : Option Bool :=
  match dictGet key trigger with
  | none => some true
  | some .none => some true
  | some w => w.vergleichszahl.map fun v => !verletzt v

def vixGtPasst (trigger : Woerterbuch) (l : Lage) : Option Bool :=
  vixPasst "vix_gt" (fun v => l.loopVix ≤ v) trigger

def vixLtPasst (trigger : Woerterbuch) (l : Lage) : Option Bool :=
  vixPasst "vix_lt" (fun v => v ≤ l.loopVix) trigger

/-- `features.get(name, 0.0)` as a number. -/
def merkmal (features : Wert) (name : String) : Option ExtRat :=
  match features with
  | .dict fs => toFloat P ((dictGet name fs).getD (.zahl 0))
  | _ => none

/-- The loop over the features, which ends at the first that does not match. -/
def featuresPassen (features : Wert) : Woerterbuch → Option Bool
  | [] => some true
  | (key, val) :: rest =>
      if "indicators.features.".toList.isPrefixOf key.toList then
        let parts := (key.toList.splitOn '.').reverse
        let condition := String.ofList (parts.headD [])
        (merkmal P features (String.ofList (parts.tail.headD []))).bind fun currVal =>
          if condition = "gt" then
            (toFloat P val).bind fun v =>
              if currVal ≤ v then some false else featuresPassen features rest
          else if condition = "lt" then
            (toFloat P val).bind fun v =>
              if v ≤ currVal then some false else featuresPassen features rest
          else featuresPassen features rest
      else featuresPassen features rest

/-- `_regel_passt`: every condition is evaluated, and each may raise. -/
def regelPasst (trigger : Wert) (l : Lage) : Option Bool :=
  match trigger with
  | .dict ms =>
      (sidePasst P ms l).bind fun side => (strategyPasst P ms l).bind fun strategy =>
        (vixGtPasst ms l).bind fun vixGt => (vixLtPasst ms l).bind fun vixLt =>
          (featuresPassen P l.features ms).map fun features =>
            side && strategy && vixGt && vixLt && features
  | _ => none

/-! ## The action -/

/-- The number of an action, with its default. -/
def wertVon (rule : Woerterbuch) (vorgabe : ℚ) : Option ExtRat :=
  toFloat P ((dictGet "value" rule).getD (.zahl (.of vorgabe)))

/-- `_regel_anwenden`: a reason to deny the order, or none, and the modifiers. -/
def regelAnwenden (rule : Woerterbuch) (action status : Wert) (mods : Mods) :
    Option (Option String × Mods) :=
  if status.ist "probation" then some (none, mods)
  else if action.ist "block_trade" then
    some (some ("Blocked by AI Rule: " ++ P.str ((dictGet "reason" rule).getD .none)), mods)
  else if action.ist "reduce_size" then
    (wertVon P rule (1 / 2)).map fun scaler =>
      (none, if scaler < mods.sizeScaler then { mods with sizeScaler := scaler } else mods)
  else if action.ist "tighten_sl" then
    (wertVon P rule (3 / 2)).map fun multiplier =>
      (none,
        if multiplier < mods.slMultiplier then { mods with slMultiplier := multiplier } else mods)
  else if action.ist "increase_size" then
    (wertVon P rule (3 / 2)).map fun scaler =>
      (none, if mods.sizeScaler < scaler then { mods with sizeScaler := scaler } else mods)
  else if action.ist "widen_sl" then
    (wertVon P rule 3).map fun multiplier =>
      (none,
        if mods.slMultiplier < multiplier then { mods with slMultiplier := multiplier } else mods)
  else some (none, mods)

/-! ## The evaluation -/

def action (rule : Woerterbuch) : Wert := (dictGet "action" rule).getD (.text "")

def trigger (rule : Woerterbuch) : Wert := (dictGet "trigger" rule).getD (.dict [])

def status (rule : Woerterbuch) : Wert := (dictGet "status" rule).getD (.text "active")

/-- The loop body for a rule: a reason to deny the order, or none, and the modifiers.  What
raises is skipped. -/
def regelSchritt (l : Lage) (rule : Woerterbuch) (mods : Mods) : Option String × Mods :=
  if (action rule).ist "proactive_signal" then (none, mods)
  else
    match regelPasst P (trigger rule) l with
    | some true => (regelAnwenden P rule (action rule) (status rule) mods).getD (none, mods)
    | _ => (none, mods)

def regelSchleife (l : Lage) : List Woerterbuch → Mods → Ergebnis
  | [], mods => ⟨true, "Approved", some mods⟩
  | rule :: rules, mods =>
      match regelSchritt P l rule mods with
      | (some grund, _) => ⟨false, grund, none⟩
      | (none, mods) => regelSchleife l rules mods

def vixFailclosedSentinel : ExtRat := .of 45

/-- A value of the VIX, and whether it is confirmed. -/
def bestaetigt (val : ExtRat) : ExtRat × Bool :=
  if 0 < val ∧ val ≠ .posInf then (val, true) else (vixFailclosedSentinel, false)

/-- `resolve_vix`.  It raises for an integer that is too large. -/
def resolveVix (marketData : Woerterbuch) : Option (ExtRat × Bool) :=
  match (dictGet "vix" marketData).getD .none with
  | .ganz n => (P.floatGanz n).map bestaetigt
  | .zahl x => some (bestaetigt x)
  | .text s => some (((P.float s).map bestaetigt).getD (vixFailclosedSentinel, false))
  | _ => some (vixFailclosedSentinel, false)

def vorpruefungHalt (halted : Bool) : Option Ergebnis :=
  if halted then some ⟨false, "System or User HALTED by Kill Switch / Risk Manager", none⟩
  else none

def vorpruefungVix (side : String) (marketData : Woerterbuch) :
    Option (Option Ergebnis × ExtRat) :=
  (resolveVix P marketData).map fun (vix, confirmed) =>
    if confirmed = false ∧ P.lower side = "buy" then
      (some ⟨false, "Blocked (fail-closed, §5.6): VIX unconfirmed — new buys blocked", none⟩, 0)
    else (none, if confirmed then vix else 0)

/-- What the rules are checked against; it raises when the indicators are no dictionary. -/
def lageVon (side : String) (marketData : Woerterbuch) (loopVix : ExtRat) : Option Lage :=
  match (dictGet "indicators" marketData).getD (.dict []) with
  | .dict indicators => some
      { side := side
        strategyName := (dictGet "strategy_name" marketData).getD (.text "")
        loopVix := loopVix
        features := (dictGet "features" indicators).getD (.dict []) }
  | _ => none

/-- `evaluate_new_trade`; `none` when it raises. -/
def evaluateNewTrade (halted : Bool) (side : String) (marketData : Woerterbuch)
    (currentSlMultiplier : ExtRat) (rules : List Woerterbuch) : Option Ergebnis :=
  match vorpruefungHalt halted with
  | some abbruch => some abbruch
  | none =>
      (vorpruefungVix P side marketData).bind fun (abbruch, loopVix) =>
        match abbruch with
        | some abbruch => some abbruch
        | none => (lageVon side marketData loopVix).map fun l =>
            regelSchleife P l rules ⟨.of 1, currentSlMultiplier⟩

end Vorpruefung
