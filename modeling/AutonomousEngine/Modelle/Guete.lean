import AutonomousEngine.Basis.ExtRat

/-!
# The quality gate of a checkpoint

`evaluate` of the quality gate reads the metadata of a trained model and lets it
through, or names the first field that speaks against it.  A field that is absent is
mostly no reason: the gate is tightened as the offline layers fill the metadata in.

The checks are independent, so that a model passes exactly when no field speaks
against it (`evaluate_passed_iff`), and a model with better figures is not worse off
(`evaluate_monoton`).  Comparisons are those of floats: a figure that is no number
is below no floor and above no bound.
-/

namespace Modelle

open Basis

/-- A JSON value other than `null`. -/
inductive Wert where
  | bool (b : Bool)
  | zahl (x : ExtRat)
  | anderes (repr : String)
deriving DecidableEq, Repr

/-- `isinstance(v, (int, float))`, which a bool is. -/
def Wert.zahl? : Wert → Option ExtRat
  | .bool b => some (.of (if b then 1 else 0))
  | .zahl x => some x
  | .anderes _ => none

/-- The fields of `metadata.json` the gate reads; `null` is as absent. -/
structure Metadaten where
  valLoss : Option Wert
  walkforwardIc : Option Wert
  walkforwardIcHonest : Option Wert
  walkforwardIcOos506 : Option Wert
  wilcoxonP : Option Wert
  fdrPassed : Option Wert
  netSharpe : Option Wert
  /-- `layer4.net_sharpe`, if `layer4` is an object. -/
  layer4NetSharpe : Option Wert
  deflatedSharpe : Option Wert
  /-- `layer5.deflated_sharpe`, if `layer5` is an object. -/
  layer5DeflatedSharpe : Option Wert
deriving DecidableEq, Repr

/-- The thresholds and switches. -/
structure Schwellen where
  strict : Bool
  allowWalkforwardOnly : Bool
  honestIc : Bool
  strictWalkforward : Bool
  icDiagnosticOnly : Bool
  deflatedSharpeGateEnabled : Bool
  valLossMax : ExtRat
  icMin : ExtRat
  wilcoxonPMax : ExtRat
  netSharpeFloor : ExtRat
  dsrFloor : ExtRat
deriving DecidableEq, Repr

/-- Why a model is refused: the field and its value, as the text of `reason` names
them. -/
inductive Grund where
  | missingMetadata
  | noValLoss
  | noWalkforwardIc
  | notNumeric (field : String) (v : Wert)
  | exceeds (field : String) (x bound : ExtRat)
  | notAbove (field : String) (x floor : ExtRat)
  | fdrFailed (v : Wert)
deriving DecidableEq, Repr

/-- `val_loss`. -/
def pruefeValLoss (c : Schwellen) (m : Metadaten) : Option Grund :=
  let hasWalkforward := m.walkforwardIc.isSome ||
    (c.honestIc && (m.walkforwardIcHonest.isSome || m.walkforwardIcOos506.isSome))
  match m.valLoss with
  | none =>
      if c.strict && !(c.allowWalkforwardOnly && hasWalkforward) then some .noValLoss else none
  | some v =>
      match v.zahl? with
      | none => some (.notNumeric "val_loss" v)
      | some x => if c.valLossMax < x then some (.exceeds "val_loss" x c.valLossMax) else none

/-- The walk-forward IC that counts, and the name of its field. -/
def wfIc (c : Schwellen) (m : Metadaten) : Option (String × Wert) :=
  let ehrlich := if c.honestIc then
      (m.walkforwardIcHonest.map fun v => ("walkforward_ic_honest", v)).or
        (m.walkforwardIcOos506.map fun v => ("walkforward_ic_oos506", v))
    else none
  ehrlich.or (m.walkforwardIc.map fun v => ("walkforward_ic", v))

def pruefeIc (c : Schwellen) (m : Metadaten) : Option Grund :=
  match wfIc c m with
  | none => if c.strictWalkforward then some .noWalkforwardIc else none
  | some (field, v) =>
      match v.zahl? with
      | none => some (.notNumeric field v)
      | some x =>
          if x ≤ c.icMin then
            if c.icDiagnosticOnly then none else some (.notAbove field x c.icMin)
          else none

def pruefeWilcoxon (c : Schwellen) (m : Metadaten) : Option Grund :=
  match m.wilcoxonP with
  | none => none
  | some v =>
      match v.zahl? with
      | none => some (.notNumeric "wilcoxon_p" v)
      | some x =>
          if c.wilcoxonPMax < x then some (.exceeds "wilcoxon_p" x c.wilcoxonPMax) else none

def pruefeFdr (m : Metadaten) : Option Grund :=
  match m.fdrPassed with
  | none => none
  | some v => if v = .bool true then none else some (.fdrFailed v)

/-- A Sharpe ratio that must clear a floor, at the top or in the block of its layer. -/
def pruefeSharpe (field : String) (floor : ExtRat) : Option Wert → Option Grund
  | none => none
  | some v =>
      match v.zahl? with
      | none => some (.notNumeric field v)
      | some x => if x ≤ floor then some (.notAbove field x floor) else none

def pruefeNetSharpe (c : Schwellen) (m : Metadaten) : Option Grund :=
  pruefeSharpe "net_sharpe" c.netSharpeFloor (m.netSharpe.or m.layer4NetSharpe)

def pruefeDsr (c : Schwellen) (m : Metadaten) : Option Grund :=
  if c.deflatedSharpeGateEnabled then
    pruefeSharpe "deflated_sharpe" c.dsrFloor (m.deflatedSharpe.or m.layer5DeflatedSharpe)
  else none

/-- `evaluate`: the reason for a refusal, or none. -/
def evaluate (c : Schwellen) : Option Metadaten → Option Grund
  | none => if c.strict then some .missingMetadata else none
  | some m =>
      (pruefeValLoss c m).or ((pruefeIc c m).or ((pruefeWilcoxon c m).or ((pruefeFdr m).or
        ((pruefeNetSharpe c m).or (pruefeDsr c m)))))

def passed (c : Schwellen) (m : Option Metadaten) : Bool := (evaluate c m).isNone

/-! ## What passes -/

section

variable {c : Schwellen} {m m' : Metadaten}

/-- A model passes exactly when no check speaks against it. -/
theorem evaluate_passed_iff : passed c (some m) = true ↔
    pruefeValLoss c m = none ∧ pruefeIc c m = none ∧ pruefeWilcoxon c m = none ∧
      pruefeFdr m = none ∧ pruefeNetSharpe c m = none ∧ pruefeDsr c m = none := by
  simp only [passed, evaluate, Option.isNone_iff_eq_none, Option.or_eq_none_iff]

/-- A figure that is not worse, when greater is better: both are absent, or both are
there, and a number for a number. -/
def NichtKleiner : Option Wert → Option Wert → Prop
  | none, none => True
  | some v, some w => ∃ x y, v.zahl? = some x ∧ w.zahl? = some y ∧ x ≤ y
  | _, _ => False

/-- Metadata whose figures are all at least as good, with no field more or less. -/
structure Besser (m m' : Metadaten) : Prop where
  valLoss : NichtKleiner m'.valLoss m.valLoss
  walkforwardIc : NichtKleiner m.walkforwardIc m'.walkforwardIc
  walkforwardIcHonest : NichtKleiner m.walkforwardIcHonest m'.walkforwardIcHonest
  walkforwardIcOos506 : NichtKleiner m.walkforwardIcOos506 m'.walkforwardIcOos506
  wilcoxonP : NichtKleiner m'.wilcoxonP m.wilcoxonP
  fdrPassed : m.fdrPassed = some (.bool true) → m'.fdrPassed = some (.bool true)
  fdrFehlt : m.fdrPassed = none → m'.fdrPassed = none ∨ m'.fdrPassed = some (.bool true)
  netSharpe : NichtKleiner m.netSharpe m'.netSharpe
  layer4NetSharpe : NichtKleiner m.layer4NetSharpe m'.layer4NetSharpe
  deflatedSharpe : NichtKleiner m.deflatedSharpe m'.deflatedSharpe
  layer5DeflatedSharpe : NichtKleiner m.layer5DeflatedSharpe m'.layer5DeflatedSharpe

theorem NichtKleiner.isSome {v w : Option Wert} (h : NichtKleiner v w) :
    v.isSome = w.isSome := by
  cases v <;> cases w <;> first | rfl | exact absurd h id

theorem NichtKleiner.or {v w v' w' : Option Wert} (h : NichtKleiner v w)
    (h' : NichtKleiner v' w') : NichtKleiner (v.or v') (w.or w') := by
  cases v <;> cases w
  · exact h'
  · exact absurd h id
  · exact absurd h id
  · exact h

/-- A greater figure clears the floor too. -/
theorem pruefeSharpe_monoton {field : String} {floor : ExtRat} {v w : Option Wert}
    (h : NichtKleiner v w) (hv : pruefeSharpe field floor v = none) :
    pruefeSharpe field floor w = none := by
  cases v with
  | none =>
      cases w with
      | none => rfl
      | some w => exact absurd h id
  | some v =>
      cases w with
      | none => exact absurd h id
      | some w =>
          obtain ⟨x, y, hx, hy, hle⟩ := h
          simp only [pruefeSharpe, hx, hy] at hv ⊢
          split at hv
          next => cases hv
          next hgt => rw [if_neg fun hyf => hgt (ExtRat.le_trans hle hyf)]

theorem pruefeValLoss_monoton (h : Besser m m') (hm : pruefeValLoss c m = none) :
    pruefeValLoss c m' = none := by
  have hval := h.valLoss
  simp only [pruefeValLoss, h.walkforwardIc.isSome, h.walkforwardIcHonest.isSome,
    h.walkforwardIcOos506.isSome] at hm ⊢
  cases hv : m.valLoss with
  | none =>
      cases hv' : m'.valLoss with
      | none =>
          rw [hv] at hm
          exact hm
      | some v' =>
          rw [hv, hv'] at hval
          exact absurd hval id
  | some v =>
      cases hv' : m'.valLoss with
      | none =>
          rw [hv, hv'] at hval
          exact absurd hval id
      | some v' =>
          rw [hv, hv'] at hval
          obtain ⟨x, y, hx, hy, hle⟩ := hval
          simp only [hv, hy] at hm
          simp only [hx]
          split at hm
          next => cases hm
          next hle' => rw [if_neg fun hlt => hle' (ExtRat.lt_of_lt_of_le hlt hle)]

theorem pruefeWilcoxon_monoton (h : Besser m m') (hm : pruefeWilcoxon c m = none) :
    pruefeWilcoxon c m' = none := by
  have hval := h.wilcoxonP
  rw [pruefeWilcoxon] at hm ⊢
  cases hv : m.wilcoxonP with
  | none =>
      cases hv' : m'.wilcoxonP with
      | none => rfl
      | some v' =>
          rw [hv, hv'] at hval
          exact absurd hval id
  | some v =>
      cases hv' : m'.wilcoxonP with
      | none => rfl
      | some v' =>
          rw [hv, hv'] at hval
          obtain ⟨x, y, hx, hy, hle⟩ := hval
          simp only [hv, hy] at hm
          simp only [hx]
          split at hm
          next => cases hm
          next hle' => rw [if_neg fun hlt => hle' (ExtRat.lt_of_lt_of_le hlt hle)]

/-- The IC that counts is in the same field, and not smaller. -/
theorem wfIc_besser (h : Besser m m') :
    NichtKleiner ((wfIc c m).map Prod.snd) ((wfIc c m').map Prod.snd) := by
  have hmap : ∀ (field : String) (v : Option Wert),
      (v.map fun v => (field, v)).map Prod.snd = v := by
    intro field v
    cases v <;> rfl
  have hor : ∀ a b : Option (String × Wert),
      (a.or b).map Prod.snd = (a.map Prod.snd).or (b.map Prod.snd) := by
    intro a b
    cases a <;> rfl
  rw [wfIc, wfIc]
  simp only [hor, hmap]
  cases c.honestIc with
  | false => exact h.walkforwardIc
  | true =>
      simp only [if_true, hor, hmap]
      exact (h.walkforwardIcHonest.or h.walkforwardIcOos506).or h.walkforwardIc

theorem pruefeIc_monoton (h : Besser m m') (hm : pruefeIc c m = none) :
    pruefeIc c m' = none := by
  have hwf := wfIc_besser (c := c) h
  rw [pruefeIc] at hm ⊢
  cases hv : wfIc c m with
  | none =>
      cases hv' : wfIc c m' with
      | none =>
          rw [hv] at hm
          exact hm
      | some v' =>
          rw [hv, hv'] at hwf
          exact absurd hwf id
  | some v =>
      cases hv' : wfIc c m' with
      | none =>
          rw [hv, hv'] at hwf
          exact absurd hwf id
      | some v' =>
          rw [hv, hv'] at hwf
          obtain ⟨x, y, hx, hy, hle⟩ := hwf
          obtain ⟨field, v⟩ := v
          obtain ⟨field', v'⟩ := v'
          rw [hv] at hm
          simp only at hx hy hm ⊢
          rw [hx] at hm
          rw [hy]
          simp only at hm ⊢
          by_cases hyc : y ≤ c.icMin
          · rw [if_pos (ExtRat.le_trans hle hyc)] at hm
            rw [if_pos hyc]
            cases hd : c.icDiagnosticOnly with
            | true => rfl
            | false =>
                rw [hd] at hm
                cases hm
          · rw [if_neg hyc]

theorem pruefeFdr_monoton (h : Besser m m') (hm : pruefeFdr m = none) : pruefeFdr m' = none := by
  rw [pruefeFdr] at hm ⊢
  cases hv : m.fdrPassed with
  | none =>
      rcases h.fdrFehlt hv with hv' | hv'
      · rw [hv']
      · rw [hv']
        rfl
  | some v =>
      rw [hv] at hm
      simp only at hm
      split at hm
      next heq =>
        rw [h.fdrPassed (by rw [hv, heq])]
        rfl
      next => cases hm

/-- A model that passes still does when its figures get better. -/
theorem evaluate_monoton (h : Besser m m') (hm : passed c (some m) = true) :
    passed c (some m') = true := by
  rw [evaluate_passed_iff] at hm ⊢
  obtain ⟨hval, hic, hwil, hfdr, hnet, hdsr⟩ := hm
  refine ⟨pruefeValLoss_monoton h hval, pruefeIc_monoton h hic, pruefeWilcoxon_monoton h hwil,
    pruefeFdr_monoton h hfdr, pruefeSharpe_monoton (h.netSharpe.or h.layer4NetSharpe) hnet, ?_⟩
  rw [pruefeDsr] at hdsr ⊢
  split
  next hon =>
    rw [if_pos hon] at hdsr
    exact pruefeSharpe_monoton (h.deflatedSharpe.or h.layer5DeflatedSharpe) hdsr
  next => rfl

def desktop : Schwellen where
  strict := true
  allowWalkforwardOnly := true
  honestIc := true
  strictWalkforward := false
  icDiagnosticOnly := false
  deflatedSharpeGateEnabled := false
  valLossMax := .of 5
  icMin := .of 0
  wilcoxonPMax := .of (1 / 20)
  netSharpeFloor := .of 0
  dsrFloor := .of 0

/-- A model with an honest IC and a p-value. -/
def modell (ic p : ℚ) : Metadaten :=
  ⟨none, none, some (.zahl (.of ic)), none, some (.zahl (.of p)), none, none, none, none, none⟩

/-- A greater IC and a smaller p-value. -/
theorem evaluate_monoton_modell : passed desktop (some (modell (1 / 5) (1 / 50))) = true :=
  evaluate_monoton (m := modell (1 / 10) (1 / 25))
    ⟨trivial, trivial, ⟨_, _, rfl, rfl, by decide +kernel⟩, trivial,
      ⟨_, _, rfl, rfl, by decide +kernel⟩,
      fun h => h, fun _ => .inl rfl, trivial, trivial, trivial, trivial⟩ (by decide +kernel)

end

end Modelle
