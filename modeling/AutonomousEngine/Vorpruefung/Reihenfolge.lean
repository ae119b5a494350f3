import AutonomousEngine.Basis.Cuts
import AutonomousEngine.Vorpruefung.Regeln

/-!
# The order of the learned rules

What a rule does to an order does not depend on the rules before it (`wirkung`): it does nothing,
it blocks, or it cuts one of the modifiers.  So the loop over the rules denies the order when
some rule blocks, and else makes all the cuts (`regelSchleife_frei`).

The verdict is the same in every order of the rules.  A rule that increases the size and one that
reduces it compare with the running value, and the later one prevails: in the order reduce,
increase the scaler ends at the value of the second rule.  So a modifier is the same in every
order exactly when no rule raises it above the value to which another one lowers it.
-/

namespace Vorpruefung

open Basis

/-- What a rule does to an order. -/
inductive Wirkung where
  | nichts
  | sperrt (grund : String)
  | size (c : Cut ExtRat)
  | sl (c : Cut ExtRat)

namespace Wirkung

def grund : Wirkung → Option String
  | .sperrt grund => some grund
  | _ => none

def sizeCut : Wirkung → Cut ExtRat
  | .size c => c
  | _ => .keep

def slCut : Wirkung → Cut ExtRat
  | .sl c => c
  | _ => .keep

def apply (w : Wirkung) (mods : Mods) : Mods :=
  ⟨w.sizeCut.applyFloat mods.sizeScaler, w.slCut.applyFloat mods.slMultiplier⟩

@[simp] theorem apply_nichts (mods : Mods) : apply .nichts mods = mods := rfl

@[simp] theorem apply_sperrt (grund : String) (mods : Mods) : apply (.sperrt grund) mods = mods :=
  rfl

theorem sizeCut_eq_raise {w : Wirkung} {v : ExtRat} :
    w.sizeCut = .raise v ↔ w = .size (.raise v) := by
  cases w <;> simp [sizeCut]

theorem sizeCut_eq_lower {w : Wirkung} {v : ExtRat} :
    w.sizeCut = .lower v ↔ w = .size (.lower v) := by
  cases w <;> simp [sizeCut]

theorem slCut_eq_raise {w : Wirkung} {v : ExtRat} : w.slCut = .raise v ↔ w = .sl (.raise v) := by
  cases w <;> simp [slCut]

theorem slCut_eq_lower {w : Wirkung} {v : ExtRat} : w.slCut = .lower v ↔ w = .sl (.lower v) := by
  cases w <;> simp [slCut]

end Wirkung

variable (P : Python)

/-- What the action of a rule does; nothing when it raises. -/
def aktionswirkung (rule : Woerterbuch) : Wirkung :=
  if (status rule).ist "probation" then .nichts
  else if (action rule).ist "block_trade" then
    .sperrt ("Blocked by AI Rule: " ++ P.str ((dictGet "reason" rule).getD .none))
  else if (action rule).ist "reduce_size" then
    ((wertVon P rule (1 / 2)).map fun v => .size (.lower v)).getD .nichts
  else if (action rule).ist "tighten_sl" then
    ((wertVon P rule (3 / 2)).map fun v => .sl (.lower v)).getD .nichts
  else if (action rule).ist "increase_size" then
    ((wertVon P rule (3 / 2)).map fun v => .size (.raise v)).getD .nichts
  else if (action rule).ist "widen_sl" then
    ((wertVon P rule 3).map fun v => .sl (.raise v)).getD .nichts
  else .nichts

/-- What a rule does where it is checked against `l`. -/
def wirkung (l : Lage) (rule : Woerterbuch) : Wirkung :=
  if (action rule).ist "proactive_signal" then .nichts
  else if regelPasst P (trigger rule) l = some true then aktionswirkung P rule
  else .nichts

variable {P} {l : Lage} {rule : Woerterbuch} {rules : List Woerterbuch} {mods : Mods}

/-! ## The loop -/

theorem getD_wirkung_eq {w : ExtRat → Wirkung} {f : ExtRat → Mods} (x : Option ExtRat)
    (h : ∀ v, (w v).grund = none ∧ (w v).apply mods = f v) :
    (x.map fun v => ((none : Option String), f v)).getD (none, mods) =
      (((x.map w).getD .nichts).grund, ((x.map w).getD .nichts).apply mods) := by
  cases x with
  | none => rfl
  | some v =>
      obtain ⟨hgrund, happly⟩ := h v
      show (none, f v) = ((w v).grund, (w v).apply mods)
      rw [hgrund, happly]

theorem apply_size_eq {c : Cut ExtRat} {v : ExtRat} {p : Prop} [Decidable p]
    (h : c.applyFloat mods.sizeScaler = if p then v else mods.sizeScaler) :
    (Wirkung.size c).apply mods = if p then { mods with sizeScaler := v } else mods := by
  show (⟨c.applyFloat mods.sizeScaler, mods.slMultiplier⟩ : Mods) = _
  rw [h]
  split <;> rfl

theorem apply_sl_eq {c : Cut ExtRat} {v : ExtRat} {p : Prop} [Decidable p]
    (h : c.applyFloat mods.slMultiplier = if p then v else mods.slMultiplier) :
    (Wirkung.sl c).apply mods = if p then { mods with slMultiplier := v } else mods := by
  show (⟨mods.sizeScaler, c.applyFloat mods.slMultiplier⟩ : Mods) = _
  rw [h]
  split <;> rfl

theorem regelAnwenden_eq :
    (regelAnwenden P rule (action rule) (status rule) mods).getD (none, mods) =
      ((aktionswirkung P rule).grund, (aktionswirkung P rule).apply mods) := by
  unfold regelAnwenden aktionswirkung
  split_ifs
  · rfl
  · rfl
  · exact getD_wirkung_eq _ fun v => ⟨rfl, apply_size_eq rfl⟩
  · exact getD_wirkung_eq _ fun v => ⟨rfl, apply_sl_eq rfl⟩
  · exact getD_wirkung_eq _ fun v => ⟨rfl, apply_size_eq rfl⟩
  · exact getD_wirkung_eq _ fun v => ⟨rfl, apply_sl_eq rfl⟩
  · rfl

/-- What a rule does depends on the modifiers only through its cut. -/
theorem regelSchritt_eq :
    regelSchritt P l rule mods = ((wirkung P l rule).grund, (wirkung P l rule).apply mods) := by
  unfold regelSchritt wirkung
  split_ifs with hsignal hpasst
  · rfl
  · rw [hpasst]
    exact regelAnwenden_eq
  · cases h : regelPasst P (trigger rule) l with
    | none => rfl
    | some b =>
        cases b with
        | true => exact absurd h hpasst
        | false => rfl

variable (P l) in
def Frei (rules : List Woerterbuch) : Prop := ∀ r ∈ rules, (wirkung P l r).grund = none

theorem frei_cons : Frei P l (rule :: rules) ↔ (wirkung P l rule).grund = none ∧ Frei P l rules :=
  List.forall_mem_cons

variable (P l) in
def modsNach (mods : Mods) (rules : List Woerterbuch) : Mods :=
  ⟨runFloatCuts (fun r => (wirkung P l r).sizeCut) mods.sizeScaler rules,
    runFloatCuts (fun r => (wirkung P l r).slCut) mods.slMultiplier rules⟩

theorem modsNach_cons :
    modsNach P l mods (rule :: rules) = modsNach P l ((wirkung P l rule).apply mods) rules := rfl

theorem regelSchleife_frei (h : Frei P l rules) :
    regelSchleife P l rules mods = ⟨true, "Approved", some (modsNach P l mods rules)⟩ := by
  induction rules generalizing mods with
  | nil => rfl
  | cons rule rules ih =>
      obtain ⟨hgrund, hrest⟩ := frei_cons.mp h
      rw [regelSchleife, regelSchritt_eq, hgrund, modsNach_cons]
      exact ih hrest

theorem regelSchleife_gesperrt (mods : Mods) (h : ¬Frei P l rules) :
    ∃ grund, regelSchleife P l rules mods = ⟨false, grund, none⟩ := by
  induction rules generalizing mods with
  | nil => exact absurd (fun r hr => absurd hr List.not_mem_nil) h
  | cons rule rules ih =>
      rw [regelSchleife, regelSchritt_eq]
      cases hgrund : (wirkung P l rule).grund with
      | some grund => exact ⟨grund, rfl⟩
      | none => exact ih _ fun hrest => h (frei_cons.mpr ⟨hgrund, hrest⟩)

theorem frei_perm {rules' : List Woerterbuch} (h : rules'.Perm rules) :
    Frei P l rules' ↔ Frei P l rules := by
  simp only [Frei, h.mem_iff]

theorem frei_insert {davor danach : List Woerterbuch} (h : (wirkung P l rule).grund = none) :
    Frei P l (davor ++ rule :: danach) ↔ Frei P l (davor ++ danach) := by
  simp only [Frei, List.forall_mem_append, List.forall_mem_cons, h, true_and]

/-! ## The order with the rules -/

variable (P) in
/-- What the rules are checked against, where the order comes to them. -/
def regelLage (halted : Bool) (side : String) (marketData : Woerterbuch) : Option Lage :=
  if halted then none
  else
    (vorpruefungVix P side marketData).bind fun (abbruch, loopVix) =>
      if abbruch = none then lageVon side marketData loopVix else none

variable {halted : Bool} {side : String} {marketData : Woerterbuch} {current : ExtRat}
  {rules' : List Woerterbuch}

theorem vorpruefungVix_mods {abbruch : Ergebnis} {loopVix : ExtRat}
    (h : vorpruefungVix P side marketData = some (some abbruch, loopVix)) :
    abbruch.mods = none := by
  obtain ⟨⟨vix, confirmed⟩, -, hp⟩ := Option.map_eq_some_iff.mp h
  have hcases : (if confirmed = false ∧ P.lower side = "buy" then
      (some ⟨false, "Blocked (fail-closed, §5.6): VIX unconfirmed — new buys blocked", none⟩, 0)
    else (none, if confirmed then vix else 0) : Option Ergebnis × ExtRat) =
      (some abbruch, loopVix) := hp
  split_ifs at hcases <;> cases hcases
  rfl

theorem evaluateNewTrade_of_lage (h : regelLage P halted side marketData = some l) :
    evaluateNewTrade P halted side marketData current rules =
      some (regelSchleife P l rules ⟨.of 1, current⟩) := by
  cases halted with
  | true => cases h
  | false =>
      have h' : (vorpruefungVix P side marketData).bind (fun p =>
          if p.1 = none then lageVon side marketData p.2 else none) = some l := h
      obtain ⟨⟨abbruch, loopVix⟩, hvix, hl⟩ := Option.bind_eq_some_iff.mp h'
      cases abbruch with
      | some abbruch => cases hl
      | none =>
          have hlage : lageVon side marketData loopVix = some l := hl
          simp [evaluateNewTrade, vorpruefungHalt, hvix, hlage]

variable (current) in
/-- An order that does not come to the rules has no modifiers, and no rule changes that. -/
theorem evaluateNewTrade_of_none (h : regelLage P halted side marketData = none) :
    ∃ e, (∀ rules, evaluateNewTrade P halted side marketData current rules = e) ∧
      e.bind Ergebnis.mods = none := by
  cases halted with
  | true => exact ⟨_, fun _ => rfl, rfl⟩
  | false =>
      have h' : (vorpruefungVix P side marketData).bind (fun p =>
          if p.1 = none then lageVon side marketData p.2 else none) = none := h
      cases hvix : vorpruefungVix P side marketData with
      | none => exact ⟨none, fun _ => by simp [evaluateNewTrade, vorpruefungHalt, hvix], rfl⟩
      | some p =>
          obtain ⟨abbruch, loopVix⟩ := p
          cases abbruch with
          | some abbruch =>
              refine ⟨some abbruch, fun _ => ?_, ?_⟩
              · simp [evaluateNewTrade, vorpruefungHalt, hvix]
              · have hmods := vorpruefungVix_mods hvix
                exact hmods
          | none =>
              have hlage : lageVon side marketData loopVix = none := by
                simpa [hvix] using h'
              exact ⟨none, fun _ => by simp [evaluateNewTrade, vorpruefungHalt, hvix, hlage], rfl⟩

/-- Whether an order is allowed; nothing when the evaluation raises. -/
def erlaubt (e : Option Ergebnis) : Option Bool := e.map Ergebnis.allowed

def modsVon (e : Option Ergebnis) : Option Mods := e.bind Ergebnis.mods

instance : Decidable (Frei P l rules) :=
  inferInstanceAs (Decidable (∀ r ∈ rules, (wirkung P l r).grund = none))

theorem modsVon_eq (h : regelLage P halted side marketData = some l) :
    modsVon (evaluateNewTrade P halted side marketData current rules) =
      if Frei P l rules then some (modsNach P l ⟨.of 1, current⟩ rules) else none := by
  rw [evaluateNewTrade_of_lage h]
  split_ifs with hfrei
  · rw [regelSchleife_frei hfrei]
    rfl
  · obtain ⟨grund, hgrund⟩ := regelSchleife_gesperrt ⟨.of 1, current⟩ hfrei
    rw [hgrund]
    rfl

theorem erlaubt_eq (h : regelLage P halted side marketData = some l) :
    erlaubt (evaluateNewTrade P halted side marketData current rules) =
      some (decide (Frei P l rules)) := by
  rw [evaluateNewTrade_of_lage h]
  by_cases hfrei : Frei P l rules
  · rw [regelSchleife_frei hfrei, decide_eq_true hfrei]
    rfl
  · obtain ⟨grund, hgrund⟩ := regelSchleife_gesperrt ⟨.of 1, current⟩ hfrei
    rw [hgrund, decide_eq_false hfrei]
    rfl

/-- The verdict depends only on whether some rule blocks the order. -/
theorem erlaubt_congr (h : ∀ l, Frei P l rules' ↔ Frei P l rules) :
    erlaubt (evaluateNewTrade P halted side marketData current rules') =
      erlaubt (evaluateNewTrade P halted side marketData current rules) := by
  cases hlage : regelLage P halted side marketData with
  | none =>
      obtain ⟨e, he, -⟩ := evaluateNewTrade_of_none current hlage
      rw [he, he]
  | some l => rw [erlaubt_eq hlage, erlaubt_eq hlage, decide_eq_decide.mpr (h l)]

/-- A modifier is the same in every order exactly when its cuts are. -/
theorem modsVon_perm_iff (f : Mods → ExtRat) (step : Lage → Woerterbuch → Cut ExtRat)
    {x : ExtRat}
    (hf : ∀ l rules, f (modsNach P l ⟨.of 1, current⟩ rules) = runFloatCuts (step l) x rules) :
    (∀ rules', rules'.Perm rules →
      (modsVon (evaluateNewTrade P halted side marketData current rules')).map f =
        (modsVon (evaluateNewTrade P halted side marketData current rules)).map f) ↔
    ∀ l, regelLage P halted side marketData = some l → Frei P l rules →
      x = .nan ∨ ∀ r ∈ rules, ∀ r' ∈ rules, ∀ u v, step l r = .raise u → step l r' = .lower v →
        ¬v < u := by
  cases hlage : regelLage P halted side marketData with
  | none =>
      obtain ⟨e, he, -⟩ := evaluateNewTrade_of_none current hlage
      refine iff_of_true (fun rules' _ => ?_) (fun l hl => absurd hl (Option.some_ne_none l).symm)
      rw [he, he]
  | some l =>
      simp only [Option.some.injEq, forall_eq', ← runFloatCuts_perm_iff]
      by_cases hfrei : Frei P l rules
      · have hperm : ∀ rules', rules'.Perm rules →
            ((modsVon (evaluateNewTrade P halted side marketData current rules')).map f =
              (modsVon (evaluateNewTrade P halted side marketData current rules)).map f ↔
            runFloatCuts (step l) x rules' = runFloatCuts (step l) x rules) := by
          intro rules' h
          rw [modsVon_eq hlage, modsVon_eq hlage, if_pos hfrei, if_pos ((frei_perm h).mpr hfrei),
            Option.map_some, Option.map_some, Option.some_inj, hf, hf]
        exact ⟨fun h _ rules' hr => (hperm rules' hr).mp (h rules' hr),
          fun h rules' hr => (hperm rules' hr).mpr (h hfrei rules' hr)⟩
      · refine iff_of_true (fun rules' h => ?_) (fun h => absurd h hfrei)
        rw [modsVon_eq hlage, modsVon_eq hlage, if_neg hfrei, if_neg (mt (frei_perm h).mp hfrei)]

/-- A rule whose action lowers a modifier. -/
def Verkleinert (rule : Woerterbuch) : Prop :=
  (action rule).ist "reduce_size" ∨ (action rule).ist "tighten_sl"

theorem ist_injective {w : Wert} {s t : String} (hs : w.ist s) (ht : w.ist t) : s = t := by
  cases w with
  | text r => exact (of_decide_eq_true hs).symm.trans (of_decide_eq_true ht)
  | _ => cases hs

/-- Such a rule does nothing or cuts from above. -/
theorem wirkung_of_verkleinert (h : Verkleinert rule) (l : Lage) : wirkung P l rule = .nichts ∨
    ∃ v, wirkung P l rule = .size (.lower v) ∨ wirkung P l rule = .sl (.lower v) := by
  unfold wirkung aktionswirkung
  split_ifs with hsignal hpasst hprobation hblock hreduce htighten hincrease hwiden
  · exact .inl rfl
  · exact .inl rfl
  · rcases h with h | h <;> exact absurd (ist_injective hblock h) (by decide)
  · cases wertVon P rule (1 / 2) with
    | none => exact .inl rfl
    | some v => exact .inr ⟨v, .inl rfl⟩
  · cases wertVon P rule (3 / 2) with
    | none => exact .inl rfl
    | some v => exact .inr ⟨v, .inr rfl⟩
  · rcases h with h | h <;> exact absurd (ist_injective hincrease h) (by decide)
  · rcases h with h | h <;> exact absurd (ist_injective hwiden h) (by decide)
  · exact .inl rfl
  · exact .inl rfl

section Verkleinert

variable {davor danach : List Woerterbuch} (h : Verkleinert rule)
include h

theorem grund_of_verkleinert : (wirkung P l rule).grund = none := by
  rcases wirkung_of_verkleinert (P := P) h l with hw | ⟨v, hw | hw⟩ <;> rw [hw] <;> rfl

theorem sizeCut_of_verkleinert (u : ExtRat) : (wirkung P l rule).sizeCut ≠ .raise u := by
  rcases wirkung_of_verkleinert (P := P) h l with hw | ⟨v, hw | hw⟩ <;> simp [hw, Wirkung.sizeCut]

theorem slCut_of_verkleinert (u : ExtRat) : (wirkung P l rule).slCut ≠ .raise u := by
  rcases wirkung_of_verkleinert (P := P) h l with hw | ⟨v, hw | hw⟩ <;> simp [hw, Wirkung.slCut]

theorem erlaubt_insert :
    erlaubt (evaluateNewTrade P halted side marketData current (davor ++ rule :: danach)) =
      erlaubt (evaluateNewTrade P halted side marketData current (davor ++ danach)) :=
  erlaubt_congr fun _ => frei_insert (grund_of_verkleinert h)

theorem modsVon_insert {m m' : Mods}
    (hm : modsVon (evaluateNewTrade P halted side marketData current (davor ++ danach)) = some m)
    (hm' : modsVon (evaluateNewTrade P halted side marketData current
      (davor ++ rule :: danach)) = some m') :
    ¬m.sizeScaler < m'.sizeScaler ∧ ¬m.slMultiplier < m'.slMultiplier := by
  cases hlage : regelLage P halted side marketData with
  | none =>
      obtain ⟨e, he, hnone⟩ := evaluateNewTrade_of_none current hlage
      rw [he] at hm
      exact absurd (hnone.symm.trans hm) (Option.some_ne_none m).symm
  | some l =>
      rw [modsVon_eq hlage] at hm hm'
      obtain ⟨-, hm⟩ := Option.ite_none_right_eq_some.mp hm
      obtain ⟨-, hm'⟩ := Option.ite_none_right_eq_some.mp hm'
      rw [← Option.some_inj.mp hm, ← Option.some_inj.mp hm']
      exact ⟨not_runFloatCuts_lt_insert (sizeCut_of_verkleinert h),
        not_runFloatCuts_lt_insert (slCut_of_verkleinert h)⟩

end Verkleinert

/-- The verdict does not depend on the order of the rules.  A modifier does not depend on it
exactly when no rule raises it above the value to which another rule lowers it, and one more rule
that lowers a modifier raises none. -/
theorem evaluateNewTrade_reihenfolge (P : Python) (halted : Bool) (side : String)
    (marketData : Woerterbuch) (current : ExtRat) (rules : List Woerterbuch) :
    (∀ rules', rules'.Perm rules →
      erlaubt (evaluateNewTrade P halted side marketData current rules') =
        erlaubt (evaluateNewTrade P halted side marketData current rules)) ∧
    ((∀ rules', rules'.Perm rules →
      (modsVon (evaluateNewTrade P halted side marketData current rules')).map Mods.sizeScaler =
        (modsVon (evaluateNewTrade P halted side marketData current rules)).map Mods.sizeScaler) ↔
      ∀ l, regelLage P halted side marketData = some l → Frei P l rules →
        ∀ r ∈ rules, ∀ r' ∈ rules, ∀ u v, wirkung P l r = .size (.raise u) →
          wirkung P l r' = .size (.lower v) → ¬v < u) ∧
    ((∀ rules', rules'.Perm rules →
      (modsVon (evaluateNewTrade P halted side marketData current rules')).map Mods.slMultiplier =
        (modsVon (evaluateNewTrade P halted side marketData current rules)).map
          Mods.slMultiplier) ↔
      ∀ l, regelLage P halted side marketData = some l → Frei P l rules → current = .nan ∨
        ∀ r ∈ rules, ∀ r' ∈ rules, ∀ u v, wirkung P l r = .sl (.raise u) →
          wirkung P l r' = .sl (.lower v) → ¬v < u) ∧
    ∀ rule davor danach, Verkleinert rule → davor ++ danach = rules →
      erlaubt (evaluateNewTrade P halted side marketData current (davor ++ rule :: danach)) =
        erlaubt (evaluateNewTrade P halted side marketData current rules) ∧
      ∀ m ∈ modsVon (evaluateNewTrade P halted side marketData current rules),
        ∀ m' ∈ modsVon (evaluateNewTrade P halted side marketData current
          (davor ++ rule :: danach)),
          ¬m.sizeScaler < m'.sizeScaler ∧ ¬m.slMultiplier < m'.slMultiplier := by
  refine ⟨fun rules' h => erlaubt_congr fun l => frei_perm h, ?_, ?_, ?_⟩
  · rw [modsVon_perm_iff Mods.sizeScaler (fun l r => (wirkung P l r).sizeCut) fun _ _ => rfl]
    simp only [Wirkung.sizeCut_eq_raise, Wirkung.sizeCut_eq_lower, reduceCtorEq, false_or]
  · rw [modsVon_perm_iff Mods.slMultiplier (fun l r => (wirkung P l r).slCut) fun _ _ => rfl]
    simp only [Wirkung.slCut_eq_raise, Wirkung.slCut_eq_lower]
  · rintro rule davor danach h rfl
    exact ⟨erlaubt_insert h, fun m hm m' hm' => modsVon_insert h hm hm'⟩

def nurZahlen : Python where
  float := fun _ => none
  floatGanz := fun n => some (.of n)
  lower := fun s => s
  isIn := fun _ _ => none
  str := fun _ => ""

def senkenAufHalb : Woerterbuch := [("action", .text "reduce_size"), ("value", .zahl (.of (1 / 2)))]

def hebenAufVierFuenftel : Woerterbuch :=
  [("action", .text "increase_size"), ("value", .zahl (.of (4 / 5)))]

/-- Reduced to a half and then increased to four fifths, the scaler is four fifths; in the other
order it is a half. -/
theorem not_reihenfolge_senken_heben :
    ¬∀ rules', rules'.Perm [senkenAufHalb, hebenAufVierFuenftel] →
      (modsVon (evaluateNewTrade nurZahlen false "buy" [("vix", .zahl (.of 15))] (.of 2)
        rules')).map Mods.sizeScaler =
      (modsVon (evaluateNewTrade nurZahlen false "buy" [("vix", .zahl (.of 15))] (.of 2)
        [senkenAufHalb, hebenAufVierFuenftel])).map Mods.sizeScaler := by
  intro h
  have hvier : evaluateNewTrade nurZahlen false "buy" [("vix", .zahl (.of 15))] (.of 2)
      [senkenAufHalb, hebenAufVierFuenftel] =
        some ⟨true, "Approved", some ⟨.of (4 / 5), .of 2⟩⟩ := by decide +kernel
  have hhalb : evaluateNewTrade nurZahlen false "buy" [("vix", .zahl (.of 15))] (.of 2)
      [hebenAufVierFuenftel, senkenAufHalb] =
        some ⟨true, "Approved", some ⟨.of (1 / 2), .of 2⟩⟩ := by decide +kernel
  have hsize := h [hebenAufVierFuenftel, senkenAufHalb] (List.Perm.swap _ _ _)
  rw [hvier, hhalb] at hsize
  exact absurd hsize (by decide +kernel)

end Vorpruefung
