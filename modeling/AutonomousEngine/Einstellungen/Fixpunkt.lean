import AutonomousEngine.Einstellungen.Kanon
import Mathlib.Algebra.Order.Group.MinMax

/-!
# When settings stay as they were confirmed

The texts of an update go into the configuration, and the next update without a value of
its own starts from them.  It gives the same texts unless one of three rules meets a number
that rounding moved over another: the weights, the escalation below the cut, the watch
above the cut (`haltbar_iff`).  All other settings stay.
-/

namespace Einstellungen

open Basis

variable {P : Python}

/-! ## A configuration that holds a state -/

/-- A configuration with exactly the values of a state, each as its text or as the value that
the text writes, and with the places and the hard stop of another configuration. -/
structure Haelt (cfg : Option Konfig) (res : List (String × String)) (cfg' : Konfig) : Prop where
  werte : ∀ s ∈ register, ∃ t, dictGet s.key res = some t ∧
    (cfg'.attr s.key = some (.text t) ∨ cfg'.attr s.key = some (wertVon s t).roh)
  plaetze : cfg'.fullUniverseMaxPositions = cfg.bind Konfig.fullUniverseMaxPositions
  hardStop : cfg'.hardStopLossPct = cfg.bind Konfig.hardStopLossPct

/-- The configuration that holds the texts of a state. -/
def inhalt (cfg : Option Konfig) (res : List (String × String)) : Konfig where
  attr key := (dictGet key res).map .text
  fullUniverseMaxPositions := cfg.bind Konfig.fullUniverseMaxPositions
  hardStopLossPct := cfg.bind Konfig.hardStopLossPct

/-- What the settings owe after an update: a configuration that holds them is not changed by an
update without values, which has nothing to describe; a canonical text stays as it is; and
the described changes make the new state of the old one. -/
structure Haltbar (P : Python) (cfg : Option Konfig) (res : List (String × String)) : Prop where
  fixpunkt : ∀ cfg', Haelt cfg res cfg' → applyUpdates P (some cfg') [] = .ok res ∧
    describeChanges (currentSettings P (some cfg')) res = []
  kanonisch : ∀ s ∈ register, ∀ v,
    Einstellungen.kanonisch P s (.text (Einstellungen.kanonisch P s v)) =
      Einstellungen.kanonisch P s v
  anwenden : anwenden (describeChanges (currentSettings P cfg) res) (currentSettings P cfg) = res

/-- What a request may ask for so that the settings stay, with `slot` the double of one over the
places and `unten` the lowest cut, the double a fifth above the hard stop.  `minimum`, `cut`,
`escalation` and `watch` are the numbers asked for, and `maximum` is the smaller one of the two
largest weights. -/
structure Bestaendig (slot hard unten minimum maximum cut escalation watch : ℚ) : Prop where
  gewichte : if maximum ≤ min minimum slot then
      roundTo 2 (nearest (maximum - nearest (1 / 100))) < roundTo 2 maximum
    else roundTo 2 (min minimum slot) < roundTo 2 maximum ∨ slot < nearest (roundTo 2 maximum)
  eskalation : cut ≤ unten ∨ -2 < roundTo 1 cut ∨
    roundTo 1 (nearest (cut - nearest (1 / 10))) < roundTo 1 cut ∨
    roundTo 1 escalation < roundTo 1 cut ∨
    roundTo 1 cut ≤ roundTo 1 (nearest (unten - nearest (1 / 10))) ∨
    roundTo 1 cut ≤ roundTo 1 (nearest (-hard + nearest (1 / 10)))
  watch : -1 < max cut unten ∨
    roundTo 1 (max cut unten) < roundTo 1 (nearest (max cut unten + nearest (1 / 10))) ∨
    roundTo 1 (max cut unten) < roundTo 1 watch

/-! ## Values that are read again -/

/-- The values that are read from the texts of others. -/
def Gelesen (P : Python) (vals vals' : Werte) : Prop :=
  ∀ s ∈ register, vals' s.key = gerundet s (parse P s (vals s.key).roh)

section

variable {vals vals' : Werte} {s : Setting}

theorem Gelesen.float (h : Gelesen P vals vals') (hs : s ∈ register) (hkind : s.kind = .float)
    (hzahl : (vals s.key).istZahl = true) :
    (vals' s.key).float = s.schreibe (vals s.key).double := by
  rw [h s hs]
  simp only [parse, hkind, parseFloat, Wert.number_roh P hzahl, gerundet]
  rfl

theorem Gelesen.schreibe (h : Gelesen P vals vals') (hs : s ∈ register) (hkind : s.kind = .float)
    {q : ℚ} (hq : vals s.key = .zahl q) : (vals' s.key).float = s.schreibe q := by
  rw [h.float hs hkind (by rw [hq, Wert.istZahl]), hq]
  rfl

/-- The number of a text decides the text. -/
theorem canonicalText_zahl (hs : s ∈ register) (hkind : s.kind = .float) {q q' : ℚ} :
    canonicalText P s (.zahl q) = canonicalText P s (.zahl q') ↔ s.schreibe q = s.schreibe q' := by
  have hparse (x : ℚ) : parse P s (Wert.zahl x).roh = .zahl (s.klemme x) := by
    simp only [parse, hkind, parseFloat, Wert.roh, Roh.number]
  have htext (x : ℚ) : canonicalText P s (.zahl x) = textVon s (.zahl (s.schreibe x)) := by
    have hpass := parse_passend P (register_stimmt s hs) (Wert.zahl x).roh
    rw [canonicalText_eq, kanonisch, ← hpass.textVon_gerundet hs, hparse]
    rfl
  constructor
  · intro h
    have hlies := congrArg lies h
    rw [lies_canonicalText_float P hkind rfl, lies_canonicalText_float P hkind rfl] at hlies
    exact Option.some.inj hlies
  · intro h
    rw [htext, htext, h]

/-- A value that the rules leave alone keeps its text. -/
theorem Gelesen.canonicalText (hP : P.Gesetze) (h : Gelesen P vals vals') (hs : s ∈ register) :
    Einstellungen.canonicalText P s (vals' s.key) =
      Einstellungen.canonicalText P s (vals s.key) := by
  have hstimmt := register_stimmt s hs
  have hpass := parse_passend P hstimmt (vals s.key).roh
  rw [canonicalText_eq, canonicalText_eq, kanonisch, kanonisch, h s hs,
    (hpass.gerundet hstimmt).parse_roh hP hs, hpass.textVon_gerundet hs]

end

/-- What is parsed of a configuration that holds the texts. -/
theorem Haelt.gelesen (hP : P.Gesetze) {cfg : Option Konfig} {vals : Werte} {cfg' : Konfig}
    (h : Haelt cfg (stand P vals) cfg') : Gelesen P vals (eingaben P (some cfg') []) := by
  intro s hs
  have hstimmt := register_stimmt s hs
  have hpass := parse_passend P hstimmt (vals s.key).roh
  obtain ⟨t, ht, hattr⟩ := h.werte s hs
  rw [stand, dictGet_register _ hs] at ht
  obtain rfl : textVon s (parse P s (vals s.key).roh) = t := Option.some.inj ht
  rw [eingaben_of_mem P _ _ hs, eingabe]
  rcases hattr with hattr | hattr
  · have hread := hpass.parse_textVon hP hs
    simpa [dictGet, hattr] using hread
  · have hread := (hpass.gerundet hstimmt).parse_roh hP hs
    rw [← hpass.wertVon_textVon hstimmt] at hread ⊢
    simpa [dictGet, hattr] using hread

theorem inhalt_haelt (cfg : Option Konfig) (vals : Werte) :
    Haelt cfg (stand P vals) (inhalt cfg (stand P vals)) where
  werte := by
    intro s hs
    have hget : dictGet s.key (stand P vals) = some (canonicalText P s (vals s.key)) :=
      dictGet_register _ hs
    refine ⟨_, hget, .inl ?_⟩
    exact congrArg (Option.map Roh.text) hget
  plaetze := rfl
  hardStop := rfl

theorem Haelt.positionen_eq {cfg : Option Konfig} {res : List (String × String)} {cfg' : Konfig}
    (h : Haelt cfg res cfg') : positionen (some cfg') = positionen cfg := by
  rw [positionen, positionen, Option.bind_some, h.plaetze]

theorem Haelt.hardStop_eq {cfg : Option Konfig} {res : List (String × String)} {cfg' : Konfig}
    (h : Haelt cfg res cfg') : Einstellungen.hardStop (some cfg') = Einstellungen.hardStop cfg := by
  rw [Einstellungen.hardStop, Einstellungen.hardStop, Option.bind_some, h.hardStop]

/-! ## The rules on numbers that were written -/

/-- A step between a bound `d` and a moving bound is kept under a new moving bound `v` exactly
when its number or the old bound is written no higher than the two new bounds. -/
theorem round_step_iff {f : ℚ → ℚ} (hf : Monotone f) (hff : ∀ x, f (f x) = f x) {x u v d : ℚ} :
    f (max (min (f (max (min x u) d)) v) d) = f (max (min x u) d) ↔
      f x ≤ f (max v d) ∨ f u ≤ f (max v d) := by
  rw [hf.map_max, hf.map_min, hff, hf.map_max, hf.map_min, hf.map_max, ← min_le_iff]
  constructor
  · intro h
    have hle : min (f x) (f u) ≤ max (min (max (min (f x) (f u)) (f d)) (f v)) (f d) :=
      (le_max_left _ _).trans_eq h.symm
    exact hle.trans (max_le_max_right _ (min_le_right _ _))
  · intro h
    rw [max_min_distrib_right, max_assoc, max_self, min_eq_left (max_le h (le_max_right _ _))]

/-- A lower bound that moves to `v` keeps the number unless it is written higher. -/
theorem round_lower_iff {f : ℚ → ℚ} (hf : Monotone f) (hff : ∀ x, f (f x) = f x) {x u v : ℚ} :
    f (max (f (max x u)) v) = f (max x u) ↔ f v ≤ f x ∨ f v ≤ f u := by
  rw [hf.map_max, hff, max_eq_left_iff, hf.map_max, le_max_iff]

theorem lossCut_zahlig : lossCut.Zahlig :=
  lossCut.zahlig_of_stimmt (register_stimmt _ lossCut_mem) rfl

theorem lossEscalation_zahlig : lossEscalation.Zahlig :=
  lossEscalation.zahlig_of_stimmt (register_stimmt _ lossEscalation_mem) rfl

theorem lossWatch_zahlig : lossWatch.Zahlig :=
  lossWatch.zahlig_of_stimmt (register_stimmt _ lossWatch_mem) rfl

theorem minPosition_zahlig : minPosition.Zahlig :=
  minPosition.zahlig_of_stimmt (register_stimmt _ minPosition_mem) rfl

theorem maxPosition_zahlig : maxPosition.Zahlig :=
  maxPosition.zahlig_of_stimmt (register_stimmt _ maxPosition_mem) rfl

theorem stopLoss_zahlig : stopLoss.Zahlig :=
  stopLoss.zahlig_of_stimmt (register_stimmt _ stopLoss_mem) rfl

section

variable {x y : ℚ}

theorem stufe_escalation (x : ℚ) :
    lossEscalation.stufe x = max (-79 / 10) (min (-2) (roundTo 1 x)) := by
  have hlow : roundTo 1 (nearest (-79 / 10)) = -79 / 10 :=
    roundTo_nearest (n := 3) (k := -79) (by norm_num) (by norm_num) (by norm_num)
  have hhigh : roundTo 1 (nearest (-2)) = -2 :=
    roundTo_nearest (n := 3) (k := -20) (by norm_num) (by norm_num) (by norm_num)
  have heq : lossEscalation.stufe x =
      roundTo 1 (max (nearest (-79 / 10)) (min (nearest (-2)) x)) := rfl
  rw [heq, roundTo_max, roundTo_min, hlow, hhigh]

theorem stufe_watch (x : ℚ) :
    lossWatch.stufe x = max (-79 / 10) (min (-5 / 10) (roundTo 1 x)) := by
  have hlow : roundTo 1 (nearest (-79 / 10)) = -79 / 10 :=
    roundTo_nearest (n := 3) (k := -79) (by norm_num) (by norm_num) (by norm_num)
  have hhigh : roundTo 1 (nearest (-5 / 10)) = -5 / 10 :=
    roundTo_nearest (n := 3) (k := -5) (by norm_num) (by norm_num) (by norm_num)
  have heq : lossWatch.stufe x =
      roundTo 1 (max (nearest (-79 / 10)) (min (nearest (-5 / 10)) x)) := rfl
  rw [heq, roundTo_max, roundTo_min, hlow, hhigh]

/-- What is written a tenth or more below another number. -/
theorem le_sub_of_roundTo_lt (h : roundTo 1 x < roundTo 1 y) :
    roundTo 1 x ≤ roundTo 1 y - 1 / 10 := by
  have hgap := roundTo_add_le h
  rw [pow_one] at hgap
  linarith

/-- A tenth below and above a number that was written, in doubles. -/
theorem rund_zehntel (h : -10 ≤ x) (h' : x ≤ 10) :
    roundTo 1 (nearest (nearest (roundTo 1 x) - nearest (1 / 10))) = roundTo 1 x - 1 / 10 ∧
      roundTo 1 (nearest (nearest (roundTo 1 x) + nearest (1 / 10))) = roundTo 1 x + 1 / 10 := by
  obtain ⟨hnear, hnear'⟩ := roundTo_one_near x
  obtain ⟨hdouble, hdouble'⟩ := nearest_nah (x := roundTo 1 x)
    (abs_le.mpr ⟨by linarith, by linarith⟩)
  obtain ⟨hzehn, hzehn'⟩ := nearest_zehntel
  have hgrid (k : ℤ) : (roundTo 1 x + k / 10) * 10 ^ 1 = (roundHalfEven (x * 10 ^ 1) + k : ℤ) := by
    rw [roundTo]
    push_cast
    ring
  constructor
  · obtain ⟨hsub, hsub'⟩ := nearest_nah (x := nearest (roundTo 1 x) - nearest (1 / 10))
      (abs_le.mpr ⟨by linarith, by linarith⟩)
    have hk := hgrid (-1)
    rw [Int.cast_neg, Int.cast_one, neg_div, ← sub_eq_add_neg] at hk
    exact roundTo_of_near hk (abs_lt.mpr ⟨by linarith, by linarith⟩)
  · obtain ⟨hadd, hadd'⟩ := nearest_nah (x := nearest (roundTo 1 x) + nearest (1 / 10))
      (abs_le.mpr ⟨by linarith, by linarith⟩)
    have hk := hgrid 1
    rw [Int.cast_one] at hk
    exact roundTo_of_near hk (abs_lt.mpr ⟨by linarith, by linarith⟩)

theorem nearest_sub_zehntel_le (h : -10 ≤ x) (h' : x ≤ 10) :
    nearest (x - nearest (1 / 10)) ≤ x := by
  obtain ⟨hzehn, hzehn'⟩ := nearest_zehntel
  have hnah := (nearest_nah (x := x - nearest (1 / 10))
    (abs_le.mpr ⟨by linarith, by linarith⟩)).2
  linarith

/-- The escalation below the cut `c`, raised to `b` where it is deeper, is kept below the cut as it
is written unless this one lies half a unit below and the escalation at it.  The depth `d` is
the lowest escalation there is. -/
theorem escalation_bleibt_iff {b c d e : ℚ} (hc : nearest (-79 / 10) ≤ c) (hc' : c ≤ -1)
    (he : nearest (-79 / 10) ≤ e) (he' : e ≤ -2) :
    (lossEscalation.stufe e ≤ lossEscalation.stufe (max (nearest
          (max (lossCut.schreibe (max c b)) b - nearest (1 / 10))) d) ∨
        lossEscalation.stufe (nearest (max c b - nearest (1 / 10))) ≤
          lossEscalation.stufe (max (nearest
            (max (lossCut.schreibe (max c b)) b - nearest (1 / 10))) d)) ↔
      c ≤ b ∨ -2 < roundTo 1 c ∨ roundTo 1 (nearest (c - nearest (1 / 10))) < roundTo 1 c ∨
        roundTo 1 e < roundTo 1 c ∨ roundTo 1 c ≤ roundTo 1 (nearest (b - nearest (1 / 10))) ∨
        roundTo 1 c ≤ roundTo 1 d := by
  have hmono := lossEscalation.stufe_mono
  rcases le_or_gt c b with hcb | hcb
  · rw [max_eq_right hcb]
    refine iff_of_true (.inr (hmono (le_max_of_le_left (nearest_mono ?_)))) (.inl hcb)
    linarith [le_max_right (lossCut.schreibe b) b]
  · obtain ⟨hlow, -, -⟩ := nearest_verluste
    have hc10 : -10 ≤ c := by linarith
    have htwo : roundTo 1 (-2) = -2 := roundTo_of_mul_eq (k := -20) (by norm_num)
    have hcut : lossCut.schreibe c = nearest (roundTo 1 c) := by
      have hone : c ≤ nearest (-1) := by rw [nearest_verluste.2.2.1]; exact hc'
      rw [Setting.schreibe, Setting.stufe_of_mem hc hone]
      rfl
    have hesc : lossEscalation.stufe e = roundTo 1 e := by
      have htwo' : e ≤ nearest (-2) := by rw [nearest_verluste.2.1]; exact he'
      exact Setting.stufe_of_mem he htwo'
    -- the new bounds are the tenth below the cut, the one below `b`, and `d`
    have hbound : lossEscalation.stufe (max (nearest
          (max (lossCut.schreibe (max c b)) b - nearest (1 / 10))) d) =
        max (max (lossEscalation.stufe (nearest (nearest (roundTo 1 c) - nearest (1 / 10))))
          (lossEscalation.stufe (nearest (b - nearest (1 / 10))))) (lossEscalation.stufe d) := by
      rw [max_eq_left hcb.le, hcut, ← max_sub_sub_right, nearest_max, hmono.map_max, hmono.map_max]
    have htenth : lossEscalation.stufe (nearest (nearest (roundTo 1 c) - nearest (1 / 10))) =
        max (-79 / 10) (min (-2) (roundTo 1 c - 1 / 10)) := by
      rw [stufe_escalation, (rund_zehntel hc10 (by linarith)).1]
    rw [hbound, htenth, max_eq_left hcb.le]
    constructor
    · intro h
      by_contra hnot
      simp only [not_or, not_le, not_lt] at hnot
      obtain ⟨-, hhigh, hstep, hat, hb, hd⟩ := hnot
      have hdeep : -79 / 10 < roundTo 1 c := by
        have hgrid : roundTo 1 (nearest (-79 / 10)) = -79 / 10 :=
          roundTo_nearest (n := 3) (k := -79) (by norm_num) (by norm_num) (by norm_num)
        refine lt_of_le_of_ne (hgrid ▸ roundTo_mono hc) fun heq => ?_
        -- a tenth below a cut that is written as -7.9 at most half a unit is not -7.9
        have hhalf : c ≤ -157 / 20 := by linarith [(roundTo_one_near c).1]
        have hround : roundTo 1 (nearest (c - nearest (1 / 10))) ≤ -8 :=
          (roundTo_mono (nearest_mono (by linarith))).trans_eq nearest_unter_halb
        linarith
      have hunder {x : ℚ} (hx : roundTo 1 x < roundTo 1 c) :
          lossEscalation.stufe x < roundTo 1 c := by
        rw [stufe_escalation]
        exact max_lt hdeep (min_lt_of_right_lt hx)
      have hnew : max (max (max (-79 / 10) (min (-2) (roundTo 1 c - 1 / 10)))
          (lossEscalation.stufe (nearest (b - nearest (1 / 10))))) (lossEscalation.stufe d) <
            roundTo 1 c :=
        max_lt (max_lt (max_lt hdeep (min_lt_of_right_lt (by linarith))) (hunder hb)) (hunder hd)
      rcases h with h | h
      · rw [hesc] at h
        exact absurd (hat.trans h) (not_le.mpr hnew)
      · have hover : roundTo 1 c ≤ lossEscalation.stufe (nearest (c - nearest (1 / 10))) := by
          rw [stufe_escalation]
          exact le_max_of_le_right (le_min hhigh hstep)
        exact absurd (hover.trans h) (not_le.mpr hnew)
    · have hkeep {x y : ℚ} (hxy : roundTo 1 x ≤ roundTo 1 y) :
          lossEscalation.stufe x ≤ lossEscalation.stufe y := by
        rw [stufe_escalation, stufe_escalation]
        exact max_le_max_left _ (min_le_min_left _ hxy)
      have hstep {x : ℚ} (hx : roundTo 1 x < roundTo 1 c) :
          lossEscalation.stufe x ≤ max (-79 / 10) (min (-2) (roundTo 1 c - 1 / 10)) := by
        rw [stufe_escalation]
        exact max_le_max_left _ (min_le_min_left _ (le_sub_of_roundTo_lt hx))
      have hdown : roundTo 1 (nearest (c - nearest (1 / 10))) ≤ roundTo 1 c :=
        roundTo_mono (nearest_sub_zehntel_le hc10 (by linarith))
      rintro (h | h | h | h | h | h)
      · exact absurd h (not_le.mpr hcb)
      · have hround : roundTo 1 e ≤ -2 := htwo ▸ roundTo_mono he'
        have hgap : roundTo 1 (-2) ≤ roundTo 1 c - 1 / 10 :=
          le_sub_of_roundTo_lt (by rw [htwo]; exact h)
        rw [htwo] at hgap
        rw [hesc]
        exact .inl (le_max_of_le_left (le_max_of_le_left (le_max_of_le_right
          (le_min hround (hround.trans hgap)))))
      · exact .inr (le_max_of_le_left (le_max_of_le_left (hstep h)))
      · exact .inl (le_max_of_le_left (le_max_of_le_left (hstep h)))
      · exact .inr (le_max_of_le_left (le_max_of_le_right (hkeep (hdown.trans h))))
      · exact .inr (le_max_of_le_right (hkeep (hdown.trans h)))

/-- The watch above the cut, with `b` the lowest cut there is, is kept above the cut as it is
written unless this one is written higher and the watch at it. -/
theorem watch_bleibt_iff {b c w : ℚ} (hc : nearest (-79 / 10) ≤ c) (hc' : c ≤ -1) :
    (lossWatch.stufe (nearest (max (lossCut.schreibe (max c b)) b + nearest (1 / 10))) ≤
          lossWatch.stufe w ∨
        lossWatch.stufe (nearest (max (lossCut.schreibe (max c b)) b + nearest (1 / 10))) ≤
          lossWatch.stufe (nearest (max c b + nearest (1 / 10)))) ↔
      -1 < max c b ∨
        roundTo 1 (max c b) < roundTo 1 (nearest (max c b + nearest (1 / 10))) ∨
        roundTo 1 (max c b) < roundTo 1 w := by
  have hmono := lossWatch.stufe_mono
  have hb : b ≤ max c b := le_max_right c b
  have hlow : nearest (-79 / 10) ≤ max c b := hc.trans (le_max_left c b)
  obtain ⟨hdeep, -, hone', -⟩ := nearest_verluste
  rcases lt_or_ge (-1) (max c b) with hone | hone
  · have heq : max c b = b := max_eq_right
      (((lt_max_iff.mp hone).resolve_left (not_lt.mpr hc')).le.trans' hc')
    rw [heq] at hone ⊢
    have hcut : lossCut.schreibe b ≤ b :=
      ((lossCut_zahlig.schreibe_mem b).2.trans_eq hone').trans hone.le
    rw [max_eq_right hcut]
    exact iff_of_true (.inr le_rfl) (.inl hone)
  · generalize hS : max c b = S at *
    have hcut : lossCut.schreibe S = nearest (roundTo 1 S) := by
      rw [Setting.schreibe, Setting.stufe_of_mem hlow (hone.trans_eq hone'.symm)]
      rfl
    have hgrid : roundTo 1 (nearest (-79 / 10)) = -79 / 10 :=
      roundTo_nearest (n := 3) (k := -79) (by norm_num) (by norm_num) (by norm_num)
    have hfloor : -79 / 10 ≤ roundTo 1 S := hgrid ▸ roundTo_mono hlow
    have htop : roundTo 1 S ≤ -1 := roundTo_le (k := -10) (by norm_num) hone
    -- the new bound is a tenth above the cut, or the one above `b`
    have htenth : lossWatch.stufe (nearest (nearest (roundTo 1 S) + nearest (1 / 10))) =
        roundTo 1 S + 1 / 10 := by
      rw [stufe_watch, (rund_zehntel (by linarith) (by linarith)).2, min_eq_right (by linarith),
        max_eq_right (by linarith)]
    have hnew : lossWatch.stufe (nearest (max (nearest (roundTo 1 S)) b + nearest (1 / 10))) =
        max (roundTo 1 S + 1 / 10) (lossWatch.stufe (nearest (b + nearest (1 / 10)))) := by
      rw [← max_add_add_right, nearest_max, hmono.map_max, htenth]
    have hbelow : lossWatch.stufe (nearest (b + nearest (1 / 10))) ≤
        lossWatch.stufe (nearest (S + nearest (1 / 10))) :=
      hmono (nearest_mono (by linarith))
    have habove {x : ℚ} : roundTo 1 S + 1 / 10 ≤ lossWatch.stufe x ↔ roundTo 1 S < roundTo 1 x := by
      rw [stufe_watch, le_max_iff, le_min_iff, or_iff_right (by linarith),
        and_iff_right (by linarith)]
      exact ⟨fun h => by linarith, fun h => by linarith [le_sub_of_roundTo_lt h]⟩
    rw [hcut, hnew, max_le_iff, max_le_iff, habove, habove, and_iff_left hbelow,
      or_iff_right (not_lt.mpr hone)]
    constructor
    · rintro (h | h)
      · exact .inr h.1
      · exact .inl h
    · rintro (h | h)
      · exact .inr h
      · rcases le_total (lossWatch.stufe (nearest (b + nearest (1 / 10)))) (lossWatch.stufe w)
          with hle | hle
        · exact .inl ⟨h, hle⟩
        · exact .inr (habove.mp ((habove.mpr h).trans (hle.trans hbelow)))

end

/-! ## What a second run writes -/

section

variable {positions : ℤ} {hard : ℚ} {vals vals' : Werte}

theorem stufe_hoechstens (hg : InGrenzen vals) :
    maxPosition.stufe (hoechstens vals) = roundTo 2 (hoechstens vals) :=
  Setting.stufe_of_mem (hoechstens_mem hg).1 (hoechstens_mem hg).2

/-- The second run starts from the largest weight as it is written. -/
theorem hoechstens_gelesen (hg : InGrenzen vals)
    (hv : Gelesen P (crossClamp positions hard vals) vals') :
    hoechstens vals' = nearest (roundTo 2 (hoechstens vals)) := by
  have hsame : crossClamp positions hard vals "MAX_POSITION_PERCENT_SIZING" =
      vals "MAX_POSITION_PERCENT_SIZING" := crossClamp_of_notMem (by decide)
  have hdouble : (vals "MAX_POSITION_PERCENT_SIZING").double =
      (vals "MAX_POSITION_PERCENT_SIZING").float := hg.double _ maxSizing_mem rfl
  have hmax : ( vals' "MAX_POSITION_PERCENT").float = maxPosition.schreibe (hoechstens vals) :=
    hv.schreibe maxPosition_mem rfl crossClamp_max
  have hsizing : ( vals' "MAX_POSITION_PERCENT_SIZING").float =
      maxSizing.schreibe (crossClamp positions hard vals "MAX_POSITION_PERCENT_SIZING").double :=
    hv.float maxSizing_mem rfl (by
      show (crossClamp positions hard vals "MAX_POSITION_PERCENT_SIZING").istZahl = true
      rw [hsame]
      exact hg.zahlen _ maxSizing_mem (.inl rfl))
  have hstufe : maxSizing.stufe (vals "MAX_POSITION_PERCENT_SIZING").float =
      roundTo 2 (vals "MAX_POSITION_PERCENT_SIZING").float :=
    Setting.stufe_of_mem hg.sizing.1 hg.sizing.2
  rw [hoechstens, hmax, hsizing, hsame, hdouble, Setting.schreibe, stufe_hoechstens hg,
    Setting.schreibe, hstufe]
  exact min_eq_left (nearest_mono (roundTo_mono (min_le_right _ _)))

theorem max_bleibt (hg : InGrenzen vals) (hv : Gelesen P (crossClamp positions hard vals) vals') :
    maxPosition.schreibe (hoechstens vals') = maxPosition.schreibe (hoechstens vals) := by
  rw [hoechstens_gelesen hg hv, ← stufe_hoechstens hg]
  exact maxPosition_zahlig.schreibe_schreibe _

theorem stop_bleibt (hv : Gelesen P (crossClamp positions hard vals) vals') :
    stopLoss.schreibe
        (min ( vals' "STOP_LOSS_PCT").float (nearest (hard - nearest (1 / 10)))) =
      stopLoss.schreibe (min (vals "STOP_LOSS_PCT").float (nearest (hard - nearest (1 / 10)))) := by
  have hread : ( vals' "STOP_LOSS_PCT").float = stopLoss.schreibe
      (min (vals "STOP_LOSS_PCT").float (nearest (hard - nearest (1 / 10)))) :=
    hv.schreibe stopLoss_mem rfl crossClamp_stop
  rw [hread]
  exact round_min_round stopLoss.schreibe_mono stopLoss_zahlig.schreibe_schreibe _ _

/-- The second run starts from the cut as it is written. -/
theorem schnitt_gelesen (hv : Gelesen P (crossClamp positions hard vals) vals') :
    schnitt hard vals' =
      max (lossCut.schreibe (schnitt hard vals)) (nearest (-hard + nearest (1 / 5))) := by
  have hread : ( vals' "LOSS_CUT_PCT").float = lossCut.schreibe (schnitt hard vals) :=
    hv.schreibe lossCut_mem rfl crossClamp_cut
  rw [schnitt, hread]

theorem cut_bleibt (hv : Gelesen P (crossClamp positions hard vals) vals') :
    lossCut.schreibe (schnitt hard vals') = lossCut.schreibe (schnitt hard vals) := by
  rw [schnitt_gelesen hv, schnitt]
  exact round_max_round lossCut.schreibe_mono lossCut_zahlig.schreibe_schreibe _ _

theorem escalation_bleibt (hg : InGrenzen vals)
    (hv : Gelesen P (crossClamp positions hard vals) vals') :
    lossEscalation.schreibe (eskalation hard vals') =
        lossEscalation.schreibe (eskalation hard vals) ↔
      (vals "LOSS_CUT_PCT").float ≤ nearest (-hard + nearest (1 / 5)) ∨
        -2 < roundTo 1 (vals "LOSS_CUT_PCT").float ∨
        roundTo 1 (nearest ((vals "LOSS_CUT_PCT").float - nearest (1 / 10))) <
          roundTo 1 (vals "LOSS_CUT_PCT").float ∨
        roundTo 1 (vals "LOSS_ESCALATION_PCT").float < roundTo 1 (vals "LOSS_CUT_PCT").float ∨
        roundTo 1 (vals "LOSS_CUT_PCT").float ≤
          roundTo 1 (nearest (nearest (-hard + nearest (1 / 5)) - nearest (1 / 10))) ∨
        roundTo 1 (vals "LOSS_CUT_PCT").float ≤ roundTo 1 (nearest (-hard + nearest (1 / 10))) := by
  have hread : ( vals' "LOSS_ESCALATION_PCT").float =
      lossEscalation.schreibe (eskalation hard vals) :=
    hv.schreibe lossEscalation_mem rfl crossClamp_escalation
  obtain ⟨-, htwo, hone, -⟩ := nearest_verluste
  rw [eskalation, hread, eskalation, round_step_iff lossEscalation.schreibe_mono
    lossEscalation_zahlig.schreibe_schreibe, lossEscalation_zahlig.schreibe_le_iff,
    lossEscalation_zahlig.schreibe_le_iff, schnitt_gelesen hv, schnitt]
  exact escalation_bleibt_iff hg.cut.1 (hg.cut.2.trans_eq hone) hg.escalation.1
    (hg.escalation.2.trans_eq htwo)

theorem watch_bleibt (hg : InGrenzen vals)
    (hv : Gelesen P (crossClamp positions hard vals) vals') :
    lossWatch.schreibe (beobachtung hard vals') = lossWatch.schreibe (beobachtung hard vals) ↔
      -1 < schnitt hard vals ∨
        roundTo 1 (schnitt hard vals) <
          roundTo 1 (nearest (schnitt hard vals + nearest (1 / 10))) ∨
        roundTo 1 (schnitt hard vals) < roundTo 1 (vals "LOSS_WATCH_PCT").float := by
  have hread : ( vals' "LOSS_WATCH_PCT").float = lossWatch.schreibe (beobachtung hard vals) :=
    hv.schreibe lossWatch_mem rfl crossClamp_watch
  obtain ⟨-, -, hone, -⟩ := nearest_verluste
  rw [beobachtung, hread, beobachtung, round_lower_iff lossWatch.schreibe_mono
    lossWatch_zahlig.schreibe_schreibe, lossWatch_zahlig.schreibe_le_iff,
    lossWatch_zahlig.schreibe_le_iff, schnitt_gelesen hv, schnitt]
  exact watch_bleibt_iff hg.cut.1 (hg.cut.2.trans_eq hone)

theorem stufe_min (x : ℚ) :
    minPosition.stufe x = max (1 / 100) (min (10 / 100) (roundTo 2 x)) := by
  have hlow : roundTo 2 (nearest (1 / 100)) = 1 / 100 :=
    roundTo_nearest (n := 3) (k := 1) (by norm_num) (by norm_num) (by norm_num)
  have hhigh : roundTo 2 (nearest (10 / 100)) = 10 / 100 :=
    roundTo_nearest (n := 3) (k := 10) (by norm_num) (by norm_num) (by norm_num)
  have heq : minPosition.stufe x = roundTo 2 (max (nearest (1 / 100)) (min (nearest (10 / 100)) x)) :=
    rfl
  rw [heq, roundTo_max, roundTo_min, hlow, hhigh]

/-- The largest weight is written as at least 0.05. -/
theorem le_roundTo_hoechstens (hg : InGrenzen vals) : 5 / 100 ≤ roundTo 2 (hoechstens vals) := by
  have hlow : roundTo 2 (nearest (5 / 100)) = 5 / 100 :=
    roundTo_nearest (n := 3) (k := 5) (by norm_num) (by norm_num) (by norm_num)
  exact hlow ▸ roundTo_mono (hoechstens_mem hg).1

/-- The weights are compared as they are written. -/
theorem schreibe_lt_hoechstens (hg : InGrenzen vals) (x : ℚ) :
    minPosition.schreibe x < nearest (roundTo 2 (hoechstens vals)) ↔
      minPosition.stufe x < roundTo 2 (hoechstens vals) := by
  have hmax := maxPosition_zahlig.roundTo_schreibe (hoechstens vals)
  rw [Setting.schreibe, stufe_hoechstens hg] at hmax
  exact nearest_lt_nearest_iff (minPosition_zahlig.roundTo_schreibe x) hmax

/-- What the least weight is written as when it did not fit below the largest. -/
theorem stufe_mindestens (hg : InGrenzen vals) (hle : hoechstens vals ≤ mitSlot positions vals) :
    minPosition.stufe (mindestens positions vals) =
      roundTo 2 (nearest (hoechstens vals - nearest (1 / 100))) := by
  have hslot : mitSlot positions vals ≤ nearest (10 / 100) := (min_le_left _ _).trans hg.min.2
  have hlow : nearest (1 / 100) ≤ nearest (hoechstens vals - nearest (1 / 100)) := by
    rw [← hoechstens_sub hg]
    exact le_max_left _ _
  have hhigh : nearest (hoechstens vals - nearest (1 / 100)) ≤ nearest (10 / 100) := by
    linarith [(nah_hoechstens_sub hg).2]
  rw [mindestens, if_pos hle, hoechstens_sub hg]
  exact Setting.stufe_of_mem hlow hhigh

theorem mindestens_le_platz (hg : InGrenzen vals) : mindestens positions vals ≤ platz positions := by
  have hslot : mitSlot positions vals ≤ platz positions := min_le_right _ _
  rw [mindestens]
  split
  next hle =>
    rw [hoechstens_sub hg]
    linarith [(nah_hoechstens_sub hg).2]
  next => exact hslot

/-- The least weight is written the same again when it still fits into the slot. -/
theorem schreibe_min_slot (hg : InGrenzen vals) :
    minPosition.schreibe (min (minPosition.schreibe (mindestens positions vals))
        (platz positions)) =
      minPosition.schreibe (mindestens positions vals) := by
  rw [minPosition.schreibe_mono.map_min, minPosition_zahlig.schreibe_schreibe]
  exact min_eq_left (minPosition.schreibe_mono (mindestens_le_platz hg))

/-- The least weight stays unless the largest, as it is written, is not above it. -/
theorem min_bleibt_iff_lt (hg : InGrenzen vals) (hg' : InGrenzen vals')
    (hv : Gelesen P (crossClamp positions hard vals) vals') :
    minPosition.schreibe (mindestens positions vals') =
        minPosition.schreibe (mindestens positions vals) ↔
      min (minPosition.schreibe (mindestens positions vals)) (platz positions) <
        nearest (roundTo 2 (hoechstens vals)) := by
  have hread : ( vals' "MIN_POSITION_PERCENT").float =
      minPosition.schreibe (mindestens positions vals) :=
    hv.schreibe minPosition_mem rfl crossClamp_min
  have hmax := hoechstens_gelesen hg hv
  rw [mindestens.eq_def positions vals', mitSlot, hread, ← hmax]
  split
  next hle =>
    have hdown : minPosition.schreibe (nearest (hoechstens vals' - nearest (1 / 100))) <
        hoechstens vals' := by
      have hfloor := le_roundTo_hoechstens hg
      have hceil := roundTo_le_add 2 (hoechstens vals)
      have hround := roundTo_le_add 2 (nearest (hoechstens vals' - nearest (1 / 100)))
      obtain ⟨-, hsub⟩ := nah_hoechstens_sub hg'
      obtain ⟨-, hnah⟩ := nearest_nah (x := roundTo 2 (hoechstens vals))
        (abs_le.mpr ⟨by linarith, by linarith [(hoechstens_nah hg).2]⟩)
      rw [← hmax] at hnah
      rw [hmax, schreibe_lt_hoechstens hg, ← hmax, stufe_min]
      exact max_lt (by linarith) (min_lt_of_right_lt (by linarith))
    rw [hoechstens_sub hg']
    refine iff_of_false (fun heq => ?_) (not_lt.mpr hle)
    rw [heq] at hdown
    exact absurd (hle.trans (min_le_left _ _)) (not_le.mpr hdown)
  next hlt => exact iff_of_true (schreibe_min_slot hg) (not_le.mp hlt)

theorem min_bleibt (hg : InGrenzen vals) (hg' : InGrenzen vals')
    (hv : Gelesen P (crossClamp positions hard vals) vals') :
    minPosition.schreibe (mindestens positions vals') =
        minPosition.schreibe (mindestens positions vals) ↔
      if hoechstens vals ≤ mitSlot positions vals then
        roundTo 2 (nearest (hoechstens vals - nearest (1 / 100))) < roundTo 2 (hoechstens vals)
      else roundTo 2 (mitSlot positions vals) < roundTo 2 (hoechstens vals) ∨
        platz positions < nearest (roundTo 2 (hoechstens vals)) := by
  rw [min_bleibt_iff_lt hg hg' hv, min_lt_iff, schreibe_lt_hoechstens hg]
  have hslot : mitSlot positions vals ≤ platz positions := min_le_right _ _
  split
  next hle =>
    obtain ⟨hlow, hhigh⟩ := hoechstens_nah hg
    have hround := roundTo_le_add 2 (nearest (hoechstens vals - nearest (1 / 100)))
    have hround' := sub_le_roundTo 2 (hoechstens vals)
    have hround'' := roundTo_le_add 2 (hoechstens vals)
    obtain ⟨-, hsub⟩ := nah_hoechstens_sub hg
    obtain ⟨-, hnah⟩ := nearest_nah (x := roundTo 2 (hoechstens vals))
      (abs_le.mpr ⟨by linarith, by linarith⟩)
    rw [stufe_mindestens hg hle, or_iff_left_of_imp]
    intro h
    linarith
  next hlt =>
    have hfloor := le_roundTo_hoechstens hg
    have hhigh : roundTo 2 (nearest (10 / 100)) = 10 / 100 :=
      roundTo_nearest (n := 3) (k := 10) (by norm_num) (by norm_num) (by norm_num)
    have htop : roundTo 2 (mitSlot positions vals) ≤ 10 / 100 :=
      hhigh ▸ roundTo_mono ((min_le_left _ _).trans hg.min.2)
    rw [mindestens, if_neg hlt, stufe_min, min_eq_right htop, max_lt_iff,
      and_iff_right (by linarith)]

theorem canonicalText_int {s : Setting} (hkind : s.kind = .int) {w : Wert}
    (hzahl : w.istZahl = true) : canonicalText P s w =
      String.ofList (formatFixed 0 (roundHalfEven (s.klemme w.double) : ℤ)) := by
  simp only [canonicalText_eq, kanonisch, textVon, hkind, parse, parseInt,
    Wert.number_roh P hzahl, Wert.float]

/-- The number of names that are debated stays. -/
theorem topK_bleibt (hg : InGrenzen vals) (hg' : InGrenzen vals')
    (hv : Gelesen P (crossClamp positions hard vals) vals') :
    canonicalText P topKEval (crossClamp positions hard vals' "ROUND_TABLE_TOP_K_EVAL") =
      canonicalText P topKEval (crossClamp positions hard vals "ROUND_TABLE_TOP_K_EVAL") := by
  obtain ⟨n, hn, -, hhi⟩ := hg.topK
  obtain ⟨n', hn', hlo', hhi'⟩ := hg'.topK
  obtain ⟨hzahl, hdouble⟩ :
      (crossClamp positions hard vals "ROUND_TABLE_TOP_K_EVAL").istZahl = true ∧
        (crossClamp positions hard vals "ROUND_TABLE_TOP_K_EVAL").double =
          debattiert positions vals := crossClamp_topK (by rw [hn, Wert.istZahl])
  obtain ⟨hzahl', hdouble'⟩ :
      (crossClamp positions hard vals' "ROUND_TABLE_TOP_K_EVAL").istZahl = true ∧
        (crossClamp positions hard vals' "ROUND_TABLE_TOP_K_EVAL").double =
          debattiert positions vals' := crossClamp_topK (by rw [hn', Wert.istZahl])
  have hread : n' = roundHalfEven (topKEval.klemme (debattiert positions vals)) := by
    have hparse : Wert.ganz n' = gerundet topKEval
        (parse P topKEval (crossClamp positions hard vals "ROUND_TABLE_TOP_K_EVAL").roh) :=
      hn'.symm.trans (hv topKEval topKEval_mem)
    have hint : parse P topKEval (crossClamp positions hard vals "ROUND_TABLE_TOP_K_EVAL").roh =
        parseInt P topKEval (crossClamp positions hard vals "ROUND_TABLE_TOP_K_EVAL").roh := rfl
    rw [hint, parseInt, Wert.number_roh P hzahl, hdouble] at hparse
    cases hparse
    rfl
  rw [canonicalText_int rfl hzahl', canonicalText_int rfl hzahl, hdouble', hdouble]
  rcases le_or_gt positions 59 with hp | hp
  · have hlt : positions < n' := by
      have hnum := (@lt_topK_iff P positions hard vals hg).mpr hp
      rw [num_ganzSetting topKEval_mem hzahl, hdouble] at hnum
      rw [hread]
      exact_mod_cast hnum
    have hklein : nearest (n' : ℚ) = n' :=
      nearest_of_klein (topKEval.ganz_of_stimmt (register_stimmt _ topKEval_mem) rfl)
        (show (10 : ℚ) ≤ n' by exact_mod_cast hlo') (show (n' : ℚ) ≤ 60 by exact_mod_cast hhi')
    have hkeep : debattiert positions vals' = n' := by
      rw [debattiert, hn', Wert.float, if_neg (not_le.mpr (by exact_mod_cast hlt)), Wert.double,
        hklein]
    have hklemme : topKEval.klemme (n' : ℚ) = n' :=
      Setting.klemme_of_mem (show (10 : ℚ) ≤ n' by exact_mod_cast hlo')
        (show (n' : ℚ) ≤ 60 by exact_mod_cast hhi')
    rw [hkeep, hklemme, roundHalfEven_intCast, ← hread]
  · have hfull {m : ℤ} {vs : Werte} (hm : vs "ROUND_TABLE_TOP_K_EVAL" = .ganz m) (hle : m ≤ 60) :
        debattiert positions vs = nearest (positions + 1 : ℤ) := by
      have hpos : m ≤ positions := by omega
      rw [debattiert, hm, Wert.float, if_pos (by exact_mod_cast hpos)]
    rw [hfull hn hhi, hfull hn' hhi']

end

/-! ## The settings stay -/

/-- A second run writes the same texts exactly when the three rules keep their numbers. -/
theorem stand_bleibt_iff (hP : P.Gesetze) {positions : ℤ} {hard : ℚ} {vals vals' : Werte}
    (hg : InGrenzen vals) (hg' : InGrenzen vals')
    (hv : Gelesen P (crossClamp positions hard vals) vals') :
    stand P (crossClamp positions hard vals') = stand P (crossClamp positions hard vals) ↔
      minPosition.schreibe (mindestens positions vals') =
          minPosition.schreibe (mindestens positions vals) ∧
        lossEscalation.schreibe (eskalation hard vals') =
          lossEscalation.schreibe (eskalation hard vals) ∧
        lossWatch.schreibe (beobachtung hard vals') =
          lossWatch.schreibe (beobachtung hard vals) := by
  have htext {key : String} {q q' : ℚ} {s : Setting} (hs : s ∈ register) (hkind : s.kind = .float)
      (hkey : s.key = key) (hq' : crossClamp positions hard vals' key = .zahl q')
      (hq : crossClamp positions hard vals key = .zahl q) :
      canonicalText P s (crossClamp positions hard vals' s.key) =
          canonicalText P s (crossClamp positions hard vals s.key) ↔
        s.schreibe q' = s.schreibe q := by
    rw [hkey, hq', hq]
    exact canonicalText_zahl hs hkind
  have hmin := htext minPosition_mem rfl rfl crossClamp_min crossClamp_min
  have hesc := htext lossEscalation_mem rfl rfl crossClamp_escalation crossClamp_escalation
  have hwatch := htext lossWatch_mem rfl rfl crossClamp_watch crossClamp_watch
  have hmax := htext maxPosition_mem rfl rfl crossClamp_max crossClamp_max
  have hstop := htext stopLoss_mem rfl rfl crossClamp_stop crossClamp_stop
  have hcut := htext lossCut_mem rfl rfl crossClamp_cut crossClamp_cut
  rw [← hmin, ← hesc, ← hwatch]
  constructor
  · intro h
    have hall {s : Setting} (hs : s ∈ register) :
        canonicalText P s (crossClamp positions hard vals' s.key) =
          canonicalText P s (crossClamp positions hard vals s.key) :=
      congrArg Prod.snd (List.map_inj_left.mp h s hs)
    exact ⟨hall minPosition_mem, hall lossEscalation_mem, hall lossWatch_mem⟩
  · rintro ⟨hmin, hesc, hwatch⟩
    have hkeep {s : Setting} (hs : s ∈ register)
        (hsame : crossClamp positions hard vals' s.key = vals' s.key) :
        canonicalText P s (crossClamp positions hard vals' s.key) =
          canonicalText P s (crossClamp positions hard vals s.key) := by
      rw [hsame]
      exact hv.canonicalText hP hs
    have hsell := sell_lt_buy hg'
    refine List.map_inj_left.mpr fun s hs => congrArg (Prod.mk s.key) ?_
    by_cases hmem : s.key ∈ betroffen
    · simp only [betroffen, List.mem_cons, List.not_mem_nil, or_false] at hmem
      rcases hmem with h | h | h | h | h | h | h | h
      · rw [eq_of_key_eq hs minPosition_mem h]
        exact hmin
      · rw [eq_of_key_eq hs maxPosition_mem h]
        exact hmax.mpr (max_bleibt hg hv)
      · rw [eq_of_key_eq hs sellThreshold_mem h]
        exact hkeep sellThreshold_mem (crossClamp_sell hsell)
      · rw [eq_of_key_eq hs stopLoss_mem h]
        exact hstop.mpr (stop_bleibt hv)
      · rw [eq_of_key_eq hs lossCut_mem h]
        exact hcut.mpr (cut_bleibt hv)
      · rw [eq_of_key_eq hs lossEscalation_mem h]
        exact hesc
      · rw [eq_of_key_eq hs lossWatch_mem h]
        exact hwatch
      · rw [eq_of_key_eq hs topKEval_mem h]
        exact topK_bleibt hg hg' hv
    · exact hkeep hs (crossClamp_of_notMem hmem)

theorem Passend.ueberlauf {s : Setting} {w : Wert} (hs : s.stimmt = true) (h : Passend s w) :
    s.ueberlauf w.roh = false := by
  cases h with
  | zahl hkind hlo hhi => rfl
  | @ganz n hkind hlo hhi =>
      have hganz := s.ganz_of_stimmt hs hkind
      have hpow : (2 : ℚ) ^ 17 < 2 ^ 1024 := pow_lt_pow_right₀ (by norm_num) (by norm_num)
      have hklein := (hganz.betrag_le hlo hhi).trans_lt hpow
      rw [← nearest_of_klein hganz hlo hhi] at hklein
      have hnot : zuGross n = false := decide_eq_false (not_le.mpr hklein)
      rw [Wert.roh, Setting.ueberlauf, hnot, Bool.and_false]
  | bool b hkind => rfl
  | text hkind hmem => rfl

/-- What was written does not raise when it is read again. -/
theorem Haelt.ueberlauf {cfg : Option Konfig} {updates : List (String × Roh)} {vals : Werte}
    {cfg' : Konfig} (h : Haelt cfg (stand P vals) cfg')
    (hcfg : Einstellungen.ueberlauf cfg updates = false) :
    Einstellungen.ueberlauf (some cfg') [] = false := by
  have hpositionen := h.positionen_eq
  rw [Einstellungen.ueberlauf, Bool.or_eq_false_iff] at hcfg ⊢
  rw [Bool.or_eq_false_iff, hpositionen]
  refine ⟨⟨?_, rfl⟩, hcfg.2⟩
  refine List.any_eq_false.mpr fun s hs => ?_
  have hstimmt := register_stimmt s hs
  have hpass := parse_passend P hstimmt (vals s.key).roh
  obtain ⟨t, ht, hattr⟩ := h.werte s hs
  rw [stand, dictGet_register _ hs] at ht
  obtain rfl : textVon s (parse P s (vals s.key).roh) = t := Option.some.inj ht
  rcases hattr with hattr | hattr
  · have htext (t : String) : s.ueberlauf (.text t) = false := rfl
    simp [hattr, htext]
  · have hread := (hpass.gerundet hstimmt).ueberlauf hstimmt
    rw [← hpass.wertVon_textVon hstimmt] at hread
    simp [hattr, hread]

/-- An update without values on a configuration that holds the texts of an update. -/
theorem applyUpdates_haelt_iff (hP : P.Gesetze) {cfg : Option Konfig}
    {updates : List (String × Roh)} {cfg' : Konfig} (hcfg : ueberlauf cfg updates = false)
    (h : Haelt cfg (stand P (crossClamp (positionen cfg) (hardStop cfg) (eingaben P cfg updates)))
      cfg') :
    applyUpdates P (some cfg') [] =
        .ok (stand P (crossClamp (positionen cfg) (hardStop cfg) (eingaben P cfg updates))) ↔
      Bestaendig (platz (positionen cfg)) (hardStop cfg)
        (nearest (-hardStop cfg + nearest (1 / 5)))
        (gefordert P cfg updates "MIN_POSITION_PERCENT")
        (min (gefordert P cfg updates "MAX_POSITION_PERCENT")
          (gefordert P cfg updates "MAX_POSITION_PERCENT_SIZING"))
        (gefordert P cfg updates "LOSS_CUT_PCT")
        (gefordert P cfg updates "LOSS_ESCALATION_PCT")
        (gefordert P cfg updates "LOSS_WATCH_PCT") := by
  have hg := inGrenzen_eingaben P cfg updates
  have hg' := inGrenzen_eingaben P (some cfg') []
  have hv := h.gelesen hP
  have happly : applyUpdates P (some cfg') [] = .ok (stand P
      (crossClamp (positionen cfg) (hardStop cfg) (eingaben P (some cfg') []))) := by
    rw [← h.positionen_eq, ← h.hardStop_eq]
    exact applyUpdates_of_bekannt P (fun _ hu => absurd hu List.not_mem_nil) (h.ueberlauf hcfg)
  rw [happly, Except.ok.injEq, stand_bleibt_iff hP hg hg' hv, min_bleibt hg hg' hv,
    escalation_bleibt hg hv, watch_bleibt hg hv]
  constructor
  · rintro ⟨hgewichte, heskalation, hwatch⟩
    exact ⟨hgewichte, heskalation, hwatch⟩
  · intro hb
    exact ⟨hb.gewichte, hb.eskalation, hb.watch⟩

/-- A configuration that holds a state has its texts. -/
theorem currentSettings_haelt (hP : P.Gesetze) {cfg : Option Konfig} {vals : Werte}
    {cfg' : Konfig} (h : Haelt cfg (stand P vals) cfg') :
    currentSettings P (some cfg') = stand P vals := by
  refine List.map_inj_left.mpr fun s hs => congrArg (Prod.mk s.key) ?_
  have hread := h.gelesen hP s hs
  have hpass := parse_passend P (register_stimmt s hs) (vals s.key).roh
  rw [eingaben_of_mem P _ _ hs, eingabe] at hread
  rw [kanonisch, canonicalText_eq, kanonisch, ← hpass.textVon_gerundet hs, ← hread]
  rfl

/-- The settings stay as they were confirmed exactly when no rounding moved the largest weight,
the cut or the watch to where a rule changes them once more. -/
theorem haltbar_iff (hP : P.Gesetze) {cfg : Option Konfig} {updates : List (String × Roh)}
    {res : List (String × String)} (h : applyUpdates P cfg updates = .ok res) :
    Haltbar P cfg res ↔
      Bestaendig (platz (positionen cfg)) (hardStop cfg)
        (nearest (-hardStop cfg + nearest (1 / 5)))
        (gefordert P cfg updates "MIN_POSITION_PERCENT")
        (min (gefordert P cfg updates "MAX_POSITION_PERCENT")
          (gefordert P cfg updates "MAX_POSITION_PERCENT_SIZING"))
        (gefordert P cfg updates "LOSS_CUT_PCT")
        (gefordert P cfg updates "LOSS_ESCALATION_PCT")
        (gefordert P cfg updates "LOSS_WATCH_PCT") := by
  have hcfg := ueberlauf_of_ok h
  rw [applyUpdates_eq_stand P h]
  constructor
  · intro hh
    have hinhalt := inhalt_haelt (P := P) cfg
      (crossClamp (positionen cfg) (hardStop cfg) (eingaben P cfg updates))
    exact (applyUpdates_haelt_iff hP hcfg hinhalt).mp (hh.fixpunkt _ hinhalt).1
  · intro hb
    exact
      { fixpunkt := fun cfg' hc => by
          refine ⟨(applyUpdates_haelt_iff hP hcfg hc).mpr hb, ?_⟩
          rw [currentSettings_haelt hP hc]
          exact describeChanges_self _
        kanonisch := fun s hs v => kanonisch_kanonisch hP hs v
        anwenden := anwenden_describeChanges _ _ }

/-- Reads the texts that are written here. -/
def dezimal : Python where
  float t := (lies t).map .of
  stripLower := id

theorem dezimal_gesetze : dezimal.Gesetze where
  float_format d q _ := by
    show (lies (String.ofList (formatFixed d q))).map ExtRat.of =
      some (.of (nearest (roundTo d q)))
    rw [lies, String.toList_ofList, readDecimal_formatFixed, Option.map_some, Option.map_some]
  stripLower_isLower _ _ := rfl

/-- The settings as they are delivered stay. -/
theorem haltbar_voreinstellung :
    ∃ res, applyUpdates dezimal none [] = .ok res ∧ Haltbar dezimal none res := by
  have happly : applyUpdates dezimal none [] = .ok _ :=
    applyUpdates_of_bekannt dezimal (fun _ hu => absurd hu List.not_mem_nil) (by decide +kernel)
  refine ⟨_, happly, (haltbar_iff dezimal_gesetze happly).mpr ?_⟩
  have hmin : gefordert dezimal none [] "MIN_POSITION_PERCENT" = nearest (5 / 100) := by
    decide +kernel
  have hmax : gefordert dezimal none [] "MAX_POSITION_PERCENT" = nearest (25 / 100) := by
    decide +kernel
  have hsizing : gefordert dezimal none [] "MAX_POSITION_PERCENT_SIZING" = nearest (30 / 100) := by
    decide +kernel
  have hcut : gefordert dezimal none [] "LOSS_CUT_PCT" = -6 := by decide +kernel
  have hesc : gefordert dezimal none [] "LOSS_ESCALATION_PCT" = nearest (-79 / 10) := by
    decide +kernel
  have hwatch : gefordert dezimal none [] "LOSS_WATCH_PCT" = -3 := by decide +kernel
  rw [hmin, hmax, hsizing, hcut, hesc, hwatch]
  exact
    { gewichte := by decide +kernel
      eskalation := by decide +kernel
      watch := by decide +kernel }

/-- A cut half a unit of its text off, and a watch below it. -/
def halb : List (String × Roh) :=
  [("LOSS_CUT_PCT", .zahl (.of (nearest (-555 / 100)))), ("LOSS_WATCH_PCT", .zahl (.of (-6)))]

def halbTexte : List (String × String) :=
  stand dezimal (crossClamp (positionen none) (hardStop none) (eingaben dezimal none halb))

/-- The texts that the next update makes of them. -/
def halbDanach : List (String × String) :=
  stand dezimal (crossClamp (positionen none) (hardStop none)
    (eingaben dezimal (some (inhalt none halbTexte)) []))

/-- The cut and the watch are both written as -5.5, and the next update lifts the watch. -/
theorem halb_nicht_haltbar :
    ∃ res, applyUpdates dezimal none halb = .ok res ∧ ¬Haltbar dezimal none res := by
  have hcfg : ueberlauf none halb = false := by decide +kernel
  have happly : applyUpdates dezimal none halb = .ok _ :=
    applyUpdates_of_bekannt dezimal (by decide +kernel) hcfg
  refine ⟨halbTexte, happly, fun hh => ?_⟩
  have hinhalt : Haelt none halbTexte (inhalt none halbTexte) := inhalt_haelt none _
  have hsecond : applyUpdates dezimal (some (inhalt none halbTexte)) [] = .ok halbDanach :=
    applyUpdates_of_bekannt dezimal (fun _ hu => absurd hu List.not_mem_nil)
      (hinhalt.ueberlauf hcfg)
  have hsame : halbDanach = halbTexte :=
    Except.ok.inj (hsecond.symm.trans (hh.fixpunkt _ hinhalt).1)
  have hwatch : dictGet "LOSS_WATCH_PCT" halbTexte = some "-5.5" := by decide +kernel
  have hdanach : dictGet "LOSS_WATCH_PCT" halbDanach = some "-5.4" := by decide +kernel
  rw [hsame, hwatch] at hdanach
  exact absurd hdanach (by decide)

end Einstellungen
