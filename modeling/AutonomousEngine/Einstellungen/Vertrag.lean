import AutonomousEngine.Einstellungen.Abgleich

/-!
# When confirmed settings are consistent

The texts of an update follow all rules exactly when the rules survive the cut and the
rounding that writing does (`applyUpdates_iff`).  That is a matter of the number of
positions, of the hard stop and of five of the numbers: the least and the largest weight
and the three losses.  The other rules always hold.
-/

namespace Einstellungen

open Basis

variable (P : Python)

def stand (vals : Werte) : List (String × String) :=
  register.map fun s => (s.key, canonicalText P s (vals s.key))

section

variable {P} {vals : Werte} {s : Setting}

theorem num_float (hs : s ∈ register) (hkind : s.kind = .float)
    (h : (vals s.key).istZahl = true) :
    num (stand P vals) s.key = s.schreibe (vals s.key).double := by
  rw [num, stand, zahlVon_map hs, lies_canonicalText_float P hkind h]
  rfl

theorem num_int (hs : s ∈ register) (hkind : s.kind = .int) (h : (vals s.key).istZahl = true) :
    num (stand P vals) s.key = roundHalfEven (s.klemme (vals s.key).double) := by
  rw [num, stand, zahlVon_map hs, lies_canonicalText_int P (register_stimmt s hs) hkind h]
  rfl

end

/-! ## The numbers of a request -/

/-- The bounds of the numbers that the rules speak of. -/
structure InGrenzen (vals : Werte) : Prop where
  min : nearest (1 / 100) ≤ (vals "MIN_POSITION_PERCENT").float ∧
    (vals "MIN_POSITION_PERCENT").float ≤ nearest (10 / 100)
  max : nearest (5 / 100) ≤ (vals "MAX_POSITION_PERCENT").float ∧
    (vals "MAX_POSITION_PERCENT").float ≤ nearest (40 / 100)
  sizing : nearest (5 / 100) ≤ (vals "MAX_POSITION_PERCENT_SIZING").float ∧
    (vals "MAX_POSITION_PERCENT_SIZING").float ≤ nearest (50 / 100)
  sell : (vals "SIGNAL_SELL_THRESHOLD").float ≤ nearest (45 / 100)
  buy : nearest (55 / 100) ≤ (vals "SIGNAL_BUY_THRESHOLD").float
  stop : nearest 1 ≤ (vals "STOP_LOSS_PCT").float ∧
    (vals "STOP_LOSS_PCT").float ≤ nearest (79 / 10)
  cut : nearest (-79 / 10) ≤ (vals "LOSS_CUT_PCT").float ∧ (vals "LOSS_CUT_PCT").float ≤ nearest (-1)
  escalation : nearest (-79 / 10) ≤ (vals "LOSS_ESCALATION_PCT").float ∧
    (vals "LOSS_ESCALATION_PCT").float ≤ nearest (-2)
  watch : nearest (-79 / 10) ≤ (vals "LOSS_WATCH_PCT").float ∧
    (vals "LOSS_WATCH_PCT").float ≤ nearest (-5 / 10)
  topK : ∃ n : ℤ, vals "ROUND_TABLE_TOP_K_EVAL" = .ganz n ∧ 10 ≤ n ∧ n ≤ 60
  zahlen : ∀ s ∈ register, s.kind = .float ∨ s.kind = .int → (vals s.key).istZahl = true
  double : ∀ s ∈ register, s.kind = .float → (vals s.key).double = (vals s.key).float

/-- The settings that the rules speak of. -/
def minPosition : Setting := zahlSetting "MIN_POSITION_PERCENT" (5 / 100) (1 / 100) (10 / 100) 2

def maxPosition : Setting := zahlSetting "MAX_POSITION_PERCENT" (25 / 100) (5 / 100) (40 / 100) 2

def maxSizing : Setting :=
  zahlSetting "MAX_POSITION_PERCENT_SIZING" (30 / 100) (5 / 100) (50 / 100) 2

def sellThreshold : Setting :=
  zahlSetting "SIGNAL_SELL_THRESHOLD" (35 / 100) (25 / 100) (45 / 100) 2

def buyThreshold : Setting := zahlSetting "SIGNAL_BUY_THRESHOLD" (73 / 100) (55 / 100) (75 / 100) 2

def stopLoss : Setting := zahlSetting "STOP_LOSS_PCT" 7 1 (79 / 10) 1

def lossCut : Setting := zahlSetting "LOSS_CUT_PCT" (-6) (-79 / 10) (-1) 1

def lossEscalation : Setting := zahlSetting "LOSS_ESCALATION_PCT" (-79 / 10) (-79 / 10) (-2) 1

def lossWatch : Setting := zahlSetting "LOSS_WATCH_PCT" (-3) (-79 / 10) (-5 / 10) 1

def topKEval : Setting := ganzSetting "ROUND_TABLE_TOP_K_EVAL" 60 10 60

/-- The settings the rules speak of stand in the register. -/
theorem geregelt_mem : ∀ s ∈ [minPosition, maxPosition, maxSizing, sellThreshold, buyThreshold,
    stopLoss, lossCut, lossEscalation, lossWatch, topKEval], s ∈ register := by
  decide +kernel

theorem minPosition_mem : minPosition ∈ register := geregelt_mem _ (by simp)

theorem maxPosition_mem : maxPosition ∈ register := geregelt_mem _ (by simp)

theorem maxSizing_mem : maxSizing ∈ register := geregelt_mem _ (by simp)

theorem sellThreshold_mem : sellThreshold ∈ register := geregelt_mem _ (by simp)

theorem buyThreshold_mem : buyThreshold ∈ register := geregelt_mem _ (by simp)

theorem stopLoss_mem : stopLoss ∈ register := geregelt_mem _ (by simp)

theorem lossCut_mem : lossCut ∈ register := geregelt_mem _ (by simp)

theorem lossEscalation_mem : lossEscalation ∈ register := geregelt_mem _ (by simp)

theorem lossWatch_mem : lossWatch ∈ register := geregelt_mem _ (by simp)

theorem topKEval_mem : topKEval ∈ register := geregelt_mem _ (by simp)

section

variable (cfg : Option Konfig) (updates : List (String × Roh))

/-- What is parsed of a number is within its bounds. -/
theorem eingaben_mem {s : Setting} {key : String} {lo hi : ℚ} (hs : s ∈ register)
    (hkind : s.kind = .float) (hkey : s.key = key) (hlo : s.lo = lo) (hhi : s.hi = hi) :
    lo ≤ (eingaben P cfg updates key).float ∧ (eingaben P cfg updates key).float ≤ hi := by
  subst hkey hlo hhi
  obtain ⟨q, hq, hbounds⟩ := eingaben_float P cfg updates hs hkind
  rw [hq]
  exact hbounds

theorem zahlSetting_mem {key : String} {default lo hi : ℚ} {d : ℕ}
    (hs : zahlSetting key default lo hi d ∈ register) :
    nearest lo ≤ (eingaben P cfg updates key).float ∧
      (eingaben P cfg updates key).float ≤ nearest hi :=
  eingaben_mem P cfg updates hs rfl rfl rfl rfl

theorem ganzSetting_mem {key : String} {default : ℤ} {lo hi : ℚ}
    (hs : ganzSetting key default lo hi ∈ register) :
    ∃ n : ℤ, eingaben P cfg updates key = .ganz n ∧ lo ≤ n ∧ n ≤ hi :=
  eingaben_int P cfg updates hs rfl

/-- What is parsed is within the bounds. -/
theorem inGrenzen_eingaben : InGrenzen (eingaben P cfg updates) where
  min := zahlSetting_mem P cfg updates minPosition_mem
  max := zahlSetting_mem P cfg updates maxPosition_mem
  sizing := zahlSetting_mem P cfg updates maxSizing_mem
  sell := (zahlSetting_mem P cfg updates sellThreshold_mem).2
  buy := (zahlSetting_mem P cfg updates buyThreshold_mem).1
  stop := zahlSetting_mem P cfg updates stopLoss_mem
  cut := zahlSetting_mem P cfg updates lossCut_mem
  escalation := zahlSetting_mem P cfg updates lossEscalation_mem
  watch := zahlSetting_mem P cfg updates lossWatch_mem
  topK := by
    obtain ⟨n, hn, hlo, hhi⟩ := ganzSetting_mem P cfg updates topKEval_mem
    exact ⟨n, hn, by exact_mod_cast hlo, by exact_mod_cast hhi⟩
  zahlen := by
    rintro s hs (hkind | hkind)
    · obtain ⟨q, hq, -⟩ := eingaben_float P cfg updates hs hkind
      rw [hq, Wert.istZahl]
    · obtain ⟨n, hn, -⟩ := eingaben_int P cfg updates hs hkind
      rw [hn, Wert.istZahl]
  double := by
    intro s hs hkind
    obtain ⟨q, hq, -⟩ := eingaben_float P cfg updates hs hkind
    rw [hq]
    rfl

end

/-! ## The numbers of the texts -/

section

variable {P} {positions : ℤ} {hard : ℚ} {vals : Werte}

theorem num_zahlSetting {key : String} {default lo hi : ℚ} {d : ℕ}
    (hs : zahlSetting key default lo hi d ∈ register) (h : (vals key).istZahl = true) :
    num (stand P vals) key =
      nearest (roundTo d (max (nearest lo) (min (nearest hi) (vals key).double))) :=
  num_float hs rfl h

theorem num_zahl {key : String} {default lo hi q : ℚ} {d : ℕ}
    (hs : zahlSetting key default lo hi d ∈ register) (h : vals key = .zahl q) :
    num (stand P vals) key = nearest (roundTo d (max (nearest lo) (min (nearest hi) q))) := by
  rw [num_zahlSetting hs (by rw [h, Wert.istZahl]), h]
  rfl

theorem num_ganzSetting {key : String} {default : ℤ} {lo hi : ℚ}
    (hs : ganzSetting key default lo hi ∈ register) (h : (vals key).istZahl = true) :
    num (stand P vals) key = roundHalfEven (max lo (min hi (vals key).double)) :=
  num_int hs rfl h

theorem klemme_of_mem {lo hi q : ℚ} (h : lo ≤ q) (h' : q ≤ hi) : max lo (min hi q) = q := by
  rw [min_eq_right h', max_eq_right h]

/-- A double is close to a number of moderate size. -/
theorem nearest_nah {x : ℚ} (h : |x| ≤ 2 ^ 4) :
    x - 1 / 10 ^ 12 ≤ nearest x ∧ nearest x ≤ x + 1 / 10 ^ 12 := by
  have herr := (abs_nearest_sub_le h).trans (by norm_num : (2 : ℚ) ^ 4 / 2 ^ 53 ≤ 1 / 10 ^ 12)
  obtain ⟨hlow, hhigh⟩ := abs_le.mp herr
  exact ⟨by linarith, by linarith⟩

/-- A hundredth lies below a weight. -/
theorem nearest_hundertstel : 99 / 10 ^ 4 ≤ nearest (1 / 100) ∧ nearest (1 / 100) ≤ 101 / 10 ^ 4 := by
  obtain ⟨hlow, hhigh⟩ := nearest_nah (x := 1 / 100) (by norm_num)
  exact ⟨by linarith, by linarith⟩

theorem nearest_zehntel : 99 / 10 ^ 3 ≤ nearest (1 / 10) ∧ nearest (1 / 10) ≤ 101 / 10 ^ 3 := by
  obtain ⟨hlow, hhigh⟩ := nearest_nah (x := 1 / 10) (by norm_num)
  exact ⟨by linarith, by linarith⟩

theorem nearest_fuenftel : 199 / 10 ^ 3 ≤ nearest (1 / 5) ∧ nearest (1 / 5) ≤ 201 / 10 ^ 3 := by
  obtain ⟨hlow, hhigh⟩ := nearest_nah (x := 1 / 5) (by norm_num)
  exact ⟨by linarith, by linarith⟩

/-- Numbers that are written with the same places compare like what they are rounded to. -/
theorem rund_lt_iff {d : ℕ} {x y : ℚ} (hd : d ≤ 4) (hx : |x| ≤ 2 ^ 17) (hy : |y| ≤ 2 ^ 17) :
    nearest (roundTo d x) < nearest (roundTo d y) ↔ roundTo d x < roundTo d y :=
  nearest_lt_nearest_iff (roundTo_nearest_roundTo hd hx) (roundTo_nearest_roundTo hd hy)

/-- A number between two settings' bounds is small. -/
theorem klein {x : ℚ} (h : -16 ≤ x) (h' : x ≤ 16) : |x| ≤ 2 ^ 17 :=
  abs_le.mpr ⟨by linarith, by linarith⟩

theorem platz_eq (hp : 1 ≤ positions) (hp' : positions ≤ 59) :
    platz positions = nearest (1 / positions) := by
  have habs : |(positions : ℚ)| ≤ 2 ^ 52 := by
    have hint : |positions| ≤ 2 ^ 52 := abs_le.mpr ⟨by omega, by omega⟩
    exact_mod_cast hint
  rw [platz, max_eq_right hp, nearest_intCast habs]

/-- With less than sixty places a position has more than a hundredth. -/
theorem hundertstel_le_platz (hp : 1 ≤ positions) (hp' : positions ≤ 59) :
    nearest (1 / 100) ≤ platz positions := by
  have hp1 : (1 : ℚ) ≤ positions := by exact_mod_cast hp
  have hp59 : (positions : ℚ) ≤ 59 := by exact_mod_cast hp'
  rw [platz_eq hp hp']
  refine nearest_mono ?_
  rw [div_le_div_iff₀ (by norm_num) (by linarith)]
  linarith

theorem hoechstens_mem (hg : InGrenzen vals) :
    nearest (5 / 100) ≤ hoechstens vals ∧ hoechstens vals ≤ nearest (40 / 100) :=
  ⟨le_min hg.max.1 hg.sizing.1, (min_le_left _ _).trans hg.max.2⟩

theorem sell_lt_buy (hg : InGrenzen vals) :
    (vals "SIGNAL_SELL_THRESHOLD").float < (vals "SIGNAL_BUY_THRESHOLD").float := by
  have hsell := (nearest_nah (x := 45 / 100) (by norm_num)).2
  have hbuy := (nearest_nah (x := 55 / 100) (by norm_num)).1
  linarith [hg.sell, hg.buy]

/-- The largest weight lies between 0.049 and 0.401. -/
theorem hoechstens_nah (hg : InGrenzen vals) :
    49 / 10 ^ 3 ≤ hoechstens vals ∧ hoechstens vals ≤ 401 / 10 ^ 3 := by
  obtain ⟨hlow, hhigh⟩ := hoechstens_mem hg
  have hfuenf := (nearest_nah (x := 5 / 100) (by norm_num)).1
  have hvierzig := (nearest_nah (x := 40 / 100) (by norm_num)).2
  exact ⟨by linarith, by linarith⟩

theorem hoechstens_sub (hg : InGrenzen vals) :
    max (nearest (1 / 100)) (nearest (hoechstens vals - nearest (1 / 100))) =
      nearest (hoechstens vals - nearest (1 / 100)) :=
  max_eq_right (nearest_mono (by linarith [(hoechstens_nah hg).1, nearest_hundertstel.2]))

/-- What is left below the largest weight. -/
theorem nah_hoechstens_sub (hg : InGrenzen vals) :
    hoechstens vals - 102 / 10 ^ 4 ≤ nearest (hoechstens vals - nearest (1 / 100)) ∧
      nearest (hoechstens vals - nearest (1 / 100)) ≤ hoechstens vals - 98 / 10 ^ 4 := by
  obtain ⟨hlow, hhigh⟩ := hoechstens_nah hg
  obtain ⟨hone, hone'⟩ := nearest_hundertstel
  obtain ⟨hnah, hnah'⟩ := nearest_nah (x := hoechstens vals - nearest (1 / 100))
    (abs_le.mpr ⟨by linarith, by linarith⟩)
  exact ⟨by linarith, by linarith⟩

/-- The least weight is at least a hundredth when the places are less than sixty. -/
theorem mindestens_mem (hg : InGrenzen vals) (hp : 1 ≤ positions) (hp' : positions ≤ 59) :
    nearest (1 / 100) ≤ mindestens positions vals ∧
      mindestens positions vals ≤ nearest (10 / 100) := by
  have hslot : mitSlot positions vals ≤ nearest (10 / 100) := (min_le_left _ _).trans hg.min.2
  rw [mindestens]
  split
  next hle =>
    rw [hoechstens_sub hg]
    refine ⟨?_, ?_⟩
    · rw [← hoechstens_sub hg]
      exact le_max_left _ _
    · exact (nah_hoechstens_sub hg).2.trans (by linarith [hle.trans hslot])
  next => exact ⟨le_min hg.min.1 (hundertstel_le_platz hp hp'), hslot⟩

theorem num_min (hg : InGrenzen vals) (hp : 1 ≤ positions) (hp' : positions ≤ 59) :
    num (stand P (crossClamp positions hard vals)) "MIN_POSITION_PERCENT" =
      nearest (roundTo 2 (mindestens positions vals)) := by
  obtain ⟨hlo, hhi⟩ := mindestens_mem hg hp hp'
  rw [num_zahl minPosition_mem crossClamp_min, klemme_of_mem hlo hhi]

theorem num_max (hg : InGrenzen vals) :
    num (stand P (crossClamp positions hard vals)) "MAX_POSITION_PERCENT" =
      nearest (roundTo 2 (hoechstens vals)) := by
  obtain ⟨hlo, hhi⟩ := hoechstens_mem hg
  rw [num_zahl maxPosition_mem crossClamp_max, klemme_of_mem hlo hhi]

theorem num_sizing (hg : InGrenzen vals) :
    num (stand P (crossClamp positions hard vals)) "MAX_POSITION_PERCENT_SIZING" =
      nearest (roundTo 2 (vals "MAX_POSITION_PERCENT_SIZING").float) := by
  have hsame : crossClamp positions hard vals "MAX_POSITION_PERCENT_SIZING" =
      vals "MAX_POSITION_PERCENT_SIZING" := crossClamp_of_notMem (by decide)
  have hzahl := hg.zahlen _ maxSizing_mem (.inl rfl)
  have hdouble : (vals "MAX_POSITION_PERCENT_SIZING").double =
      (vals "MAX_POSITION_PERCENT_SIZING").float := hg.double _ maxSizing_mem rfl
  rw [num_zahlSetting maxSizing_mem (by rw [hsame]; exact hzahl), hsame, hdouble,
    klemme_of_mem hg.sizing.1 hg.sizing.2]

theorem num_stop (hg : InGrenzen vals) (h : 2 < hard) :
    num (stand P (crossClamp positions hard vals)) "STOP_LOSS_PCT" =
      nearest (roundTo 1 (min (vals "STOP_LOSS_PCT").float
        (nearest (hard - nearest (1 / 10))))) := by
  have hlow : nearest 1 ≤ nearest (hard - nearest (1 / 10)) :=
    nearest_mono (by linarith [nearest_zehntel.2])
  rw [num_zahl stopLoss_mem crossClamp_stop,
    klemme_of_mem (le_min hg.stop.1 hlow) ((min_le_left _ _).trans hg.stop.2)]

theorem schnitt_mem (hg : InGrenzen vals) (h : 2 < hard) :
    nearest (-79 / 10) ≤ schnitt hard vals ∧ schnitt hard vals ≤ nearest (-1) :=
  ⟨hg.cut.1.trans (le_max_left _ _),
    max_le hg.cut.2 (nearest_mono (by linarith [nearest_fuenftel.2]))⟩

theorem num_cut (hg : InGrenzen vals) (h : 2 < hard) :
    num (stand P (crossClamp positions hard vals)) "LOSS_CUT_PCT" =
      nearest (roundTo 1 (schnitt hard vals)) := by
  obtain ⟨hlo, hhi⟩ := schnitt_mem hg h
  rw [num_zahl lossCut_mem crossClamp_cut, klemme_of_mem hlo hhi]

/-- The bounds of the losses in decimals. -/
theorem nearest_verluste : nearest (-79 / 10) = -4447304632028365 / 2 ^ 49 ∧ nearest (-2) = -2 ∧
    nearest (-1) = -1 ∧ nearest (-5 / 10) = -1 / 2 := by
  decide +kernel

/-- A tenth below the half between -7.8 and -7.9. -/
theorem nearest_unter_halb : roundTo 1 (nearest (-157 / 20 - nearest (1 / 10))) = -8 := by
  decide +kernel

theorem beobachtung_mem (hg : InGrenzen vals) (h : 2 < hard) :
    nearest (-79 / 10) ≤ beobachtung hard vals ∧ beobachtung hard vals ≤ nearest (-5 / 10) := by
  obtain ⟨-, hhi⟩ := schnitt_mem hg h
  obtain ⟨-, -, hone, -⟩ := nearest_verluste
  rw [hone] at hhi
  exact ⟨hg.watch.1.trans (le_max_left _ _),
    max_le hg.watch.2 (nearest_mono (by linarith [nearest_zehntel.2]))⟩

theorem num_watch (hg : InGrenzen vals) (h : 2 < hard) :
    num (stand P (crossClamp positions hard vals)) "LOSS_WATCH_PCT" =
      nearest (roundTo 1 (beobachtung hard vals)) := by
  obtain ⟨hlo, hhi⟩ := beobachtung_mem hg h
  rw [num_zahl lossWatch_mem crossClamp_watch, klemme_of_mem hlo hhi]

theorem num_escalation :
    num (stand P (crossClamp positions hard vals)) "LOSS_ESCALATION_PCT" =
      nearest (roundTo 1 (max (nearest (-79 / 10)) (min (nearest (-2)) (eskalation hard vals)))) :=
  num_zahl lossEscalation_mem crossClamp_escalation

/-! ## The rules that always hold -/

theorem max_le_sizing (hg : InGrenzen vals) :
    num (stand P (crossClamp positions hard vals)) "MAX_POSITION_PERCENT" ≤
      num (stand P (crossClamp positions hard vals)) "MAX_POSITION_PERCENT_SIZING" := by
  rw [num_max hg, num_sizing hg]
  exact nearest_mono (roundTo_mono (min_le_right _ _))

theorem roundTo_one_near (x : ℚ) : x - 1 / 20 ≤ roundTo 1 x ∧ roundTo 1 x ≤ x + 1 / 20 := by
  have hlow := sub_le_roundTo 1 x
  have hhigh := roundTo_le_add 1 x
  rw [pow_one] at hlow hhigh
  exact ⟨by linarith, by linarith⟩

/-- A number that is written with one place is not moved further than its rounding. -/
theorem rund_nah {x : ℚ} (h : -10 ≤ x) (h' : x ≤ 10) :
    x - 51 / 1000 ≤ nearest (roundTo 1 x) ∧ nearest (roundTo 1 x) ≤ x + 51 / 1000 := by
  obtain ⟨hlow, hhigh⟩ := roundTo_one_near x
  obtain ⟨hnah, hnah'⟩ := nearest_nah (x := roundTo 1 x) (abs_le.mpr ⟨by linarith, by linarith⟩)
  exact ⟨by linarith, by linarith⟩

theorem stop_lt_hard (hg : InGrenzen vals) (h : 2 < hard) :
    num (stand P (crossClamp positions hard vals)) "STOP_LOSS_PCT" < hard := by
  have htop := (nearest_nah (x := 79 / 10) (by norm_num)).2
  have hone : nearest 1 = 1 := by simpa using nearest_intCast (m := 1) (by norm_num)
  have hstop := hg.stop
  rw [num_stop hg h]
  rcases le_or_gt 8 hard with hdeep | hflat
  · have hle := (min_le_left (vals "STOP_LOSS_PCT").float
      (nearest (hard - nearest (1 / 10)))).trans hstop.2
    have hround : roundTo 1 (nearest (79 / 10)) = 79 / 10 :=
      roundTo_nearest (n := 3) (k := 79) (by norm_num) (by norm_num) (by norm_num)
    have hwritten : nearest (roundTo 1 (nearest (79 / 10))) < 8 := by
      rw [hround]
      linarith
    exact ((nearest_mono (roundTo_mono hle)).trans_lt hwritten).trans_le hdeep
  · obtain ⟨hzehn, hzehn'⟩ := nearest_zehntel
    obtain ⟨hnah, hnah'⟩ := nearest_nah (x := hard - nearest (1 / 10))
      (abs_le.mpr ⟨by linarith, by linarith⟩)
    have hlow : 1 ≤ min (vals "STOP_LOSS_PCT").float (nearest (hard - nearest (1 / 10))) :=
      le_min (hone ▸ hstop.1) (by linarith)
    have hmin := min_le_right (vals "STOP_LOSS_PCT").float (nearest (hard - nearest (1 / 10)))
    linarith [(rund_nah (by linarith) (hmin.trans (by linarith))).2]

/-- The escalation stays above the hard stop, also after rounding. -/
theorem hard_lt_escalation (h : 2 < hard) :
    -hard < num (stand P (crossClamp positions hard vals)) "LOSS_ESCALATION_PCT" := by
  obtain ⟨hlow, htwo, -⟩ := nearest_verluste
  rw [num_escalation]
  rcases le_or_gt 8 hard with hdeep | hflat
  · have hle := le_max_left (nearest (-79 / 10)) (min (nearest (-2)) (eskalation hard vals))
    have hround : roundTo 1 (nearest (-79 / 10)) = -79 / 10 :=
      roundTo_nearest (n := 3) (k := -79) (by norm_num) (by norm_num) (by norm_num)
    have hwritten : -8 < nearest (roundTo 1 (nearest (-79 / 10))) := by
      rw [hround, hlow]
      norm_num
    linarith [nearest_mono (roundTo_mono (n := 1) hle)]
  · obtain ⟨hzehn, hzehn'⟩ := nearest_zehntel
    obtain ⟨hnah, hnah'⟩ := nearest_nah (x := -hard + nearest (1 / 10))
      (abs_le.mpr ⟨by linarith, by linarith⟩)
    have hesc : nearest (-hard + nearest (1 / 10)) ≤ eskalation hard vals := le_max_right _ _
    rcases le_or_gt (eskalation hard vals) (nearest (-2)) with hle | hgt
    · rw [min_eq_right hle]
      rw [htwo] at hle
      have hmax := le_max_right (nearest (-79 / 10)) (eskalation hard vals)
      have hmax' : max (nearest (-79 / 10)) (eskalation hard vals) ≤ -2 :=
        max_le (by rw [hlow]; norm_num) hle
      linarith [(rund_nah (by linarith) (hmax'.trans (by norm_num))).1]
    · have hround : roundTo 1 (nearest (-2)) = -2 :=
        roundTo_nearest (n := 3) (k := -20) (by norm_num) (by norm_num) (by norm_num)
      have hwritten : nearest (roundTo 1 (max (nearest (-79 / 10)) (nearest (-2)))) = -2 := by
        rw [max_eq_right (nearest_mono (by norm_num)), hround, htwo]
      rw [min_eq_left hgt.le, hwritten]
      linarith

/-- The rules leave numbers where numbers were. -/
theorem istZahl_crossClamp (hg : InGrenzen vals) {s : Setting} (hs : s ∈ register)
    (hkind : s.kind = .float ∨ s.kind = .int) :
    (crossClamp positions hard vals s.key).istZahl = true := by
  by_cases hmem : s.key ∈ betroffen
  · simp only [betroffen, List.mem_cons, List.not_mem_nil, or_false] at hmem
    have hsell := sell_lt_buy hg
    obtain ⟨n, hn, -⟩ := hg.topK
    rcases hmem with h | h | h | h | h | h | h | h <;> rw [h]
    · rw [crossClamp_min, Wert.istZahl]
    · rw [crossClamp_max, Wert.istZahl]
    · rw [crossClamp_sell hsell, ← h]
      exact hg.zahlen s hs hkind
    · rw [crossClamp_stop, Wert.istZahl]
    · rw [crossClamp_cut, Wert.istZahl]
    · rw [crossClamp_escalation, Wert.istZahl]
    · rw [crossClamp_watch, Wert.istZahl]
    · exact (crossClamp_topK (by rw [hn, Wert.istZahl])).1
  · rw [crossClamp_of_notMem hmem]
    exact hg.zahlen s hs hkind

/-- Every number of the texts is within its bounds. -/
theorem grenzen_crossClamp (hg : InGrenzen vals) {s : Setting} (hs : s ∈ register)
    (hkind : s.kind = .float ∨ s.kind = .int) :
    ∃ q, zahlVon (stand P (crossClamp positions hard vals)) s.key = some q ∧
      s.lo ≤ q ∧ q ≤ s.hi := by
  rw [stand, zahlVon_map hs]
  exact lies_canonicalText P (register_stimmt s hs) hkind (istZahl_crossClamp hg hs hkind)

variable (P positions hard) in
theorem num_mem (hg : InGrenzen vals) {s : Setting} {key : String} {lo hi : ℚ} (hs : s ∈ register)
    (hkind : s.kind = .float ∨ s.kind = .int) (hkey : s.key = key) (hlo : s.lo = lo)
    (hhi : s.hi = hi) :
    lo ≤ num (stand P (crossClamp positions hard vals)) key ∧
      num (stand P (crossClamp positions hard vals)) key ≤ hi := by
  subst hkey hlo hhi
  obtain ⟨q, hq, hbounds⟩ :
      ∃ q, zahlVon (stand P (crossClamp positions hard vals)) s.key = some q ∧
        s.lo ≤ q ∧ q ≤ s.hi := grenzen_crossClamp hg hs hkind
  rw [num, hq]
  exact hbounds

variable (P positions hard) in
theorem sell_mem (hg : InGrenzen vals) :
    nearest (25 / 100) ≤ num (stand P (crossClamp positions hard vals)) "SIGNAL_SELL_THRESHOLD" ∧
      num (stand P (crossClamp positions hard vals)) "SIGNAL_SELL_THRESHOLD" ≤
        nearest (45 / 100) :=
  num_mem P positions hard hg sellThreshold_mem (.inl rfl) rfl rfl rfl

variable (P positions hard) in
theorem buy_mem (hg : InGrenzen vals) :
    nearest (55 / 100) ≤ num (stand P (crossClamp positions hard vals)) "SIGNAL_BUY_THRESHOLD" ∧
      num (stand P (crossClamp positions hard vals)) "SIGNAL_BUY_THRESHOLD" ≤
        nearest (75 / 100) :=
  num_mem P positions hard hg buyThreshold_mem (.inl rfl) rfl rfl rfl

/-! ## The rules that may fail -/

/-- More names are debated than there are places as long as that is allowed. -/
theorem lt_topK_iff (hg : InGrenzen vals) :
    positions < num (stand P (crossClamp positions hard vals)) "ROUND_TABLE_TOP_K_EVAL" ↔
      positions ≤ 59 := by
  constructor
  · intro h
    have hhi := (num_mem P positions hard hg topKEval_mem (.inr rfl) rfl rfl rfl).2
    have hlt : (positions : ℚ) < (60 : ℤ) := h.trans_le (by exact_mod_cast hhi)
    have hint : positions < 60 := by exact_mod_cast hlt
    omega
  · intro h
    obtain ⟨n, hn, hlo, hhi⟩ := hg.topK
    obtain ⟨hzahl, hdouble⟩ :
        (crossClamp positions hard vals "ROUND_TABLE_TOP_K_EVAL").istZahl = true ∧
          (crossClamp positions hard vals "ROUND_TABLE_TOP_K_EVAL").double =
            debattiert positions vals := crossClamp_topK (by rw [hn, Wert.istZahl])
    have hganz {m : ℤ} (hm : 10 ≤ m) (hm' : m ≤ 60) : nearest (m : ℚ) = m := by
      refine nearest_intCast (abs_le.mpr ⟨?_, ?_⟩)
      · linarith [show (10 : ℚ) ≤ m by exact_mod_cast hm]
      · linarith [show (m : ℚ) ≤ 60 by exact_mod_cast hm']
    have hnext : ((positions + 1 : ℤ) : ℚ) ≤ debattiert positions vals := by
      rw [debattiert, hn, Wert.float, Wert.double]
      split
      next hle =>
        have hint : n ≤ positions := by exact_mod_cast hle
        rw [hganz (by omega) (by omega)]
      next hlt =>
        have hint : positions < n := by exact_mod_cast not_le.mp hlt
        rw [hganz hlo hhi]
        exact_mod_cast hint
    have htop : ((positions + 1 : ℤ) : ℚ) ≤ max 10 (min 60 (debattiert positions vals)) :=
      le_max_of_le_right (le_min (by exact_mod_cast (by omega : positions + 1 ≤ 60)) hnext)
    rw [num_ganzSetting topKEval_mem hzahl, hdouble]
    exact_mod_cast Int.lt_of_add_one_le (le_roundHalfEven htop)

/-- The least weight fits into a book of equal weights unless the rounding lifts it. -/
theorem slot_iff (hg : InGrenzen vals) (hp : 1 ≤ positions) (hp' : positions ≤ 59) :
    num (stand P (crossClamp positions hard vals)) "MIN_POSITION_PERCENT" ≤ platz positions ↔
      hoechstens vals ≤ mitSlot positions vals ∨
        nearest (roundTo 2 (platz positions)) ≤ platz positions ∨
        roundTo 2 (vals "MIN_POSITION_PERCENT").float < roundTo 2 (platz positions) := by
  rw [num_min hg hp hp', mindestens]
  split
  next hle =>
    have hround := roundTo_le_add 2 (nearest (hoechstens vals - nearest (1 / 100)))
    have hround' := sub_le_roundTo 2 (nearest (hoechstens vals - nearest (1 / 100)))
    obtain ⟨hlow, hhigh⟩ := hoechstens_nah hg
    obtain ⟨hsub, hsub'⟩ := nah_hoechstens_sub hg
    obtain ⟨-, hnah⟩ := nearest_nah (x := roundTo 2 (nearest (hoechstens vals - nearest (1 / 100))))
      (abs_le.mpr ⟨by linarith, by linarith⟩)
    have hslot : mitSlot positions vals ≤ platz positions := min_le_right _ _
    rw [hoechstens_sub hg]
    refine iff_of_true ?_ (.inl hle)
    linarith
  next hlt =>
    rw [or_iff_right hlt, mitSlot, roundTo_min, nearest_min]
    constructor
    · intro h
      by_cases hone : nearest (roundTo 2 (platz positions)) ≤ platz positions
      · exact .inl hone
      · have hmin := (min_le_iff.mp h).resolve_right hone
        exact .inr (not_le.mp fun hle => hone ((nearest_mono hle).trans hmin))
    · rintro (h | h)
      · exact (min_le_right _ _).trans h
      · have hgap := roundTo_add_le h
        have hup := roundTo_le_add 2 (platz positions)
        have hlow := sub_le_roundTo 2 (vals "MIN_POSITION_PERCENT").float
        have hmin := nearest_hundertstel.1.trans hg.min.1
        have htop := (nearest_nah (x := 10 / 100) (by norm_num)).2
        have hupper := roundTo_le_add 2 (vals "MIN_POSITION_PERCENT").float
        obtain ⟨-, hnah⟩ := nearest_nah (x := roundTo 2 (vals "MIN_POSITION_PERCENT").float)
          (abs_le.mpr ⟨by linarith, by linarith [hg.min.2]⟩)
        refine (min_le_left _ _).trans ?_
        linarith

/-- The least weight stays below the largest unless both round to one number. -/
theorem min_lt_max_iff (hg : InGrenzen vals) (hp : 1 ≤ positions) (hp' : positions ≤ 59) :
    num (stand P (crossClamp positions hard vals)) "MIN_POSITION_PERCENT" <
        num (stand P (crossClamp positions hard vals)) "MAX_POSITION_PERCENT" ↔
      if hoechstens vals ≤ mitSlot positions vals then
        roundTo 2 (nearest (hoechstens vals - nearest (1 / 100))) < roundTo 2 (hoechstens vals)
      else roundTo 2 (mitSlot positions vals) < roundTo 2 (hoechstens vals) := by
  obtain ⟨hlow, hhigh⟩ := hoechstens_nah hg
  obtain ⟨hmin, hmin'⟩ := mindestens_mem hg hp hp'
  have htop := (nearest_nah (x := 10 / 100) (by norm_num)).2
  have hone := nearest_hundertstel.1
  rw [num_min hg hp hp', num_max hg, rund_lt_iff (by norm_num) (klein (by linarith) (by linarith))
    (klein (by linarith) (by linarith)), mindestens]
  split
  next => rw [hoechstens_sub hg]
  next => rfl

/-- The escalation that is written, within its bounds. -/
theorem escalation_mem : nearest (-79 / 10) ≤
      max (nearest (-79 / 10)) (min (nearest (-2)) (eskalation hard vals)) ∧
    max (nearest (-79 / 10)) (min (nearest (-2)) (eskalation hard vals)) ≤ nearest (-2) := by
  obtain ⟨hlow, htwo, -⟩ := nearest_verluste
  exact ⟨le_max_left _ _, max_le (by rw [hlow, htwo]; norm_num) (min_le_left _ _)⟩

theorem escalation_lt_cut_iff (hg : InGrenzen vals) (h : 2 < hard) :
    num (stand P (crossClamp positions hard vals)) "LOSS_ESCALATION_PCT" <
        num (stand P (crossClamp positions hard vals)) "LOSS_CUT_PCT" ↔
      -79 / 10 < roundTo 1 (schnitt hard vals) ∧
        (-2 < roundTo 1 (schnitt hard vals) ∨
          (roundTo 1 (vals "LOSS_ESCALATION_PCT").float < roundTo 1 (schnitt hard vals) ∨
            roundTo 1 (nearest (schnitt hard vals - nearest (1 / 10))) <
              roundTo 1 (schnitt hard vals)) ∧
            roundTo 1 (nearest (-hard + nearest (1 / 10))) < roundTo 1 (schnitt hard vals)) := by
  have hround : roundTo 1 (nearest (-79 / 10)) = -79 / 10 :=
    roundTo_nearest (n := 3) (k := -79) (by norm_num) (by norm_num) (by norm_num)
  have hround' : roundTo 1 (nearest (-2)) = -2 :=
    roundTo_nearest (n := 3) (k := -20) (by norm_num) (by norm_num) (by norm_num)
  obtain ⟨hlow, htwo, hone, -⟩ := nearest_verluste
  obtain ⟨hesc, hesc'⟩ := @escalation_mem hard vals
  obtain ⟨hcut, hcut'⟩ := schnitt_mem hg h
  have hsmall : |schnitt hard vals| ≤ 2 ^ 17 := by
    rw [hlow] at hcut
    rw [hone] at hcut'
    exact klein (by linarith) (by linarith)
  have hsmall' : |max (nearest (-79 / 10)) (min (nearest (-2)) (eskalation hard vals))| ≤ 2 ^ 17 := by
    have hdeep : -16 ≤ nearest (-79 / 10) := by rw [hlow]; norm_num
    have hhigh : nearest (-2) ≤ 16 := by rw [htwo]; norm_num
    exact klein (hdeep.trans hesc) (hesc'.trans hhigh)
  rw [num_escalation, num_cut hg h, rund_lt_iff (by norm_num) hsmall' hsmall, eskalation,
    roundTo_max, roundTo_min, roundTo_max, roundTo_min, hround, hround', max_lt_iff, min_lt_iff,
    max_lt_iff, min_lt_iff]

theorem cut_lt_watch_iff (hg : InGrenzen vals) (h : 2 < hard) :
    num (stand P (crossClamp positions hard vals)) "LOSS_CUT_PCT" <
        num (stand P (crossClamp positions hard vals)) "LOSS_WATCH_PCT" ↔
      roundTo 1 (schnitt hard vals) < roundTo 1 (vals "LOSS_WATCH_PCT").float ∨
        roundTo 1 (schnitt hard vals) <
          roundTo 1 (nearest (schnitt hard vals + nearest (1 / 10))) := by
  obtain ⟨hlow, -, hone, hhalf⟩ := nearest_verluste
  obtain ⟨hcut, hcut'⟩ := schnitt_mem hg h
  obtain ⟨hwatch, hwatch'⟩ := beobachtung_mem hg h
  rw [hlow] at hwatch hcut
  rw [hone] at hcut'
  rw [hhalf] at hwatch'
  have hsmall : |schnitt hard vals| ≤ 2 ^ 17 := klein (by linarith) (by linarith)
  have hsmall' : |beobachtung hard vals| ≤ 2 ^ 17 := klein (by linarith) (by linarith)
  rw [num_cut hg h, num_watch hg h, rund_lt_iff (by norm_num) hsmall hsmall', beobachtung,
    roundTo_max, lt_max_iff]

theorem hard_lt_escalation_iff (hg : InGrenzen vals) :
    -hard < num (stand P (crossClamp positions hard vals)) "LOSS_ESCALATION_PCT" ↔ 2 < hard := by
  refine ⟨fun h => ?_, hard_lt_escalation⟩
  have hhi := (num_mem P positions hard hg lossEscalation_mem (.inl rfl) rfl rfl rfl).2
  have htwo : num (stand P (crossClamp positions hard vals)) "LOSS_ESCALATION_PCT" ≤ -2 :=
    nearest_verluste.2.1 ▸ hhi
  linarith

end

/-! ## Confirmed settings -/

/-- What a request may ask for so that the rules survive the writing, with `slot` the double of
one over the places.  `minimum`, `escalation` and `watch` are the numbers asked for, `maximum`
is the smaller one of the two largest weights, and `cut` the loss at which is sold, a fifth
above the hard stop at the lowest. -/
structure Vertraeglich (positions : ℤ) (slot hard minimum maximum cut escalation watch : ℚ) :
    Prop where
  plaetze : positions ≤ 59
  hard_stop : 2 < hard
  platz : maximum ≤ min minimum slot ∨ nearest (roundTo 2 slot) ≤ slot ∨
    roundTo 2 minimum < roundTo 2 slot
  gewichte : if maximum ≤ min minimum slot then
      roundTo 2 (nearest (maximum - nearest (1 / 100))) < roundTo 2 maximum
    else roundTo 2 (min minimum slot) < roundTo 2 maximum
  untergrenze : -79 / 10 < roundTo 1 cut
  eskalation : -2 < roundTo 1 cut ∨
    (roundTo 1 escalation < roundTo 1 cut ∨
      roundTo 1 (nearest (cut - nearest (1 / 10))) < roundTo 1 cut) ∧
      roundTo 1 (nearest (-hard + nearest (1 / 10))) < roundTo 1 cut
  watch : roundTo 1 cut < roundTo 1 watch ∨
    roundTo 1 cut < roundTo 1 (nearest (cut + nearest (1 / 10)))

def gefordert (cfg : Option Konfig) (updates : List (String × Roh)) (key : String) : ℚ :=
  (eingaben P cfg updates key).float

theorem applyUpdates_eq_stand {cfg : Option Konfig} {updates : List (String × Roh)}
    {res : List (String × String)} (h : applyUpdates P cfg updates = .ok res) :
    res = stand P (crossClamp (positionen cfg) (hardStop cfg) (eingaben P cfg updates)) := by
  rw [applyUpdates] at h
  split at h
  next => cases h
  next =>
    split at h
    next => cases h
    next => exact (Except.ok.inj h).symm

theorem ueberlauf_of_ok {P : Python} {cfg : Option Konfig} {updates : List (String × Roh)}
    {res : List (String × String)} (h : applyUpdates P cfg updates = .ok res) :
    ueberlauf cfg updates = false := by
  rw [applyUpdates] at h
  split at h
  next => cases h
  next =>
    split at h
    next => cases h
    next hnot => exact Bool.eq_false_iff.mpr hnot

/-- An update of settings whose whole numbers are not too large does not raise. -/
theorem applyUpdates_of_bekannt {cfg : Option Konfig} {updates : List (String × Roh)}
    (h : ∀ u ∈ updates, u.1 ∈ register.map Setting.key) (h' : ueberlauf cfg updates = false) :
    applyUpdates P cfg updates =
      .ok (stand P (crossClamp (positionen cfg) (hardStop cfg) (eingaben P cfg updates))) := by
  have hunknown : (updates.map Prod.fst).filter (· ∉ register.map Setting.key) = [] := by
    refine List.filter_eq_nil_iff.mpr fun key hkey => ?_
    obtain ⟨u, hu, rfl⟩ := List.mem_map.mp hkey
    simpa using h u hu
  rw [applyUpdates, hunknown, if_neg (not_not.mpr rfl), h', if_neg Bool.false_ne_true]
  rfl

/-- Confirmed settings are consistent exactly when the rules survive the writing. -/
theorem applyUpdates_iff {cfg : Option Konfig} {updates : List (String × Roh)}
    {res : List (String × String)} (hp : 1 ≤ positionen cfg)
    (h : applyUpdates P cfg updates = .ok res) :
    Konsistent (positionen cfg) (hardStop cfg) res ↔
      Vertraeglich (positionen cfg) (platz (positionen cfg)) (hardStop cfg)
        (gefordert P cfg updates "MIN_POSITION_PERCENT")
        (min (gefordert P cfg updates "MAX_POSITION_PERCENT")
          (gefordert P cfg updates "MAX_POSITION_PERCENT_SIZING"))
        (max (gefordert P cfg updates "LOSS_CUT_PCT") (nearest (-hardStop cfg + nearest (1 / 5))))
        (gefordert P cfg updates "LOSS_ESCALATION_PCT")
        (gefordert P cfg updates "LOSS_WATCH_PCT") := by
  have hg := inGrenzen_eingaben P cfg updates
  have hslot (hp' : positionen cfg ≤ 59) := @slot_iff P _ (hardStop cfg) _ hg hp hp'
  have hgewichte (hp' : positionen cfg ≤ 59) := @min_lt_max_iff P _ (hardStop cfg) _ hg hp hp'
  rw [applyUpdates_eq_stand P h]
  constructor
  · intro hk
    have hp' := (lt_topK_iff hg).mp hk.topK
    have hhard := (hard_lt_escalation_iff hg).mp hk.hard_lt_escalation
    obtain ⟨hlow, hesc⟩ := (escalation_lt_cut_iff hg hhard).mp hk.escalation_lt_cut
    exact ⟨hp', hhard, (hslot hp').mp hk.slot, (hgewichte hp').mp hk.min_lt_max,
      hlow, hesc, (cut_lt_watch_iff hg hhard).mp hk.cut_lt_watch⟩
  · intro hv
    have hp' := hv.plaetze
    have hhard := hv.hard_stop
    obtain ⟨hsell, hsell'⟩ := sell_mem P (positionen cfg) (hardStop cfg) hg
    obtain ⟨hbuy, hbuy'⟩ := buy_mem P (positionen cfg) (hardStop cfg) hg
    exact
      { grenzen := fun s hs hkind => grenzen_crossClamp hg hs hkind
        slot := (hslot hp').mpr hv.platz
        min_lt_max := (hgewichte hp').mpr hv.gewichte
        max_le_sizing := max_le_sizing hg
        sell_pos := by linarith [(nearest_nah (x := 25 / 100) (by norm_num)).1]
        sell_lt_buy := by
          linarith [(nearest_nah (x := 45 / 100) (by norm_num)).2,
            (nearest_nah (x := 55 / 100) (by norm_num)).1]
        buy_lt_one := by linarith [(nearest_nah (x := 75 / 100) (by norm_num)).2]
        stop := stop_lt_hard hg hhard
        hard_lt_escalation := hard_lt_escalation hhard
        escalation_lt_cut := (escalation_lt_cut_iff hg hhard).mpr ⟨hv.untergrenze, hv.eskalation⟩
        cut_lt_watch := (cut_lt_watch_iff hg hhard).mpr hv.watch
        topK := (lt_topK_iff hg).mpr hp' }

def schlicht : Python := { float := fun _ => none, stripLower := id }

/-- With no configuration and no update the settings are consistent. -/
theorem voreinstellung_konsistent :
    ∃ res, applyUpdates schlicht none [] = .ok res ∧
      Konsistent (positionen none) (hardStop none) res := by
  have happly : applyUpdates schlicht none [] = .ok _ :=
    applyUpdates_of_bekannt schlicht (fun _ hu => absurd hu List.not_mem_nil) (by decide +kernel)
  refine ⟨_, happly, (applyUpdates_iff schlicht (by decide) happly).mpr ?_⟩
  have hmin : gefordert schlicht none [] "MIN_POSITION_PERCENT" = nearest (5 / 100) := by
    decide +kernel
  have hmax : gefordert schlicht none [] "MAX_POSITION_PERCENT" = nearest (25 / 100) := by
    decide +kernel
  have hsizing : gefordert schlicht none [] "MAX_POSITION_PERCENT_SIZING" = nearest (30 / 100) := by
    decide +kernel
  have hcut : gefordert schlicht none [] "LOSS_CUT_PCT" = -6 := by decide +kernel
  have hesc : gefordert schlicht none [] "LOSS_ESCALATION_PCT" = nearest (-79 / 10) := by
    decide +kernel
  have hwatch : gefordert schlicht none [] "LOSS_WATCH_PCT" = -3 := by decide +kernel
  rw [hmin, hmax, hsizing, hcut, hesc, hwatch]
  exact
    { plaetze := by decide
      hard_stop := by decide +kernel
      platz := by decide +kernel
      gewichte := by decide +kernel
      untergrenze := by decide +kernel
      eskalation := by decide +kernel
      watch := by decide +kernel }

def vierzig : Option Konfig :=
  some { attr := fun _ => none, fullUniverseMaxPositions := some 40, hardStopLossPct := some (-8) }

/-- With forty places the least weight is written as 0.03, since the double of a fortieth lies
above it: more than a place of the book. -/
theorem vierzig_zu_viel : 1 ≤ positionen vierzig ∧
    ∃ res, applyUpdates schlicht vierzig [] = .ok res ∧
      ¬Konsistent (positionen vierzig) (hardStop vierzig) res := by
  have happly : applyUpdates schlicht vierzig [] = .ok _ :=
    applyUpdates_of_bekannt schlicht (fun _ hu => absurd hu List.not_mem_nil) (by decide +kernel)
  refine ⟨by decide, _, happly, fun hk => ?_⟩
  have hg := inGrenzen_eingaben schlicht vierzig []
  have hslot := (slot_iff hg (by decide) (by decide)).mp hk.slot
  exact absurd hslot (by decide +kernel)

end Einstellungen
