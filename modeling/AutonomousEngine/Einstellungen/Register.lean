import AutonomousEngine.Basis.Binary64
import AutonomousEngine.Basis.Decimals
import AutonomousEngine.Basis.ExtRat
import AutonomousEngine.Basis.JsonDict

/-!
# The register of trading settings

Every setting has a kind, bounds and a text of its own.  What a request sends for it is
parsed: cut to the bounds, or replaced by the default when it is not usable.  What goes
to the audit chain is its canonical text, a number with the decimal places of the
setting.  The number that the text writes lies within the bounds again
(`lies_canonicalText`), since these are multiples of the last place.

A float is the number of its double.  A literal and the result of an operation are
rounded to doubles.
-/

namespace Einstellungen

open Basis

/-! ## Settings -/

inductive Art where
  | float
  | int
  | bool
  | enum
deriving DecidableEq

/-- A parsed value. -/
inductive Wert where
  | zahl (q : ℚ)
  | ganz (n : ℤ)
  | bool (b : Bool)
  | text (s : String)
deriving DecidableEq

/-- A value as it comes from a request or the configuration, one of another type as the
text that `str` makes of it. -/
inductive Roh where
  | zahl (x : ExtRat)
  | ganz (n : ℤ)
  | bool (b : Bool)
  | text (s : String)
  | anderes (s : String)

/-- A setting with its default and its bounds. -/
structure Setting where
  key : String
  kind : Art
  default : Wert
  lo : ℚ := 0
  hi : ℚ := 0
  decimals : ℕ := 2
  choices : List String := []
deriving DecidableEq

def zahlSetting (key : String) (default lo hi : ℚ) (decimals : ℕ) : Setting :=
  { key := key, kind := .float, default := .zahl (nearest default), lo := nearest lo, hi := nearest hi
    decimals := decimals }

def ganzSetting (key : String) (default : ℤ) (lo hi : ℚ) : Setting :=
  { key := key, kind := .int, default := .ganz default, lo := lo, hi := hi }

def schalter (key : String) (default : Bool) : Setting :=
  { key := key, kind := .bool, default := .bool default }

def wahl (key default : String) (choices : List String) : Setting :=
  { key := key, kind := .enum, default := .text default, choices := choices }

def maxDailyTradesCeiling : ℚ := 50

def maxOrderValueCeiling : ℚ := 100000

def register : List Setting :=
  [zahlSetting "MOMENTUM_AGENT_WEIGHT" (45 / 100) 0 (15 / 10) 2,
    zahlSetting "LSTM_SIGNAL_WEIGHT" (15 / 100) (15 / 100) (15 / 10) 2,
    zahlSetting "VIX_RISK_WEIGHT" (45 / 100) (10 / 100) (15 / 10) 2,
    zahlSetting "SPECIALIST_ALPHA_WEIGHT" (15 / 100) 0 2 2,
    zahlSetting "NEWS_SENTIMENT_WEIGHT" (20 / 100) (10 / 100) (15 / 10) 2,
    zahlSetting "UPSIDE_SKEW_WEIGHT" (30 / 100) (10 / 100) (15 / 10) 2,
    zahlSetting "TREND_AGENT_WEIGHT" 0 0 (15 / 10) 2,
    zahlSetting "VOLUME_CONFIRM_AGENT_WEIGHT" 0 0 (15 / 10) 2,
    zahlSetting "RL_CONFIDENCE_WEIGHT" 0 0 (15 / 10) 2,
    zahlSetting "FUNDAMENTALS_AGENT_WEIGHT" (25 / 100) 0 (15 / 10) 2,
    zahlSetting "VALUATION_AGENT_WEIGHT" 0 0 (15 / 10) 2,
    zahlSetting "QUALITY_AGENT_WEIGHT" (30 / 100) (10 / 100) (15 / 10) 2,
    schalter "MOMENTUM_AGENT_ENABLED" true,
    schalter "LSTM_SIGNAL_AGENT_ENABLED" true,
    schalter "SPECIALIST_ALPHA_AGENT_ENABLED" true,
    schalter "NEWS_SENTIMENT_AGENT_ENABLED" true,
    schalter "VIX_RISK_AGENT_ENABLED" true,
    schalter "UPSIDE_SKEW_AGENT_ENABLED" false,
    schalter "TREND_AGENT_ENABLED" false,
    schalter "VOLUME_CONFIRM_AGENT_ENABLED" false,
    schalter "QUALITY_AGENT_ENABLED" false,
    schalter "DRAWDOWN_GUARD_AGENT_ENABLED" true,
    schalter "REGIME_DETECTION_AGENT_ENABLED" true,
    schalter "FUNDAMENTALS_AGENT_ENABLED" true,
    schalter "VALUATION_AGENT_ENABLED" true,
    schalter "RL_CONFIDENCE_AGENT_ENABLED" true,
    zahlSetting "SIGNAL_BUY_THRESHOLD" (73 / 100) (55 / 100) (75 / 100) 2,
    zahlSetting "SIGNAL_SELL_THRESHOLD" (35 / 100) (25 / 100) (45 / 100) 2,
    schalter "ROTATION_EXIT_ENABLED" false,
    ganzSetting "ROTATION_MAX_EXITS_PER_CYCLE" 1 0 5,
    ganzSetting "ROTATION_MAX_EXITS_PER_SESSION" 2 0 10,
    ganzSetting "ROTATION_PANEL_MAX_AGE_DAYS" 3 1 10,
    schalter "DISPLACEMENT_ENABLED" true,
    ganzSetting "DISPLACEMENT_MAX_PER_SESSION" 2 0 10,
    zahlSetting "CONSENSUS_RETENTION_THRESHOLD" 0 0 (65 / 100) 2,
    wahl "EXIT_TRAIL_PROFILE" "midterm" ["midterm", "legacy"],
    ganzSetting "GLOBAL_BUY_COOLDOWN_MINUTES" 30 0 240,
    ganzSetting "MAX_BUYS_PER_HOUR" 2 1 12,
    ganzSetting "NO_BUY_OPENING_MINUTES" 30 0 120,
    ganzSetting "REENTRY_LOCKOUT_DAYS" 1 0 10,
    ganzSetting "STOP_EXIT_SLOT_HOLD_DAYS" 1 0 10,
    schalter "EARNINGS_GUARD_ENABLED" false,
    ganzSetting "EARNINGS_GUARD_POST_DAYS" 2 0 10,
    ganzSetting "EARNINGS_GUARD_PRE_DAYS" 0 0 10,
    schalter "REGIME_THROTTLE_ENABLED" true,
    ganzSetting "REGIME_RISKOFF_PERCENTILE" 75 50 95,
    zahlSetting "REGIME_THROTTLE_SIZE_FACTOR" (5 / 10) (1 / 10) 1 2,
    schalter "FULL_UNIVERSE_TRADING_ENABLED" true,
    ganzSetting "ROUND_TABLE_TOP_K_EVAL" 60 10 60,
    schalter "BROKER_STOPS_ENABLED" true,
    zahlSetting "STOP_LOSS_PCT" 7 1 (79 / 10) 1,
    schalter "PANIC_PROTECTION_ENABLED" true,
    zahlSetting "PANIC_PROTECTION_HOURS" 2 (5 / 10) 4 1,
    zahlSetting "LOSS_WATCH_PCT" (-3) (-79 / 10) (-5 / 10) 1,
    zahlSetting "LOSS_CUT_PCT" (-6) (-79 / 10) (-1) 1,
    zahlSetting "LOSS_ESCALATION_PCT" (-79 / 10) (-79 / 10) (-2) 1,
    zahlSetting "MIN_POSITION_PERCENT" (5 / 100) (1 / 100) (10 / 100) 2,
    zahlSetting "MAX_POSITION_PERCENT" (25 / 100) (5 / 100) (40 / 100) 2,
    zahlSetting "MAX_POSITION_PERCENT_SIZING" (30 / 100) (5 / 100) (50 / 100) 2,
    zahlSetting "MAX_TOTAL_EXPOSURE_PCT" (95 / 100) (50 / 100) 1 2,
    schalter "SKEW_SIZE_TILT_ENABLED" false,
    zahlSetting "SKEW_SIZE_TILT_CAP" 0 0 (20 / 100) 2,
    zahlSetting "VIX_SIZE_INFLUENCE" 1 0 1 2,
    schalter "VOL_TARGETING_SIZING_ENABLED" true,
    zahlSetting "VOL_TARGET_DAILY_VOL" (15 / 1000) (7 / 1000) (75 / 1000) 4,
    zahlSetting "COVERAGE_SIZING_STRENGTH" 0 0 1 2,
    wahl "CLEAN_WEIGHT_SIZING" "b" ["off", "a", "b"],
    zahlSetting "COMPLIANCE_MAX_ORDER_VALUE" 10000 1 maxOrderValueCeiling 0,
    ganzSetting "COMPLIANCE_MAX_DAILY_TRADES" 10 1 maxDailyTradesCeiling]

/-! ## Parsing -/

def Wert.float : Wert → ℚ
  | .zahl q => q
  | .ganz n => n
  | .bool b => if b then 1 else 0
  | .text _ => 0

def Wert.roh : Wert → Roh
  | .zahl q => .zahl (.of q)
  | .ganz n => .ganz n
  | .bool b => .bool b
  | .text s => .text s

/-- The two functions of Python on texts that are read here: `float`, `none` for a text
that is no number, and `strip` with `lower`. -/
structure Python where
  float : String → Option ExtRat
  stripLower : String → String

variable (P : Python)

/-- The number of a value.  A truth value is no number, but its text may be one. -/
def Roh.number : Roh → Option ExtRat
  | .zahl x => some x
  | .ganz n => some (.of (nearest n))
  | .bool b => P.float (if b then "True" else "False")
  | .text s => P.float s
  | .anderes s => P.float s

def Setting.klemme (s : Setting) (q : ℚ) : ℚ := max s.lo (min s.hi q)

def parseBool (s : Setting) : Roh → Wert
  | .bool b => .bool b
  | .text t =>
      if P.stripLower t = "true" then .bool true
      else if P.stripLower t = "false" then .bool false
      else s.default
  | _ => s.default

def parseEnum (s : Setting) : Roh → Wert
  | .text t => if P.stripLower t ∈ s.choices then .text (P.stripLower t) else s.default
  | _ => if "" ∈ s.choices then .text "" else s.default

def parseFloat (s : Setting) (v : Roh) : Wert :=
  match v.number P with
  | some (.of q) => .zahl (s.klemme q)
  | _ => s.default

def parseInt (s : Setting) (v : Roh) : Wert :=
  match v.number P with
  | some (.of q) => .ganz (roundHalfEven (s.klemme q))
  | _ => s.default

def parse (s : Setting) (v : Roh) : Wert :=
  match s.kind with
  | .bool => parseBool P s v
  | .enum => parseEnum P s v
  | .float => parseFloat P s v
  | .int => parseInt P s v

def canonicalText (s : Setting) (v : Wert) : String :=
  match s.kind with
  | .bool => if parse P s v.roh = .bool true then "true" else "false"
  | .enum =>
      match parse P s v.roh with
      | .text t => t
      | _ => ""
  | .int => String.ofList (formatFixed 0 (parse P s v.roh).float)
  | .float => String.ofList (formatFixed s.decimals (parse P s v.roh).float)

/-! ## What a setting owes -/

/-- Whether a number is the double of a multiple of the last place. -/
def aufRaster (d : ℕ) (q : ℚ) : Bool := nearest (roundTo d q) = q

/-- Whether a default has the kind of its setting and lies in its bounds, which are
multiples of the last place, and no large numbers. -/
def Setting.stimmt (s : Setting) : Bool :=
  match s.kind, s.default with
  | .float, .zahl q =>
      s.lo ≤ q && q ≤ s.hi && aufRaster s.decimals s.lo && aufRaster s.decimals s.hi &&
        s.decimals ≤ 4 && -2 ^ 17 ≤ s.lo && s.hi ≤ 2 ^ 17
  | .int, .ganz n =>
      s.lo ≤ n && n ≤ s.hi && s.lo.den = 1 && s.hi.den = 1 && -2 ^ 17 ≤ s.lo && s.hi ≤ 2 ^ 17
  | .bool, .bool _ => true
  | .enum, .text t => s.choices.contains t
  | _, _ => false

theorem register_stimmt : ∀ s ∈ register, s.stimmt = true := by decide +kernel

theorem register_nodup : (register.map Setting.key).Nodup := by decide +kernel

/-- What a setting of numbers owes. -/
structure Setting.Zahlig (s : Setting) : Prop where
  default : ∃ q, s.default = .zahl q ∧ s.lo ≤ q ∧ q ≤ s.hi
  lo : nearest (roundTo s.decimals s.lo) = s.lo
  hi : nearest (roundTo s.decimals s.hi) = s.hi
  decimals : s.decimals ≤ 4
  klein : -2 ^ 17 ≤ s.lo ∧ s.hi ≤ 2 ^ 17

/-- What a setting of whole numbers owes. -/
structure Setting.Ganz (s : Setting) : Prop where
  default : ∃ n : ℤ, s.default = .ganz n ∧ s.lo ≤ n ∧ n ≤ s.hi
  lo : ∃ l : ℤ, s.lo = l
  hi : ∃ u : ℤ, s.hi = u
  klein : -2 ^ 17 ≤ s.lo ∧ s.hi ≤ 2 ^ 17

theorem Setting.zahlig_of_stimmt {s : Setting} (h : s.stimmt = true) (hkind : s.kind = .float) :
    s.Zahlig := by
  rw [Setting.stimmt, hkind] at h
  cases hd : s.default with
  | zahl q =>
      rw [hd] at h
      simp only [Bool.and_eq_true, decide_eq_true_eq, aufRaster] at h
      obtain ⟨⟨⟨⟨⟨⟨hlo, hhi⟩, hrasterLo⟩, hrasterHi⟩, hd'⟩, hklein⟩, hklein'⟩ := h
      exact ⟨⟨q, hd, hlo, hhi⟩, hrasterLo, hrasterHi, hd', hklein, hklein'⟩
  | _ =>
      rw [hd] at h
      cases h

theorem Setting.ganz_of_stimmt {s : Setting} (h : s.stimmt = true) (hkind : s.kind = .int) :
    s.Ganz := by
  rw [Setting.stimmt, hkind] at h
  cases hd : s.default with
  | ganz n =>
      rw [hd] at h
      simp only [Bool.and_eq_true, decide_eq_true_eq] at h
      obtain ⟨⟨⟨⟨⟨hlo, hhi⟩, hl⟩, hu⟩, hklein⟩, hklein'⟩ := h
      exact ⟨⟨n, hd, hlo, hhi⟩, ⟨_, ((Rat.den_eq_one_iff _).mp hl).symm⟩,
        ⟨_, ((Rat.den_eq_one_iff _).mp hu).symm⟩, hklein, hklein'⟩
  | _ =>
      rw [hd] at h
      cases h

theorem Setting.lo_le_klemme (s : Setting) (q : ℚ) : s.lo ≤ s.klemme q := le_max_left _ _

theorem Setting.klemme_le {s : Setting} (h : s.lo ≤ s.hi) (q : ℚ) : s.klemme q ≤ s.hi :=
  max_le h (min_le_left _ _)

theorem Setting.klemme_of_mem {s : Setting} {q : ℚ} (h : s.lo ≤ q) (h' : q ≤ s.hi) :
    s.klemme q = q := by
  rw [Setting.klemme, min_eq_right h', max_eq_right h]

/-- A parsed number lies in the bounds. -/
theorem parse_float {s : Setting} (hs : s.stimmt = true) (hkind : s.kind = .float) (v : Roh) :
    ∃ q, parse P s v = .zahl q ∧ s.lo ≤ q ∧ q ≤ s.hi := by
  obtain ⟨d, hd, hlo, hhi⟩ := (s.zahlig_of_stimmt hs hkind).default
  rw [parse, hkind]
  dsimp only
  rw [parseFloat]
  split
  next q _ => exact ⟨_, rfl, s.lo_le_klemme q, Setting.klemme_le (hlo.trans hhi) q⟩
  next => exact ⟨d, hd, hlo, hhi⟩

/-- A whole number is not cut across the bounds. -/
theorem Setting.Ganz.round_mem {s : Setting} (h : s.Ganz) {q : ℚ} (hlo : s.lo ≤ q) (hhi : q ≤ s.hi) :
    s.lo ≤ roundHalfEven q ∧ roundHalfEven q ≤ s.hi := by
  obtain ⟨l, hl⟩ := h.lo
  obtain ⟨u, hu⟩ := h.hi
  rw [hl] at hlo ⊢
  rw [hu] at hhi ⊢
  exact ⟨by exact_mod_cast le_roundHalfEven hlo, by exact_mod_cast roundHalfEven_le hhi⟩

theorem Setting.Ganz.betrag_le {s : Setting} (h : s.Ganz) {q : ℚ} (hlo : s.lo ≤ q)
    (hhi : q ≤ s.hi) : |q| ≤ 2 ^ 17 :=
  abs_le.mpr ⟨h.klein.1.trans hlo, hhi.trans h.klein.2⟩

theorem parse_int {s : Setting} (hs : s.stimmt = true) (hkind : s.kind = .int) (v : Roh) :
    ∃ n : ℤ, parse P s v = .ganz n ∧ s.lo ≤ n ∧ n ≤ s.hi := by
  have hganz := s.ganz_of_stimmt hs hkind
  obtain ⟨d, hd, hlo, hhi⟩ := hganz.default
  rw [parse, hkind]
  dsimp only
  rw [parseInt]
  split
  next q _ =>
    exact ⟨_, rfl, hganz.round_mem (s.lo_le_klemme q) (Setting.klemme_le (hlo.trans hhi) q)⟩
  next => exact ⟨d, hd, hlo, hhi⟩

/-! ## Writing and reading -/

def lies (t : String) : Option ℚ := (readDecimal t.toList).map nearest

/-- The decimal number that is written for another. -/
def Setting.stufe (s : Setting) (q : ℚ) : ℚ := roundTo s.decimals (s.klemme q)

/-- The number that is read from the text of another. -/
def Setting.schreibe (s : Setting) (q : ℚ) : ℚ := nearest (s.stufe q)

theorem Setting.klemme_mono (s : Setting) : Monotone s.klemme := fun _ _ h =>
  max_le_max_left _ (min_le_min_left _ h)

theorem Setting.stufe_mono (s : Setting) : Monotone s.stufe := fun _ _ h =>
  roundTo_mono (s.klemme_mono h)

theorem Setting.schreibe_mono (s : Setting) : Monotone s.schreibe := fun _ _ h =>
  nearest_mono (s.stufe_mono h)

theorem Setting.stufe_of_mem {s : Setting} {q : ℚ} (h : s.lo ≤ q) (h' : q ≤ s.hi) :
    s.stufe q = roundTo s.decimals q := by
  rw [Setting.stufe, Setting.klemme_of_mem h h']

/-- A small number with few decimal places is found again in its double. -/
theorem roundTo_nearest_roundTo {d : ℕ} {q : ℚ} (hd : d ≤ 4) (hq : |q| ≤ 2 ^ 17) :
    roundTo d (nearest (roundTo d q)) = roundTo d q := by
  obtain ⟨hlow, hhigh⟩ := abs_le.mp hq
  have hk : ((2 ^ 17 : ℤ) : ℚ) * 10 ^ d = ((2 ^ 17 * 10 ^ d : ℤ) : ℚ) := by push_cast; ring
  have hk' : ((-2 ^ 17 : ℤ) : ℚ) * 10 ^ d = ((-2 ^ 17 * 10 ^ d : ℤ) : ℚ) := by push_cast; ring
  have habs : |roundTo d q| ≤ 2 ^ 17 := by
    refine abs_le.mpr ⟨?_, ?_⟩
    · exact_mod_cast le_roundTo hk' (by exact_mod_cast hlow)
    · exact_mod_cast roundTo_le hk (by exact_mod_cast hhigh)
  have hten : 10 ^ d ≤ 10 ^ 4 := Nat.pow_le_pow_right (by norm_num) hd
  refine roundTo_nearest (k := roundHalfEven (q * 10 ^ d)) ?_ habs (by omega)
  rw [roundTo, div_mul_cancel₀ _ (by positivity)]

section

variable {s : Setting} (hs : s.Zahlig)
include hs

theorem Setting.Zahlig.klemme_mem (q : ℚ) : s.lo ≤ s.klemme q ∧ s.klemme q ≤ s.hi := by
  obtain ⟨d, -, hlo, hhi⟩ := hs.default
  exact ⟨s.lo_le_klemme q, Setting.klemme_le (hlo.trans hhi) q⟩

theorem Setting.Zahlig.betrag_le {q : ℚ} (h : s.lo ≤ q) (h' : q ≤ s.hi) : |q| ≤ 2 ^ 17 :=
  abs_le.mpr ⟨hs.klein.1.trans h, h'.trans hs.klein.2⟩

/-- What is written of a number within the bounds is within them. -/
theorem Setting.Zahlig.round_mem {q : ℚ} (h : s.lo ≤ q) (h' : q ≤ s.hi) :
    s.lo ≤ nearest (roundTo s.decimals q) ∧ nearest (roundTo s.decimals q) ≤ s.hi := by
  have hlow := nearest_mono (roundTo_mono (n := s.decimals) h)
  have hhigh := nearest_mono (roundTo_mono (n := s.decimals) h')
  rw [hs.lo] at hlow
  rw [hs.hi] at hhigh
  exact ⟨hlow, hhigh⟩

theorem Setting.Zahlig.roundTo_round {q : ℚ} (h : s.lo ≤ q) (h' : q ≤ s.hi) :
    roundTo s.decimals (nearest (roundTo s.decimals q)) = roundTo s.decimals q :=
  roundTo_nearest_roundTo hs.decimals (hs.betrag_le h h')

theorem Setting.Zahlig.schreibe_mem (q : ℚ) : s.lo ≤ s.schreibe q ∧ s.schreibe q ≤ s.hi :=
  hs.round_mem (hs.klemme_mem q).1 (hs.klemme_mem q).2

/-- The decimal number is found again in its double. -/
theorem Setting.Zahlig.roundTo_schreibe (q : ℚ) :
    roundTo s.decimals (s.schreibe q) = s.stufe q :=
  hs.roundTo_round (hs.klemme_mem q).1 (hs.klemme_mem q).2

/-- What was written is written as it is. -/
theorem Setting.Zahlig.schreibe_schreibe (q : ℚ) : s.schreibe (s.schreibe q) = s.schreibe q := by
  obtain ⟨hlo, hhi⟩ := hs.schreibe_mem q
  have hstufe : s.stufe (s.schreibe q) = s.stufe q := by
    rw [Setting.stufe_of_mem hlo hhi, hs.roundTo_schreibe]
  rw [Setting.schreibe, hstufe, Setting.schreibe]

/-- Numbers of one setting are read back in the order in which they are written. -/
theorem Setting.Zahlig.schreibe_lt_iff {x y : ℚ} :
    s.schreibe x < s.schreibe y ↔ s.stufe x < s.stufe y :=
  nearest_lt_nearest_iff (hs.roundTo_schreibe x) (hs.roundTo_schreibe y)

theorem Setting.Zahlig.schreibe_le_iff {x y : ℚ} :
    s.schreibe x ≤ s.schreibe y ↔ s.stufe x ≤ s.stufe y := by
  rw [← not_lt, hs.schreibe_lt_iff, not_lt]

end

def Wert.istZahl : Wert → Bool
  | .zahl _ => true
  | .ganz _ => true
  | _ => false

/-- A value that is sent back is read as its double. -/
def Wert.double : Wert → ℚ
  | .ganz n => nearest n
  | w => w.float

theorem Wert.number_roh {w : Wert} (h : w.istZahl = true) : w.roh.number P = some (.of w.double) := by
  cases w with
  | zahl q => rfl
  | ganz n => rfl
  | bool b => cases h
  | text s => cases h

theorem lies_canonicalText_float {s : Setting} (hkind : s.kind = .float) {w : Wert}
    (h : w.istZahl = true) : lies (canonicalText P s w) = some (s.schreibe w.double) := by
  have hparse : parse P s w.roh = .zahl (s.klemme w.double) := by
    rw [parse, hkind]
    dsimp only
    rw [parseFloat, Wert.number_roh P h]
  rw [canonicalText, hkind]
  dsimp only
  rw [hparse, lies, String.toList_ofList, readDecimal_formatFixed]
  rfl

/-- A small whole number is its own double. -/
theorem nearest_of_klein {s : Setting} (hs : s.Ganz) {n : ℤ} (h : s.lo ≤ n) (h' : n ≤ s.hi) :
    nearest (n : ℚ) = n :=
  nearest_intCast ((hs.betrag_le h h').trans (by norm_num))

theorem lies_canonicalText_int {s : Setting} (hs : s.stimmt = true) (hkind : s.kind = .int)
    {w : Wert} (h : w.istZahl = true) :
    lies (canonicalText P s w) = some (roundHalfEven (s.klemme w.double) : ℚ) := by
  have hganz := s.ganz_of_stimmt hs hkind
  obtain ⟨d, -, hlo, hhi⟩ := hganz.default
  obtain ⟨hlow, hhigh⟩ := hganz.round_mem (s.lo_le_klemme w.double)
    (Setting.klemme_le (hlo.trans hhi) w.double)
  have hparse : parse P s w.roh = .ganz (roundHalfEven (s.klemme w.double)) := by
    rw [parse, hkind]
    dsimp only
    rw [parseInt, Wert.number_roh P h]
  have hround : roundTo 0 (roundHalfEven (s.klemme w.double) : ℚ) =
      roundHalfEven (s.klemme w.double) :=
    roundTo_of_mul_eq (k := roundHalfEven (s.klemme w.double)) (by rw [pow_zero, mul_one])
  rw [canonicalText, hkind]
  dsimp only
  rw [hparse, lies, String.toList_ofList, readDecimal_formatFixed, Wert.float, hround,
    Option.map_some, nearest_of_klein hganz hlow hhigh]

/-- The number of a text lies in the bounds. -/
theorem lies_canonicalText {s : Setting} (hs : s.stimmt = true)
    (hkind : s.kind = .float ∨ s.kind = .int) {w : Wert} (h : w.istZahl = true) :
    ∃ q, lies (canonicalText P s w) = some q ∧ s.lo ≤ q ∧ q ≤ s.hi := by
  rcases hkind with hkind | hkind
  · exact ⟨_, lies_canonicalText_float P hkind h, (s.zahlig_of_stimmt hs hkind).schreibe_mem _⟩
  · have hganz := s.ganz_of_stimmt hs hkind
    obtain ⟨d, -, hlo, hhi⟩ := hganz.default
    exact ⟨_, lies_canonicalText_int P hs hkind h, hganz.round_mem (s.lo_le_klemme _)
      (Setting.klemme_le (hlo.trans hhi) _)⟩

end Einstellungen
