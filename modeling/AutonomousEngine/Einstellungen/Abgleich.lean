import AutonomousEngine.Einstellungen.Register

/-!
# Updates and the rules between settings

An update is applied to the state of the configuration: every setting is parsed, the
rules between the settings are put through on the numbers as they are, and the result
is written as canonical texts.  Writing cuts to the bounds and rounds once more, and so
the texts need not follow the rules that the numbers follow.  `applyUpdates_iff` says
when they do.
-/

namespace Einstellungen

open Basis

/-! ## The configuration -/

/-- The configuration: the values of the settings, the number of positions and the hard
stop, each `none` when it is missing. -/
structure Konfig where
  attr : String → Option Roh
  fullUniverseMaxPositions : Option ℤ
  hardStopLossPct : Option ℚ

/-- The number of positions, twenty when it is missing or zero. -/
def positionen (cfg : Option Konfig) : ℤ :=
  match cfg.bind Konfig.fullUniverseMaxPositions with
  | some p => if p = 0 then 20 else p
  | none => 20

/-- The depth of the hard stop, eight when it is missing or zero. -/
def hardStop (cfg : Option Konfig) : ℚ :=
  match cfg.bind Konfig.hardStopLossPct with
  | some x => |if x = 0 then -8 else x|
  | none => 8

/-- The weight of a position in a book of equal weights. -/
def platz (positions : ℤ) : ℚ := nearest (1 / nearest (max 1 positions : ℤ))

/-- The values of the settings by their keys. -/
abbrev Werte := String → Wert

def setze (key : String) (w : Wert) (vals : Werte) : Werte := fun k => if k = key then w else vals k

variable (P : Python)

/-- The parsed value of a setting: of the update, else of the configuration. -/
def eingabe (cfg : Option Konfig) (updates : List (String × Roh)) (s : Setting) : Wert :=
  match dictGet s.key updates with
  | some raw => parse P s raw
  | none => parse P s ((cfg.bind fun c => c.attr s.key).getD s.default.roh)

def eingaben (cfg : Option Konfig) (updates : List (String × Roh)) : Werte := fun key =>
  match register.find? (·.key = key) with
  | some s => eingabe P cfg updates s
  | none => .text ""

/-! ## The rules -/

/-- The least weight of a position fits into a book of equal weights. -/
def regelSlot (positions : ℤ) (vals : Werte) : Werte :=
  setze "MIN_POSITION_PERCENT"
    (.zahl (min (vals "MIN_POSITION_PERCENT").float (platz positions))) vals

/-- The weights of a position are in order. -/
def regelGewichte (vals : Werte) : Werte :=
  let vals := setze "MAX_POSITION_PERCENT" (.zahl (min (vals "MAX_POSITION_PERCENT").float
    (vals "MAX_POSITION_PERCENT_SIZING").float)) vals
  if (vals "MAX_POSITION_PERCENT").float ≤ (vals "MIN_POSITION_PERCENT").float then
    setze "MIN_POSITION_PERCENT"
      (.zahl (max (nearest (1 / 100))
        (nearest ((vals "MAX_POSITION_PERCENT").float - nearest (1 / 100))))) vals
  else vals

/-- The thresholds of the consensus are in order. -/
def regelSchwellen (vals : Werte) : Werte :=
  if (vals "SIGNAL_BUY_THRESHOLD").float ≤ (vals "SIGNAL_SELL_THRESHOLD").float then
    setze "SIGNAL_SELL_THRESHOLD"
      (.zahl (nearest ((vals "SIGNAL_BUY_THRESHOLD").float - nearest (1 / 10)))) vals
  else vals

/-- The stops are in order above the hard stop. -/
def regelStops (hard : ℚ) (vals : Werte) : Werte :=
  let vals := setze "STOP_LOSS_PCT"
    (.zahl (min (vals "STOP_LOSS_PCT").float (nearest (hard - nearest (1 / 10))))) vals
  let cut := max (vals "LOSS_CUT_PCT").float (nearest (-hard + nearest (1 / 5)))
  let vals := setze "LOSS_CUT_PCT" (.zahl cut) vals
  let vals := setze "LOSS_ESCALATION_PCT" (.zahl (max (min (vals "LOSS_ESCALATION_PCT").float
    (nearest (cut - nearest (1 / 10)))) (nearest (-hard + nearest (1 / 10))))) vals
  setze "LOSS_WATCH_PCT"
    (.zahl (max (vals "LOSS_WATCH_PCT").float (nearest (cut + nearest (1 / 10))))) vals

/-- More names are debated than the book has places. -/
def regelTopK (positions : ℤ) (vals : Werte) : Werte :=
  if (vals "ROUND_TABLE_TOP_K_EVAL").float ≤ positions then
    setze "ROUND_TABLE_TOP_K_EVAL" (.ganz (positions + 1)) vals
  else vals

def crossClamp (positions : ℤ) (hard : ℚ) (vals : Werte) : Werte :=
  regelTopK positions (regelStops hard (regelSchwellen (regelGewichte (regelSlot positions vals))))

/-- Why an update raises: keys that are no settings, or a whole number that no double can
hold. -/
inductive Ausnahme where
  | unbekannt (keys : List String)
  | overflow
deriving DecidableEq

/-- Whether `float` raises for a whole number. -/
def zuGross (n : ℤ) : Bool := 2 ^ 1024 ≤ |nearest n|

def Setting.ueberlauf (s : Setting) : Roh → Bool
  | .ganz n => decide (s.kind = .float ∨ s.kind = .int) && zuGross n
  | _ => false

/-- Whether a whole number is too large: one of the configuration, of the update, or the number
of positions. -/
def ueberlauf (cfg : Option Konfig) (updates : List (String × Roh)) : Bool :=
  (register.any fun s => ((cfg.bind fun c => c.attr s.key).any s.ueberlauf)) ||
    (updates.any fun u => (register.find? (·.key = u.1)).any fun s => s.ueberlauf u.2) ||
    decide (2 ^ 1024 ≤ nearest (positionen cfg + 1 : ℤ))

/-- The texts of all settings after an update. -/
def applyUpdates (cfg : Option Konfig) (updates : List (String × Roh)) :
    Except Ausnahme (List (String × String)) :=
  let unknown := (updates.map Prod.fst).filter (· ∉ register.map Setting.key)
  if unknown ≠ [] then .error (.unbekannt (unknown.insertionSort (· ≤ ·)))
  else if ueberlauf cfg updates then .error .overflow
  else
    let vals := crossClamp (positionen cfg) (hardStop cfg) (eingaben P cfg updates)
    .ok (register.map fun s => (s.key, canonicalText P s (vals s.key)))

/-! ## Consistency -/

def zahlVon (stand : List (String × String)) (key : String) : Option ℚ :=
  (dictGet key stand).bind lies

/-- The number of a setting, zero without one. -/
def num (stand : List (String × String)) (key : String) : ℚ := (zahlVon stand key).getD 0

/-- What a confirmed state owes: every number within its bounds, and all rules. -/
structure Konsistent (positions : ℤ) (hard : ℚ) (stand : List (String × String)) : Prop where
  grenzen : ∀ s ∈ register, s.kind = .float ∨ s.kind = .int →
    ∃ q, zahlVon stand s.key = some q ∧ s.lo ≤ q ∧ q ≤ s.hi
  slot : num stand "MIN_POSITION_PERCENT" ≤ platz positions
  min_lt_max : num stand "MIN_POSITION_PERCENT" < num stand "MAX_POSITION_PERCENT"
  max_le_sizing : num stand "MAX_POSITION_PERCENT" ≤ num stand "MAX_POSITION_PERCENT_SIZING"
  sell_pos : 0 < num stand "SIGNAL_SELL_THRESHOLD"
  sell_lt_buy : num stand "SIGNAL_SELL_THRESHOLD" < num stand "SIGNAL_BUY_THRESHOLD"
  buy_lt_one : num stand "SIGNAL_BUY_THRESHOLD" < 1
  stop : num stand "STOP_LOSS_PCT" < hard
  hard_lt_escalation : -hard < num stand "LOSS_ESCALATION_PCT"
  escalation_lt_cut : num stand "LOSS_ESCALATION_PCT" < num stand "LOSS_CUT_PCT"
  cut_lt_watch : num stand "LOSS_CUT_PCT" < num stand "LOSS_WATCH_PCT"
  topK : positions < num stand "ROUND_TABLE_TOP_K_EVAL"

/-! ## What the rules leave alone -/

section

variable {key : String} {positions : ℤ} {hard : ℚ} {vals : Werte}

@[simp] theorem setze_same (key : String) (w : Wert) (vals : Werte) : setze key w vals key = w :=
  if_pos rfl

theorem setze_of_ne {key' : String} (h : key ≠ key') (w : Wert) :
    setze key' w vals key = vals key :=
  if_neg h

theorem regelSlot_of_ne (h : key ≠ "MIN_POSITION_PERCENT") :
    regelSlot positions vals key = vals key := setze_of_ne h _

theorem regelGewichte_of_ne (h : key ≠ "MIN_POSITION_PERCENT") (h' : key ≠ "MAX_POSITION_PERCENT") :
    regelGewichte vals key = vals key := by
  rw [regelGewichte]
  split
  next => rw [setze_of_ne h, setze_of_ne h']
  next => rw [setze_of_ne h']

theorem regelSchwellen_of_ne (h : key ≠ "SIGNAL_SELL_THRESHOLD") :
    regelSchwellen vals key = vals key := by
  rw [regelSchwellen]
  split
  next => rw [setze_of_ne h]
  next => rfl

theorem regelStops_of_notMem (h : key ∉ ["STOP_LOSS_PCT", "LOSS_CUT_PCT", "LOSS_ESCALATION_PCT",
    "LOSS_WATCH_PCT"]) : regelStops hard vals key = vals key := by
  simp only [List.mem_cons, List.not_mem_nil, or_false, not_or] at h
  rw [regelStops]
  rw [setze_of_ne h.2.2.2, setze_of_ne h.2.2.1, setze_of_ne h.2.1, setze_of_ne h.1]

theorem regelTopK_of_ne (h : key ≠ "ROUND_TABLE_TOP_K_EVAL") :
    regelTopK positions vals key = vals key := by
  rw [regelTopK]
  split
  next => rw [setze_of_ne h]
  next => rfl

/-! ## What the rules make of the numbers -/

/-- The least weight that fits into a book of equal weights. -/
def mitSlot (positions : ℤ) (vals : Werte) : ℚ :=
  min (vals "MIN_POSITION_PERCENT").float (platz positions)

/-- The largest weight, at most the one of the sizing. -/
def hoechstens (vals : Werte) : ℚ :=
  min (vals "MAX_POSITION_PERCENT").float (vals "MAX_POSITION_PERCENT_SIZING").float

def mindestens (positions : ℤ) (vals : Werte) : ℚ :=
  if hoechstens vals ≤ mitSlot positions vals then
    max (nearest (1 / 100)) (nearest (hoechstens vals - nearest (1 / 100)))
  else mitSlot positions vals

/-- The loss at which is sold, above the hard stop. -/
def schnitt (hard : ℚ) (vals : Werte) : ℚ :=
  max (vals "LOSS_CUT_PCT").float (nearest (-hard + nearest (1 / 5)))

/-- The loss of the escalation, below the cut and above the hard stop. -/
def eskalation (hard : ℚ) (vals : Werte) : ℚ :=
  max (min (vals "LOSS_ESCALATION_PCT").float (nearest (schnitt hard vals - nearest (1 / 10))))
    (nearest (-hard + nearest (1 / 10)))

/-- The loss of the watch, above the cut. -/
def beobachtung (hard : ℚ) (vals : Werte) : ℚ :=
  max (vals "LOSS_WATCH_PCT").float (nearest (schnitt hard vals + nearest (1 / 10)))

/-- The number of names that are debated. -/
def debattiert (positions : ℤ) (vals : Werte) : ℚ :=
  if (vals "ROUND_TABLE_TOP_K_EVAL").float ≤ positions then nearest (positions + 1 : ℤ)
  else (vals "ROUND_TABLE_TOP_K_EVAL").double

theorem regelGewichte_eq : regelGewichte (regelSlot positions vals) =
    if hoechstens vals ≤ mitSlot positions vals then
      setze "MIN_POSITION_PERCENT"
        (.zahl (max (nearest (1 / 100)) (nearest (hoechstens vals - nearest (1 / 100)))))
        (setze "MAX_POSITION_PERCENT" (.zahl (hoechstens vals)) (regelSlot positions vals))
    else setze "MAX_POSITION_PERCENT" (.zahl (hoechstens vals)) (regelSlot positions vals) := by
  have hmax : regelSlot positions vals "MAX_POSITION_PERCENT" = vals "MAX_POSITION_PERCENT" :=
    regelSlot_of_ne (by decide)
  have hsizing : regelSlot positions vals "MAX_POSITION_PERCENT_SIZING" =
      vals "MAX_POSITION_PERCENT_SIZING" := regelSlot_of_ne (by decide)
  have hslot : regelSlot positions vals "MIN_POSITION_PERCENT" =
      .zahl (mitSlot positions vals) := setze_same _ _ _
  rw [regelGewichte, setze_same, setze_of_ne (by decide), hmax, hsizing, hslot, ← hoechstens]
  rfl

theorem regelGewichte_min : (regelGewichte (regelSlot positions vals) "MIN_POSITION_PERCENT") =
    .zahl (mindestens positions vals) := by
  rw [regelGewichte_eq, mindestens]
  split
  next => rw [setze_same]
  next => rw [setze_of_ne (by decide), regelSlot, setze_same, mitSlot]

theorem regelGewichte_max : (regelGewichte (regelSlot positions vals) "MAX_POSITION_PERCENT") =
    .zahl (hoechstens vals) := by
  rw [regelGewichte_eq]
  split
  next => rw [setze_of_ne (by decide), setze_same]
  next => rw [setze_same]

theorem crossClamp_min : crossClamp positions hard vals "MIN_POSITION_PERCENT" =
    .zahl (mindestens positions vals) := by
  rw [crossClamp, regelTopK_of_ne (by decide), regelStops_of_notMem (by decide),
    regelSchwellen_of_ne (by decide), regelGewichte_min]

theorem crossClamp_max : crossClamp positions hard vals "MAX_POSITION_PERCENT" =
    .zahl (hoechstens vals) := by
  rw [crossClamp, regelTopK_of_ne (by decide), regelStops_of_notMem (by decide),
    regelSchwellen_of_ne (by decide), regelGewichte_max]

def betroffen : List String :=
  ["MIN_POSITION_PERCENT", "MAX_POSITION_PERCENT", "SIGNAL_SELL_THRESHOLD", "STOP_LOSS_PCT",
    "LOSS_CUT_PCT", "LOSS_ESCALATION_PCT", "LOSS_WATCH_PCT", "ROUND_TABLE_TOP_K_EVAL"]

/-- A setting outside the rules stays as it was parsed. -/
theorem crossClamp_of_notMem (h : key ∉ betroffen) :
    crossClamp positions hard vals key = vals key := by
  simp only [betroffen, List.mem_cons, List.not_mem_nil, or_false, not_or] at h
  obtain ⟨hmin, hmax, hsell, hstop, hcut, hesc, hwatch, htop⟩ := h
  have hstops : key ∉ ["STOP_LOSS_PCT", "LOSS_CUT_PCT", "LOSS_ESCALATION_PCT",
      "LOSS_WATCH_PCT"] := by
    simp only [List.mem_cons, List.not_mem_nil, or_false, not_or]
    exact ⟨hstop, hcut, hesc, hwatch⟩
  rw [crossClamp, regelTopK_of_ne htop, regelStops_of_notMem hstops, regelSchwellen_of_ne hsell,
    regelGewichte_of_ne hmin hmax, regelSlot_of_ne hmin]

/-- What the rules before the stops leave to them. -/
theorem vorStops_of_notMem (h : key ∉ betroffen.take 3) :
    regelSchwellen (regelGewichte (regelSlot positions vals)) key = vals key := by
  simp only [betroffen, List.take_succ_cons, List.take_zero, List.mem_cons, List.not_mem_nil,
    or_false, not_or] at h
  rw [regelSchwellen_of_ne h.2.2, regelGewichte_of_ne h.1 h.2.1, regelSlot_of_ne h.1]

theorem crossClamp_stop : crossClamp positions hard vals "STOP_LOSS_PCT" =
    .zahl (min (vals "STOP_LOSS_PCT").float (nearest (hard - nearest (1 / 10)))) := by
  rw [crossClamp, regelTopK_of_ne (by decide), regelStops]
  rw [setze_of_ne (by decide), setze_of_ne (by decide), setze_of_ne (by decide), setze_same,
    vorStops_of_notMem (by decide)]

theorem crossClamp_cut : crossClamp positions hard vals "LOSS_CUT_PCT" =
    .zahl (schnitt hard vals) := by
  rw [crossClamp, regelTopK_of_ne (by decide), regelStops]
  rw [setze_of_ne (by decide), setze_of_ne (by decide), setze_same, setze_of_ne (by decide),
    vorStops_of_notMem (by decide), schnitt]

theorem crossClamp_escalation : crossClamp positions hard vals "LOSS_ESCALATION_PCT" =
    .zahl (eskalation hard vals) := by
  rw [crossClamp, regelTopK_of_ne (by decide), regelStops]
  rw [setze_of_ne (by decide), setze_same, setze_of_ne (by decide), setze_of_ne (by decide),
    setze_of_ne (by decide), vorStops_of_notMem (by decide), vorStops_of_notMem (by decide),
    eskalation, schnitt]

theorem crossClamp_watch : crossClamp positions hard vals "LOSS_WATCH_PCT" =
    .zahl (beobachtung hard vals) := by
  rw [crossClamp, regelTopK_of_ne (by decide), regelStops]
  rw [setze_same, setze_of_ne (by decide), setze_of_ne (by decide), setze_of_ne (by decide),
    setze_of_ne (by decide), vorStops_of_notMem (by decide), vorStops_of_notMem (by decide),
    beobachtung, schnitt]

theorem crossClamp_topK (h : (vals "ROUND_TABLE_TOP_K_EVAL").istZahl = true) :
    (crossClamp positions hard vals "ROUND_TABLE_TOP_K_EVAL").istZahl = true ∧
      (crossClamp positions hard vals "ROUND_TABLE_TOP_K_EVAL").double =
        debattiert positions vals := by
  have hbefore : regelStops hard (regelSchwellen (regelGewichte (regelSlot positions vals)))
      "ROUND_TABLE_TOP_K_EVAL" = vals "ROUND_TABLE_TOP_K_EVAL" := by
    rw [regelStops_of_notMem (by decide), vorStops_of_notMem (by decide)]
  rw [crossClamp, regelTopK, hbefore, debattiert]
  split
  next =>
    rw [setze_same]
    exact ⟨rfl, rfl⟩
  next =>
    rw [hbefore]
    exact ⟨h, rfl⟩

theorem crossClamp_sell
    (h : (vals "SIGNAL_SELL_THRESHOLD").float < (vals "SIGNAL_BUY_THRESHOLD").float) :
    crossClamp positions hard vals "SIGNAL_SELL_THRESHOLD" = vals "SIGNAL_SELL_THRESHOLD" := by
  have hsell : regelGewichte (regelSlot positions vals) "SIGNAL_SELL_THRESHOLD" =
      vals "SIGNAL_SELL_THRESHOLD" := by
    rw [regelGewichte_of_ne (by decide) (by decide), regelSlot_of_ne (by decide)]
  have hbuy : regelGewichte (regelSlot positions vals) "SIGNAL_BUY_THRESHOLD" =
      vals "SIGNAL_BUY_THRESHOLD" := by
    rw [regelGewichte_of_ne (by decide) (by decide), regelSlot_of_ne (by decide)]
  rw [crossClamp, regelTopK_of_ne (by decide), regelStops_of_notMem (by decide), regelSchwellen,
    hsell, hbuy, if_neg (not_le.mpr h), hsell]

end

/-! ## What is parsed -/

section

variable (cfg : Option Konfig) (updates : List (String × Roh))

theorem eq_of_key_eq {s s' : Setting} (hs : s ∈ register) (hs' : s' ∈ register)
    (h : s.key = s'.key) : s = s' := List.inj_on_of_nodup_map register_nodup hs hs' h

theorem eingaben_of_mem {s : Setting} (hs : s ∈ register) :
    eingaben P cfg updates s.key = eingabe P cfg updates s := by
  rw [eingaben]
  split
  next s' hfind =>
    have hkey : s'.key = s.key := by simpa using List.find?_some hfind
    rw [eq_of_key_eq (List.mem_of_find?_eq_some hfind) hs hkey]
  next hnone =>
    exact absurd (decide_eq_true (rfl : s.key = s.key)) (List.find?_eq_none.mp hnone s hs)

theorem eingaben_float {s : Setting} (hs : s ∈ register) (hkind : s.kind = .float) :
    ∃ q, eingaben P cfg updates s.key = .zahl q ∧ s.lo ≤ q ∧ q ≤ s.hi := by
  rw [eingaben_of_mem P cfg updates hs, eingabe]
  split
  next => exact parse_float P (register_stimmt s hs) hkind _
  next => exact parse_float P (register_stimmt s hs) hkind _

theorem eingaben_int {s : Setting} (hs : s ∈ register) (hkind : s.kind = .int) :
    ∃ n : ℤ, eingaben P cfg updates s.key = .ganz n ∧ s.lo ≤ n ∧ n ≤ s.hi := by
  rw [eingaben_of_mem P cfg updates hs, eingabe]
  split
  next => exact parse_int P (register_stimmt s hs) hkind _
  next => exact parse_int P (register_stimmt s hs) hkind _

/-- The number in a state that is written setting by setting. -/
theorem zahlVon_map {g : Setting → String} {s : Setting} (hs : s ∈ register) :
    zahlVon (register.map fun s => (s.key, g s)) s.key = lies (g s) := by
  have hnodup : ((register.map fun s => (s.key, g s)).map Prod.fst).Nodup := by
    rw [List.map_map]
    exact register_nodup
  rw [zahlVon, (dictGet_eq_some_iff hnodup).mpr (List.mem_map.mpr ⟨s, hs, rfl⟩)]
  rfl

end

end Einstellungen
