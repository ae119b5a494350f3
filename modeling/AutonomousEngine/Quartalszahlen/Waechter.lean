import AutonomousEngine.Basis.Calendar
import AutonomousEngine.Basis.Dict
import AutonomousEngine.Basis.Ranks

/-!
# The guard before purchases around an earnings report

Purchases are held back for some days after a report of a symbol, and for some days before
the next one, which is estimated from the gaps between the reports.  The guard reads the
dates from a cache.  A failed fetch blocks, a symbol that was never fetched does not, and
neither does one without reports or with dates that cannot be read.

`earningsGuardVeto_fetched` says what the guard makes of the entry of a symbol.  It loses
its veto altogether when the estimate leaves the calendar, also the veto after a report.
-/

namespace Quartalszahlen

open Basis

def days (a b : Date) : ℤ := (a.toordinal : ℤ) - b.toordinal

/-- `d + timedelta(days=n)`, if it is in the calendar. -/
def plusDays : ℕ → Date → Option Date
  | 0, d => some d
  | n + 1, d => d.next.bind (plusDays n)

def dataMissing : String := "earnings_data_missing"

/-- `sorted(set(report_dates))`. -/
def sortedDates (reportDates : List Date) : List Date := reportDates.dedup.insertionSort (· ≤ ·)

/-- `[(b - a).days for a, b in zip(ds[:-1], ds[1:]) if (b - a).days > 0]`. -/
def gaps (ds : List Date) : List ℤ :=
  ((ds.zip ds.tail).map fun p => days p.2 p.1).filter fun n => 0 < n

/-- The last report and the median gap after it, if there are two reports.  An estimate
past the last year of the calendar is an `OverflowError`. -/
def nextEarningsEstimate (reportDates : List Date) : Except String (Option Date) :=
  let ds := sortedDates reportDates
  if ds.length < 2 ∨ gaps ds = [] then .ok none
  else
    match ds.getLast? with
    | none => .ok none
    | some last =>
        match plusDays ⌊median ((gaps ds).map fun n : ℤ => (n : ℚ))⌋.toNat last with
        | none => .error "date value out of range"
        | some estimate => .ok (some estimate)

/-- `max(recent)`, the closest report in the window after it. -/
def closestReport (reportDates : List Date) (now : Date) (postDays : ℤ) : Option Date :=
  if 0 < postDays then
    (reportDates.filter fun r => 0 ≤ days now r ∧ days now r ≤ postDays).max?
  else none

/-- Why a purchase is held back, if it is. -/
def earningsBlockReason (reportDates : List Date) (now : Date) (postDays preDays : ℤ)
    (nextEstimate : Option Date) (fetchFailed : Bool) : Option String :=
  if fetchFailed then some dataMissing
  else
    match closestReport reportDates now postDays with
    | some r => some ("earnings +" ++ toString (days now r) ++ "d (report " ++ r.isoformat ++ ")")
    | none =>
        match nextEstimate with
        | some e =>
            if 0 < preDays ∧ 0 ≤ days e now ∧ days e now ≤ preDays then
              some ("earnings -" ++ toString (days e now) ++ "d (est " ++ e.isoformat ++ ")")
            else none
        | none => none

/-! ## The cache -/

/-- The entry of a symbol: `{"error": true}`, or the dates of its reports. -/
inductive Eintrag where
  | error
  | dates (texts : List String)
deriving DecidableEq, Repr

/-- The file, with the two fields of `_meta`.  Days and times are those of the clock. -/
structure Cache where
  computedOn : Option ℤ
  errorsRetriedAt : Option ℤ
  entries : Dict String Eintrag

/-- What is read of a file that does not exist, or cannot be read. -/
def Cache.leer : Cache := ⟨none, none, .empty⟩

/-- The settings of the guard. -/
structure Konfig where
  enabled : Bool
  postDays : ℤ
  preDays : ℤ

section

variable (fromisoformat : String → Option Date) (cfg : Konfig) (c : Cache)

/-- The dates of an entry, and whether the last fetch failed. -/
def loadCachedReportDates (symbol : String) : Option (List Date) × Bool :=
  match c.entries.get? symbol with
  | none => (none, false)
  | some .error => (none, true)
  | some (.dates texts) =>
      match texts.mapM fromisoformat with
      | none => (none, false)
      | some [] => (none, false)
      | some (d :: ds) => (some (d :: ds), false)

def earningsGuardBlock (symbol : String) (now : Date) (postDays preDays : ℤ) :
    Except String (Option (String × String)) :=
  match loadCachedReportDates fromisoformat c symbol with
  | (none, false) => .ok none
  | (dates, fetchFailed) =>
      match if 0 < preDays then nextEarningsEstimate (dates.getD []) else .ok none with
      | .error e => .error e
      | .ok est =>
          match earningsBlockReason (dates.getD []) now postDays preDays est fetchFailed with
          | none => .ok none
          | some reason =>
              .ok (some (if reason = dataMissing then "blocked:earnings_data_missing"
                else "blocked:earnings", reason))

/-- The guard on the way of an order; it never breaks the way. -/
def earningsGuardVeto (symbol action : String) (now : Date) : Option (String × String) :=
  if action ≠ "BUY" ∨ cfg.enabled = false then none
  else
    match earningsGuardBlock fromisoformat c symbol now cfg.postDays cfg.preDays with
    | .ok veto => veto
    | .error _ => none

end

/-! ## What the guard says -/

/-- The days on which new purchases are held back: some days after a report, some days
before the estimate of the next one. -/
def Sperrtag (cfg : Konfig) (reportDates : List Date) (est : Option Date) (now : Date) : Prop :=
  (0 < cfg.postDays ∧ ∃ r ∈ reportDates, 0 ≤ days now r ∧ days now r ≤ cfg.postDays) ∨
    0 < cfg.preDays ∧ ∃ e ∈ est, 0 ≤ days e now ∧ days e now ≤ cfg.preDays

def schaetzung (cfg : Konfig) (reportDates : List Date) : Except String (Option Date) :=
  if 0 < cfg.preDays then nextEarningsEstimate reportDates else .ok none

section

variable {fromisoformat : String → Option Date} {cfg : Konfig} {c : Cache} {symbol : String}
  {now : Date} {reportDates : List Date} {est : Option Date} {postDays preDays : ℤ}

theorem max?_filter_isSome {p : Date → Bool} :
    (∃ r, (reportDates.filter p).max? = some r) ↔ ∃ r ∈ reportDates, p r = true := by
  rw [← Option.isSome_iff_exists, Option.isSome_iff_ne_none, ne_eq, List.max?_eq_none_iff,
    List.filter_eq_nil_iff]
  push Not
  rfl

theorem closestReport_isSome : (∃ r, closestReport reportDates now postDays = some r) ↔
    0 < postDays ∧ ∃ r ∈ reportDates, 0 ≤ days now r ∧ days now r ≤ postDays := by
  rw [closestReport]
  split
  next hpos => simp [max?_filter_isSome, hpos]
  next hpos => simp [hpos]

theorem earningsBlockReason_isSome : (∃ reason, earningsBlockReason reportDates now cfg.postDays
    cfg.preDays est false = some reason) ↔ Sperrtag cfg reportDates est now := by
  rw [Sperrtag, ← closestReport_isSome]
  simp only [earningsBlockReason, Bool.false_eq_true, if_false]
  cases closestReport reportDates now cfg.postDays with
  | some r => simp
  | none =>
      cases est with
      | none => simp
      | some e =>
          by_cases hpre : 0 < cfg.preDays ∧ 0 ≤ days e now ∧ days e now ≤ cfg.preDays
          · simp [hpre]
          · simp [hpre]

/-- No other reason has the text of a failed fetch. -/
theorem earningsBlockReason_ne_dataMissing :
    earningsBlockReason reportDates now postDays preDays est false ≠ some dataMissing := by
  have hpost : ∀ rest : String, "earnings +" ++ rest ≠ dataMissing := fun rest h => by
    have hchar := congrArg (fun s : String => s.toList[8]?) h
    simp [dataMissing, String.toList_append] at hchar
  have hpre : ∀ rest : String, "earnings -" ++ rest ≠ dataMissing := fun rest h => by
    have hchar := congrArg (fun s : String => s.toList[8]?) h
    simp [dataMissing, String.toList_append] at hchar
  simp only [earningsBlockReason, Bool.false_eq_true, if_false]
  intro h
  split at h
  next r _ =>
    simp only [String.append_assoc] at h
    exact hpost _ (Option.some.inj h)
  next =>
    split at h
    next =>
      split at h
      next =>
        simp only [String.append_assoc] at h
        exact hpre _ (Option.some.inj h)
      next => cases h
    next => cases h

theorem earningsGuardVeto_buy (henabled : cfg.enabled = true) :
    earningsGuardVeto fromisoformat cfg c symbol "BUY" now =
      match earningsGuardBlock fromisoformat c symbol now cfg.postDays cfg.preDays with
      | .ok veto => veto
      | .error _ => none := by
  rw [earningsGuardVeto, if_neg (by simp [henabled])]

/-- A failed fetch blocks, whatever the windows are. -/
theorem earningsGuardVeto_error (henabled : cfg.enabled = true)
    (h : c.entries.get? symbol = some .error) :
    earningsGuardVeto fromisoformat cfg c symbol "BUY" now =
      some ("blocked:earnings_data_missing", dataMissing) := by
  have hload : loadCachedReportDates fromisoformat c symbol = (none, true) := by
    simp [loadCachedReportDates, h]
  have hest : (if 0 < cfg.preDays then nextEarningsEstimate [] else .ok none) =
      (.ok none : Except String (Option Date)) := by
    split
    next => rfl
    next => rfl
  rw [earningsGuardVeto_buy henabled, earningsGuardBlock, hload]
  simp [hest, earningsBlockReason]

/-- A symbol that was never fetched is not blocked. -/
theorem earningsGuardVeto_cold (h : c.entries.get? symbol = none) :
    earningsGuardVeto fromisoformat cfg c symbol "BUY" now = none := by
  rw [earningsGuardVeto]
  split
  next => rfl
  next => simp [earningsGuardBlock, loadCachedReportDates, h]

theorem not_sperrtag_nil (h : schaetzung cfg [] = .ok est) : ¬Sperrtag cfg [] est now := by
  have hnone : est = none := by
    rw [schaetzung] at h
    split at h
    next => exact (Except.ok.inj h).symm
    next => exact (Except.ok.inj h).symm
  simp [Sperrtag, hnone]

/-- Fetched dates block on the days around a report, unless they or the estimate from them
cannot be read. -/
theorem earningsGuardVeto_fetched (henabled : cfg.enabled = true) {texts : List String}
    (h : c.entries.get? symbol = some (.dates texts)) :
    (earningsGuardVeto fromisoformat cfg c symbol "BUY" now = none ∨
      ∃ reason, earningsGuardVeto fromisoformat cfg c symbol "BUY" now =
        some ("blocked:earnings", reason)) ∧
    (earningsGuardVeto fromisoformat cfg c symbol "BUY" now ≠ none ↔
      ∃ reportDates est, texts.mapM fromisoformat = some reportDates ∧
        schaetzung cfg reportDates = .ok est ∧ Sperrtag cfg reportDates est now) := by
  rw [earningsGuardVeto_buy henabled, earningsGuardBlock, loadCachedReportDates]
  simp only [h]
  cases htexts : texts.mapM fromisoformat with
  | none => simp
  | some reportDates =>
      cases reportDates with
      | nil =>
          refine ⟨.inl rfl, iff_of_false (by simp) ?_⟩
          rintro ⟨reportDates, est, hds, hest, hday⟩
          obtain rfl := Option.some.inj hds
          exact not_sperrtag_nil hest hday
      | cons d ds =>
          simp only [Option.getD_some, Option.some.injEq, exists_and_left, exists_eq_left']
          rw [← schaetzung]
          cases hest : schaetzung cfg (d :: ds) with
          | error e => simp
          | ok est =>
              have hreason := @earningsBlockReason_isSome cfg now (d :: ds) est
              have hne := @earningsBlockReason_ne_dataMissing now (d :: ds) est cfg.postDays
                cfg.preDays
              cases hblock : earningsBlockReason (d :: ds) now cfg.postDays cfg.preDays est
                  false with
              | none =>
                  rw [hblock] at hreason
                  simpa [hblock] using hreason
              | some reason =>
                  rw [hblock] at hreason hne
                  have hother : reason ≠ dataMissing := fun heq => hne (by rw [heq])
                  have hday := hreason.mp ⟨reason, rfl⟩
                  simp [hblock, hother, hday]

end

end Quartalszahlen
