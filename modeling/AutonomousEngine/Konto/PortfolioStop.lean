import AutonomousEngine.Konto.NurHalt

/-!
# The portfolio stop

A loss since the start of the session beyond the portfolio stop is to leave
trading halted for the rest of the session.  The stop sets the halt when it fires,
and it fires once.  Recovery leaves the halt of a fired stop alone, but the reset
of the day takes every halt back.

So a call below the stop leaves trading halted exactly when the stop has not
fired yet, the halt is still there, or the daily breaker halts as well
(`tradingHalted_iff`).  Without a reset of the day after the stop that is so in
every call (`stopHaelt_of_ohneReset`).
-/

namespace Konto

open Basis

/-! ## What the stages do to a fired stop -/

def RiskManager.spitze (rm : RiskManager) (currentEquity : ExtRat) : ExtRat :=
  if rm.peakDailyEquity < currentEquity then currentEquity else rm.peakDailyEquity

/-- The daily breaker halts at an equity. -/
def RiskManager.BreakerGreift (rm : RiskManager) (currentEquity : ExtRat) : Prop :=
  rm.dailyDrawdownLimit < rm.spitze currentEquity - currentEquity

instance (rm : RiskManager) (currentEquity : ExtRat) : Decidable (rm.BreakerGreift currentEquity) :=
  inferInstanceAs (Decidable (_ < _))

/-- An equity below the portfolio stop, in a session that has one. -/
structure RiskManager.UnterStop (rm : RiskManager) (currentEquity : ExtRat) : Prop where
  session : 0 < rm.sessionStartEquity
  stop : 0 < rm.portfolioStopLossPct
  pctDown : rm.portfolioStopLossPct ≤ Lage.pctDown rm currentEquity

namespace Lage

variable (u : Umgebung) (currentEquity : ExtRat)

@[simp] theorem meldeCloud_rm (ereignis : RiskEvent) (l : Lage) :
    (l.meldeCloud u ereignis).rm = l.rm := by
  unfold meldeCloud
  split
  next => rfl
  next => rfl

@[simp] theorem danach_rufe_rm (w : Wirkung) (l : Lage) : (l.rufe u w).danach.rm = l.rm := by
  rw [danach_rufe]

/-- What follows a stage and leaves the risk manager alone. -/
theorem danach_bind_rm {x : Ablauf} {f : Lage → Ablauf} (hf : ∀ l, (f l).danach.rm = l.rm) :
    (Ablauf.danach (x >>= f)).rm = x.danach.rm := by
  exact Ablauf.danach_bind_of (P := fun l => l.rm = x.danach.rm) rfl fun l h => (hf l).trans h

theorem mitSpitze_rm (l : Lage) :
    (l.mitSpitze currentEquity).rm =
      { l.rm with peakDailyEquity := l.rm.spitze currentEquity } := by
  unfold mitSpitze RiskManager.spitze
  split
  next => rfl
  next => rfl

theorem kontoWarnstufe_rm (d : Drawdown) (l : Lage) :
    ∃ b, (l.kontoWarnstufe u currentEquity d).rm = { l.rm with tradingReduced := b } := by
  unfold kontoWarnstufe
  split
  next => exact ⟨true, meldeCloud_rm u _ _⟩
  next =>
    split
    next => exact ⟨false, meldeCloud_rm u _ _⟩
    next => exact ⟨l.rm.tradingReduced, rfl⟩

/-- A stop that fires halts, and one that has fired before leaves the halt as it
is. -/
theorem kontoPortfolioStop_unterStop {l : Lage} (h : l.rm.UnterStop currentEquity) :
    (l.kontoPortfolioStop u currentEquity).danach.rm =
      { l.rm with
        portfolioStopTriggered := true
        tradingHalted := l.rm.tradingHalted || !l.rm.portfolioStopTriggered } := by
  unfold kontoPortfolioStop
  rw [if_pos ⟨h.session, h.stop⟩, if_pos h.pctDown]
  refine (danach_bind_rm ?_).trans ?_
  · intro l'
    exact meldeCloud_rm u _ l'
  unfold loeseAus
  cases hfrueher : l.rm.portfolioStopTriggered with
  | true =>
      show l.rm = _
      rw [Bool.not_true, Bool.or_false, ← hfrueher]
  | false =>
      rw [if_pos (by rfl), danach_rufe_rm, Bool.not_false, Bool.or_true]

theorem kontoPortfolioStop_error {l l' : Lage}
    (h : l.kontoPortfolioStop u currentEquity = .error l') :
    l.rm.portfolioStopTriggered = false := by
  cases hfrueher : l.rm.portfolioStopTriggered with
  | false => rfl
  | true =>
      simp only [kontoPortfolioStop, loeseAus, hfrueher] at h
      split at h
      next =>
        split at h
        next => cases h
        next => cases h
      next => cases h

theorem mitSchwelle_rm (seit : Int) (l : Lage) :
    ∃ p, (l.mitSchwelle u seit).rm = { l.rm with unlockRecoveryPercent := p } := by
  by_cases h4 : stunden seit u.jetzt > 4
  · exact ⟨.of (1 / 5), by by_cases h2 : stunden seit u.jetzt > 2 <;> simp [mitSchwelle, h2, h4]⟩
  · by_cases h2 : stunden seit u.jetzt > 2
    · exact ⟨.of (3 / 10), by simp [mitSchwelle, h2, h4]⟩
    · exact ⟨l.rm.unlockRecoveryPercent, by simp [mitSchwelle, h2, h4]⟩

theorem mitDauer_rm (l : Lage) :
    ∃ p, (l.mitDauer u).danach.rm = { l.rm with unlockRecoveryPercent := p } := by
  unfold mitDauer
  split
  next => exact ⟨l.rm.unlockRecoveryPercent, rfl⟩
  next seit _ =>
    refine Ablauf.danach_bind_of
      (P := fun l' => ∃ p, l'.rm = { l.rm with unlockRecoveryPercent := p })
      ⟨l.rm.unlockRecoveryPercent, danach_rufe_rm u .uhr l⟩ ?_
    rintro l' ⟨q, hq⟩
    obtain ⟨p, hp⟩ := mitSchwelle_rm u seit l'
    rw [hq] at hp
    exact ⟨p, hp⟩

theorem erholtSich_triggered (d : Drawdown) (allowUnlock : Bool) {l : Lage}
    (h : l.rm.portfolioStopTriggered = true) :
    ∃ p, (l.erholtSich u currentEquity d allowUnlock).danach.rm =
      { l.rm with unlockRecoveryPercent := p } := by
  unfold erholtSich
  split
  next =>
    obtain ⟨p, hp⟩ := mitDauer_rm u l
    refine ⟨p, ?_⟩
    unfold kontoErholung
    refine Ablauf.danach_bind_of
      (P := fun l' => l'.rm = { l.rm with unlockRecoveryPercent := p }) hp ?_
    intro l' hl
    have hstop : l'.rm.portfolioStopTriggered = true := by
      rw [hl]
      exact h
    rw [if_neg (by simp [hstop])]
    exact hl
  next => exact ⟨l.rm.unlockRecoveryPercent, rfl⟩

/-- The daily breaker adds its halt to the one there is. -/
theorem kontoBreaker_tradingHalted (d : Drawdown) (l : Lage) :
    (l.kontoBreaker u currentEquity d).danach.rm.tradingHalted =
      (l.rm.tradingHalted || decide (l.rm.dailyDrawdownLimit < d.drawdown)) := by
  cases hhalt : l.rm.tradingHalted with
  | true =>
      rw [kontoBreaker_ruht u currentEquity (.inr hhalt)]
      exact hhalt
  | false =>
      by_cases hgreift : l.rm.dailyDrawdownLimit < d.drawdown
      · have hbreaker := (kontoBreaker_greift u currentEquity hgreift hhalt).tradingHalted
        rw [hbreaker, decide_eq_true hgreift]
        rfl
      · rw [kontoBreaker_ruht u currentEquity (.inl hgreift), decide_eq_false hgreift]
        exact hhalt

/-- The breaker and the recovery, once the portfolio stop has fired. -/
theorem bruchstufen_triggered (d : Drawdown) (allowUnlock : Bool) {l : Lage}
    (h : l.rm.portfolioStopTriggered = true) :
    let x : Ablauf := do
      let l ← l.kontoBreaker u currentEquity d
      l.erholtSich u currentEquity d allowUnlock
    x.danach.rm.portfolioStopTriggered = true ∧
      x.danach.rm.tradingHalted =
        (l.rm.tradingHalted || decide (l.rm.dailyDrawdownLimit < d.drawdown)) := by
  intro x
  have hhalt := kontoBreaker_tradingHalted u currentEquity d l
  have hstop : (l.kontoBreaker u currentEquity d).danach.rm.portfolioStopTriggered = true := by
    rcases kontoBreaker_cases u currentEquity d l with hruhig | ⟨-, hhaelt⟩
    · exact hruhig.portfolioStopTriggered.trans h
    · rw [hhaelt.portfolioStopTriggered, h, Bool.true_or]
  refine Ablauf.danach_bind_of (P := fun l' => l'.rm.portfolioStopTriggered = true ∧
    l'.rm.tradingHalted = (l.rm.tradingHalted || decide (l.rm.dailyDrawdownLimit < d.drawdown)))
    ⟨hstop, hhalt⟩ ?_
  rintro l' ⟨hstop', hhalt'⟩
  obtain ⟨p, hp⟩ := erholtSich_triggered u currentEquity d allowUnlock hstop'
  rw [hp]
  exact ⟨hstop', hhalt'⟩

/-- All stages behind the portfolio stop, once it has fired. -/
theorem tagesstufen_triggered (allowUnlock : Bool) {l : Lage}
    (h : l.rm.portfolioStopTriggered = true) :
    let d := kontoDrawdown (l.mitSpitze currentEquity).rm currentEquity
    let x : Ablauf := do
      let l ← ((l.mitSpitze currentEquity).kontoWarnstufe u currentEquity d).kontoBreaker u
        currentEquity d
      l.erholtSich u currentEquity d allowUnlock
    x.danach.rm.portfolioStopTriggered = true ∧
      x.danach.rm.tradingHalted =
        (l.rm.tradingHalted || decide (l.rm.BreakerGreift currentEquity)) := by
  intro d x
  obtain ⟨b, hwarn⟩ := kontoWarnstufe_rm u currentEquity d (l.mitSpitze currentEquity)
  rw [mitSpitze_rm] at hwarn
  have hdraw : d.drawdown = l.rm.spitze currentEquity - currentEquity := by
    show (l.mitSpitze currentEquity).rm.peakDailyEquity - currentEquity = _
    rw [mitSpitze_rm]
  obtain ⟨hstop, hhalt⟩ := bruchstufen_triggered u currentEquity d allowUnlock
    (l := (l.mitSpitze currentEquity).kontoWarnstufe u currentEquity d) (by rw [hwarn]; exact h)
  refine ⟨hstop, hhalt.trans ?_⟩
  rw [hwarn, hdraw]
  rfl

end Lage

/-! ## Calls -/

/-- A call below the stop leaves trading halted exactly when the stop has not
fired before, the halt is still there, or the daily breaker halts. -/
theorem tradingHalted_iff (u : Umgebung) {currentEquity : ExtRat} (allowUnlock : Bool) {l : Lage}
    (h : l.rm.UnterStop currentEquity) :
    (l.updateAccountEquity u (.zahl currentEquity) allowUnlock).danach.rm.tradingHalted = true ↔
      (l.rm.portfolioStopTriggered = true → l.rm.tradingHalted = true ∨
        l.rm.BreakerGreift currentEquity) := by
  have hrm := Lage.kontoPortfolioStop_unterStop u currentEquity h
  show (Ablauf.danach (l.kontoStufen u currentEquity allowUnlock)).rm.tradingHalted = true ↔ _
  refine Ablauf.danach_bind (P := fun l' => l'.rm.tradingHalted = true ↔ _) ?_ ?_
  · intro l' hx
    have hfrueher := Lage.kontoPortfolioStop_error u currentEquity hx
    rw [hx] at hrm
    rw [show l'.rm = _ from hrm, hfrueher]
    simp
  · intro l' hx
    rw [hx] at hrm
    have hrm : l'.rm = _ := hrm
    have hhalt := (Lage.tagesstufen_triggered u currentEquity allowUnlock (l := l')
      (by rw [hrm])).2
    have hgrenze : l'.rm.BreakerGreift currentEquity ↔ l.rm.BreakerGreift currentEquity := by
      rw [hrm]
      exact Iff.rfl
    refine (Eq.congr hhalt rfl).trans ?_
    rw [Bool.or_eq_true, decide_eq_true_iff, hgrenze, hrm]
    cases l.rm.portfolioStopTriggered with
    | true => simp
    | false => simp

/-! ## Sessions without a reset after the stop -/

namespace Lage

variable (u : Umgebung) (currentEquity : ExtRat)

theorem aufheben_stop (d : Drawdown) (l : Lage) :
    (l.aufheben u currentEquity d).danach.rm.portfolioStopTriggered =
      l.rm.portfolioStopTriggered := by
  unfold aufheben
  refine Ablauf.danach_bind_of
    (P := fun l' => l'.rm.portfolioStopTriggered = l.rm.portfolioStopTriggered) ?_ ?_
  · rw [danach_rufe_rm]
  · intro l' hl
    show (meldeCloud u _ _).rm.portfolioStopTriggered = _
    rw [meldeCloud_rm]
    exact hl

theorem erholtSich_stop (d : Drawdown) (allowUnlock : Bool) (l : Lage) :
    (l.erholtSich u currentEquity d allowUnlock).danach.rm.portfolioStopTriggered =
      l.rm.portfolioStopTriggered := by
  unfold erholtSich
  split
  next =>
    obtain ⟨p, hp⟩ := mitDauer_rm u l
    unfold kontoErholung
    refine Ablauf.danach_bind_of
      (P := fun l' => l'.rm.portfolioStopTriggered = l.rm.portfolioStopTriggered) (by rw [hp]) ?_
    intro l' hl
    split
    next => exact (aufheben_stop u currentEquity d l').trans hl
    next => exact hl
  next => rfl

/-- Nothing behind the portfolio stop fires it. -/
theorem tagesstufen_stop (allowUnlock : Bool) (l : Lage) :
    let d := kontoDrawdown (l.mitSpitze currentEquity).rm currentEquity
    let x : Ablauf := do
      let l ← ((l.mitSpitze currentEquity).kontoWarnstufe u currentEquity d).kontoBreaker u
        currentEquity d
      l.erholtSich u currentEquity d allowUnlock
    x.danach.rm.portfolioStopTriggered = l.rm.portfolioStopTriggered := by
  intro d x
  have hvor := (mitSpitze_ruhig currentEquity l).trans
    (kontoWarnstufe_ruhig u currentEquity d (l.mitSpitze currentEquity))
  refine Ablauf.danach_bind_of
    (P := fun l' => l'.rm.portfolioStopTriggered = l.rm.portfolioStopTriggered) ?_ ?_
  · rcases kontoBreaker_cases u currentEquity d
      ((l.mitSpitze currentEquity).kontoWarnstufe u currentEquity d) with hruhig | ⟨-, hhalt⟩
    · exact (hvor.trans hruhig).portfolioStopTriggered
    · exact (hvor.haelt hhalt).portfolioStopTriggered.trans (Bool.or_false _)
  · intro l' hl
    exact (erholtSich_stop u currentEquity d allowUnlock l').trans hl

def StopGehalten (l : Lage) : Prop :=
  l.rm.portfolioStopTriggered = true → l.rm.tradingHalted = true

/-- Behind the portfolio stop nothing fires it, and nothing takes its halt back. -/
theorem kontoStufen_gehalten (allowUnlock : Bool) {l : Lage} (h : l.StopGehalten) :
    (Ablauf.danach (l.kontoStufen u currentEquity allowUnlock)).StopGehalten := by
  have hstop : (l.kontoPortfolioStop u currentEquity).danach.StopGehalten := by
    intro htriggered
    rcases l.kontoPortfolioStop_cases u currentEquity with hruhig | ⟨-, hhalt⟩
    · rw [hruhig.tradingHalted]
      exact h (hruhig.portfolioStopTriggered.symm.trans htriggered)
    · exact hhalt.tradingHalted
  refine Ablauf.danach_bind_of hstop ?_
  intro l' hl htriggered
  have hfrueher : l'.rm.portfolioStopTriggered = true :=
    (l'.tagesstufen_stop u currentEquity allowUnlock).symm.trans htriggered
  refine (l'.tagesstufen_triggered u currentEquity allowUnlock hfrueher).2.trans ?_
  rw [hl hfrueher, Bool.true_or]

end Lage

/-! ## Runs -/

/-- After every call of a run below the stop, trading is halted. -/
def StopHaelt (l : Lage) (cs : List Aufruf) : Prop :=
  ∀ vor u currentEquity allowUnlock nach,
    cs = vor ++ .updateAccountEquity u (.zahl currentEquity) allowUnlock :: nach →
    (l.lauf vor).rm.UnterStop currentEquity →
    (l.lauf (vor ++ [.updateAccountEquity u (.zahl currentEquity) allowUnlock])).rm.tradingHalted =
      true

/-- The portfolio stop holds in a run exactly when each call below the stop that
finds it fired finds the halt as well, or is beyond the daily limit too. -/
theorem portfolio_stop_haelt (l : Lage) (cs : List Aufruf) :
    StopHaelt l cs ↔
      ∀ vor u currentEquity allowUnlock nach,
        cs = vor ++ .updateAccountEquity u (.zahl currentEquity) allowUnlock :: nach →
        (l.lauf vor).rm.UnterStop currentEquity →
        (l.lauf vor).rm.portfolioStopTriggered = true →
          (l.lauf vor).rm.tradingHalted = true ∨ (l.lauf vor).rm.BreakerGreift currentEquity := by
  have hschritt : ∀ vor u currentEquity allowUnlock, (l.lauf vor).rm.UnterStop currentEquity →
      ((l.lauf (vor ++ [.updateAccountEquity u (.zahl currentEquity) allowUnlock])).rm.tradingHalted
          = true ↔
        ((l.lauf vor).rm.portfolioStopTriggered = true → (l.lauf vor).rm.tradingHalted = true ∨
          (l.lauf vor).rm.BreakerGreift currentEquity)) := by
    intro vor u currentEquity allowUnlock hunter
    rw [Lage.lauf_append]
    exact tradingHalted_iff u allowUnlock hunter
  constructor
  · intro h vor u currentEquity allowUnlock nach hcs hunter
    exact (hschritt vor u currentEquity allowUnlock hunter).mp
      (h vor u currentEquity allowUnlock nach hcs hunter)
  · intro h vor u currentEquity allowUnlock nach hcs hunter
    exact (hschritt vor u currentEquity allowUnlock hunter).mpr
      (h vor u currentEquity allowUnlock nach hcs hunter)

/-- As long as the day is not reset after the stop has fired, the stop holds. -/
theorem stopHaelt_of_ohneReset {l : Lage} (h : l.StopGehalten) (cs : List Aufruf)
    (hcs : ∀ vor e nach, cs = vor ++ .resetDailyLimit e :: nach →
      (l.lauf vor).rm.portfolioStopTriggered = false) :
    StopHaelt l cs := by
  have hgehalten : ∀ vor nach, cs = vor ++ nach → (l.lauf vor).StopGehalten := by
    intro vor
    induction vor using List.reverseRecOn with
    | nil => exact fun _ _ => h
    | append_singleton vor c ih =>
        intro nach hnach
        rw [List.append_assoc, List.singleton_append] at hnach
        have hvor := ih _ hnach
        rw [Lage.lauf_append]
        cases c with
        | updateAccountEquity u e allowUnlock =>
            cases e with
            | zahl x => exact Lage.kontoStufen_gehalten u x allowUnlock hvor
            | keine => exact hvor
            | unlesbar => exact hvor
        | resetDailyLimit e =>
            have hoffen := hcs vor e nach hnach
            intro htriggered
            cases e with
            | unlesbar => exact hvor htriggered
            | keine => exact absurd (hoffen.symm.trans htriggered) Bool.false_ne_true
            | zahl x => exact absurd (hoffen.symm.trans htriggered) Bool.false_ne_true
  intro vor u currentEquity allowUnlock nach hnach hunter
  rw [Lage.lauf_append]
  exact (tradingHalted_iff u allowUnlock hunter).mpr fun htriggered =>
    .inl (hgehalten vor _ hnach htriggered)

def ruhigeUmgebung : Umgebung where
  wirft := fun _ => false
  jetzt := 0
  cloudLoggingAvailable := false
  bestand := .unbekannt

/-- A day in the red: the stop fires at a loss of eight percent, the day is reset, and the next
call finds the same loss. -/
def imMinus : List Aufruf :=
  [.updateAccountEquity ruhigeUmgebung (.zahl (.of 92000)) false,
    .resetDailyLimit (.zahl (.of 92000)),
    .updateAccountEquity ruhigeUmgebung (.zahl (.of 92000)) false]

/-- After the reset of the day the stop does not halt any more. -/
theorem portfolio_stop_vergessen :
    ¬StopHaelt ⟨.neu (.of 100000) (.of (7 / 40)) (.of (7 / 100)) none, []⟩ imMinus := by
  have hstand :
      (Lage.lauf ⟨.neu (.of 100000) (.of (7 / 40)) (.of (7 / 100)) none, []⟩ (imMinus.take 2)).rm =
        { RiskManager.neu (.of 100000) (.of (7 / 40)) (.of (7 / 100)) none with
          portfolioStopTriggered := true
          initialDailyEquity := .of 92000
          dailyDrawdownLimit := .of 16100 } := by
    norm_num [imMinus, Lage.lauf, Lage.schritt, Lage.updateAccountEquity, Lage.resetDailyLimit,
      Lage.mitTageslimit, Lage.kontoStufen, Lage.kontoPortfolioStop, Lage.pctDown, Lage.loeseAus,
      Lage.rufe, Lage.meldeCloud, Lage.mitSpitze, Lage.kontoDrawdown, Lage.kontoWarnstufe,
      Lage.kontoBreaker, Lage.erholtSich, RiskManager.neu, ruhigeUmgebung, Ablauf.danach, bind,
      Except.bind, pure, Except.pure]
  intro h
  have hunter : RiskManager.UnterStop
      (Lage.lauf ⟨.neu (.of 100000) (.of (7 / 40)) (.of (7 / 100)) none, []⟩ (imMinus.take 2)).rm
      (.of 92000) := by
    rw [hstand]
    constructor <;> norm_num [RiskManager.neu, Lage.pctDown]
  have hhalt := h (imMinus.take 2) ruhigeUmgebung (.of 92000) false [] rfl hunter
  rw [Lage.lauf_append] at hhalt
  have hwieder := (tradingHalted_iff ruhigeUmgebung false hunter).mp hhalt
  rw [hstand] at hwieder
  norm_num [RiskManager.neu, RiskManager.BreakerGreift, RiskManager.spitze] at hwieder

end Konto
