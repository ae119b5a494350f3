import AutonomousEngine.Konto.PortfolioStop

/-!
# Sessions and what halts them

A session starts with a capital that never changes.  The equity at its start is this
capital, and the peak is never below it, whatever calls follow (`Sitzung.schritt`) and
whatever limits are set on the way (`Sitzung.setze`).

A live call that finds trading open halts it exactly when the portfolio stop fires or
the daily breaker halts at the equity of the call (`RiskManager.GreiftEin`).  Otherwise
it follows the peak and leaves the limits alone.
-/

namespace Konto

open Basis

/-! ## The capital of a session -/

/-- The start of the session stays, and the peak does not fall. -/
structure Fortsetzung (l l' : Lage) : Prop where
  start : l'.rm.sessionStartEquity = l.rm.sessionStartEquity
  spitze : l'.rm.peakDailyEquity = l.rm.peakDailyEquity ∨
    l.rm.peakDailyEquity < l'.rm.peakDailyEquity

namespace Fortsetzung

variable {l l' l'' : Lage}

theorem refl (l : Lage) : Fortsetzung l l := ⟨rfl, .inl rfl⟩

theorem of_rm (h : l'.rm = l.rm) : Fortsetzung l l' := by
  constructor
  · rw [h]
  · rw [h]
    exact .inl rfl

theorem trans (h : Fortsetzung l l') (h' : Fortsetzung l' l'') : Fortsetzung l l'' := by
  refine ⟨h'.start.trans h.start, ?_⟩
  rcases h.spitze with he | hlt
  · rw [← he]
    exact h'.spitze
  · rcases h'.spitze with he' | hlt'
    · rw [he']
      exact .inr hlt
    · exact .inr (ExtRat.lt_trans hlt hlt')

theorem bind {x : Ablauf} {f : Lage → Ablauf} (hx : Fortsetzung l x.danach)
    (hf : ∀ l', Fortsetzung l' (f l').danach) : Fortsetzung l (Ablauf.danach (x >>= f)) :=
  Ablauf.danach_bind_of hx fun l' h => h.trans (hf l')

end Fortsetzung

namespace Lage

variable (u : Umgebung) (currentEquity : ExtRat) (d : Drawdown) (l : Lage)

variable {l} in
theorem rufe_fortsetzung (w : Wirkung) {l' : Lage} (h : Fortsetzung l l') :
    Fortsetzung l (l'.rufe u w).danach :=
  h.trans (.of_rm (danach_rufe_rm u w l'))

variable {l} in
theorem meldeCloud_fortsetzung (ereignis : RiskEvent) {l' : Lage} (h : Fortsetzung l l') :
    Fortsetzung l (l'.meldeCloud u ereignis) :=
  h.trans (.of_rm (meldeCloud_rm u ereignis l'))

theorem kontoPortfolioStop_fortsetzung :
    Fortsetzung l (l.kontoPortfolioStop u currentEquity).danach := by
  unfold kontoPortfolioStop
  split
  next =>
    split
    next =>
      refine Fortsetzung.bind ?_ fun l' => meldeCloud_fortsetzung u _ (.refl l')
      unfold loeseAus
      split
      next => exact rufe_fortsetzung u _ ⟨rfl, .inl rfl⟩
      next => exact .refl l
    next => exact .refl l
  next => exact .refl l

theorem mitSpitze_fortsetzung : Fortsetzung l (l.mitSpitze currentEquity) := by
  unfold mitSpitze
  split
  next h => exact ⟨rfl, .inr h⟩
  next => exact .refl l

theorem kontoWarnstufe_fortsetzung :
    Fortsetzung l (l.kontoWarnstufe u currentEquity d) := by
  obtain ⟨b, hb⟩ := kontoWarnstufe_rm u currentEquity d l
  constructor
  · rw [hb]
  · rw [hb]
    exact .inl rfl

theorem anhalten_fortsetzung : Fortsetzung l (l.anhalten u currentEquity d).danach := by
  unfold anhalten
  refine Fortsetzung.bind (rufe_fortsetzung u _ ⟨rfl, .inl rfl⟩) fun l' => ?_
  refine Fortsetzung.bind (rufe_fortsetzung u _ (.refl l')) fun l'' => ?_
  exact meldeCloud_fortsetzung u _ ⟨rfl, .inl rfl⟩

theorem kontoBreaker_fortsetzung :
    Fortsetzung l (l.kontoBreaker u currentEquity d).danach := by
  unfold kontoBreaker
  split
  next =>
    split
    next =>
      refine (anhalten_fortsetzung u currentEquity d l).bind fun l' => ?_
      exact .of_rm (liquidateThroughGateway_danach u l').1
    next => exact .refl l
  next => exact .refl l

theorem erholtSich_fortsetzung (allowUnlock : Bool) :
    Fortsetzung l (l.erholtSich u currentEquity d allowUnlock).danach := by
  unfold erholtSich
  split
  next =>
    obtain ⟨p, hp⟩ := mitDauer_rm u l
    have hdauer : Fortsetzung l (l.mitDauer u).danach := by
      constructor
      · rw [hp]
      · rw [hp]
        exact .inl rfl
    unfold kontoErholung
    refine hdauer.bind fun l' => ?_
    split
    next =>
      unfold aufheben
      refine Fortsetzung.bind (rufe_fortsetzung u _ ⟨rfl, .inl rfl⟩) fun l'' => ?_
      exact meldeCloud_fortsetzung u _ ⟨rfl, .inl rfl⟩
    next => exact .refl l'
  next => exact .refl l

/-- No call ends the session. -/
theorem schritt_fortsetzung (c : Aufruf) : Fortsetzung l (l.schritt c) := by
  cases c with
  | resetDailyLimit e =>
      cases e with
      | unlesbar => exact .refl l
      | _ => exact ⟨rfl, .inl rfl⟩
  | updateAccountEquity u e allowUnlock =>
      cases e with
      | zahl x =>
          refine (kontoPortfolioStop_fortsetzung u x l).bind fun l' => ?_
          have hwarn := (mitSpitze_fortsetzung x l').trans
            (kontoWarnstufe_fortsetzung u x (kontoDrawdown (l'.mitSpitze x).rm x) _)
          exact hwarn.trans ((kontoBreaker_fortsetzung u x _ _).bind fun l'' =>
            erholtSich_fortsetzung u x _ l'' allowUnlock)
      | _ => exact .refl l

end Lage

/-- A session with a capital. -/
structure Sitzung where
  totalCapital : ExtRat
  lage : Lage
  kapital : 0 < totalCapital
  start : lage.rm.sessionStartEquity = totalCapital
  spitze : totalCapital ≤ lage.rm.peakDailyEquity

namespace Sitzung

/-- `__init__`. -/
def neu (totalCapital dailyDrawdownLimitPercent portfolioStopLossPct : ExtRat)
    (userId : Option String) (h : 0 < totalCapital) : Sitzung where
  totalCapital := totalCapital
  lage := ⟨.neu totalCapital dailyDrawdownLimitPercent portfolioStopLossPct userId, []⟩
  kapital := h
  start := rfl
  spitze := ExtRat.le_self (ExtRat.ne_nan_of_le (ExtRat.le_of_lt h)).2

def schritt (s : Sitzung) (c : Aufruf) : Sitzung where
  totalCapital := s.totalCapital
  lage := s.lage.schritt c
  kapital := s.kapital
  start := (s.lage.schritt_fortsetzung c).start.trans s.start
  spitze := by
    rcases (s.lage.schritt_fortsetzung c).spitze with he | hlt
    · rw [he]
      exact s.spitze
    · exact ExtRat.le_trans s.spitze (ExtRat.le_of_lt hlt)

/-- Sets the stop and the daily limit, the latter as a part of the capital. -/
def setze (s : Sitzung) (portfolioStopLossPct dailyDrawdownLimitPercent : ExtRat) : Sitzung where
  totalCapital := s.totalCapital
  lage :=
    { s.lage with
      rm :=
        { s.lage.rm with
          portfolioStopLossPct := portfolioStopLossPct
          dailyDrawdownLimitPercent := dailyDrawdownLimitPercent
          dailyDrawdownLimit := s.totalCapital * dailyDrawdownLimitPercent } }
  kapital := s.kapital
  start := s.start
  spitze := s.spitze

end Sitzung

/-! ## Live calls -/

/-- The portfolio stop fires, or the daily breaker halts. -/
def RiskManager.GreiftEin (rm : RiskManager) (currentEquity : ExtRat) : Prop :=
  rm.portfolioStopTriggered = false ∧ rm.UnterStop currentEquity ∨ rm.BreakerGreift currentEquity

/-- A call follows the peak and leaves the halts and the limits alone. -/
structure Weiter (currentEquity : ExtRat) (l l' : Lage) : Prop where
  tradingHalted : l'.rm.tradingHalted = l.rm.tradingHalted
  start : l'.rm.sessionStartEquity = l.rm.sessionStartEquity
  stop : l'.rm.portfolioStopLossPct = l.rm.portfolioStopLossPct
  triggered : l'.rm.portfolioStopTriggered = l.rm.portfolioStopTriggered
  limit : l'.rm.dailyDrawdownLimit = l.rm.dailyDrawdownLimit
  spitze : l'.rm.peakDailyEquity = l.rm.spitze currentEquity

/-- A stage that hands on every state it is given. -/
theorem Ablauf.danach_bind_ok {x : Ablauf} {f : Lage → Ablauf} (hf : ∀ l, f l = .ok l) :
    Ablauf.danach (x >>= f) = x.danach := by
  cases x with
  | error l => rfl
  | ok l => exact congrArg Ablauf.danach (hf l)

namespace Lage

variable (u : Umgebung) (currentEquity : ExtRat)

/-- A stop that does not fire, as it is not reached or has fired before. -/
theorem kontoPortfolioStop_ok {l : Lage}
    (h : l.rm.portfolioStopTriggered = false → ¬l.rm.UnterStop currentEquity) :
    ∃ l', l.kontoPortfolioStop u currentEquity = .ok l' ∧ l'.rm = l.rm := by
  unfold kontoPortfolioStop
  split
  next hstop =>
    split
    next hpct =>
      have hfrueher : l.rm.portfolioStopTriggered = true := by
        cases ht : l.rm.portfolioStopTriggered with
        | true => rfl
        | false => exact absurd ⟨hstop.1, hstop.2, hpct⟩ (h ht)
      unfold loeseAus
      rw [if_neg (by simp [hfrueher])]
      exact ⟨_, rfl, meldeCloud_rm u _ l⟩
    next => exact ⟨l, rfl, rfl⟩
  next => exact ⟨l, rfl, rfl⟩

/-- Before the breaker a call only follows the peak. -/
theorem vorBreaker_weiter (d : Drawdown) {l l' : Lage} (hrm : l'.rm = l.rm) :
    Weiter currentEquity l ((l'.mitSpitze currentEquity).kontoWarnstufe u currentEquity d) := by
  obtain ⟨b, hb⟩ := kontoWarnstufe_rm u currentEquity d (l'.mitSpitze currentEquity)
  rw [mitSpitze_rm, hrm] at hb
  constructor <;> rw [hb]

theorem drawdown_mitSpitze {l l' : Lage} (hrm : l'.rm = l.rm) :
    (kontoDrawdown (l'.mitSpitze currentEquity).rm currentEquity).drawdown =
      l.rm.spitze currentEquity - currentEquity := by
  show (l'.mitSpitze currentEquity).rm.peakDailyEquity - currentEquity = _
  rw [mitSpitze_rm, hrm]

/-- The live stages behind a stop that does not fire. -/
theorem kontoStufen_live {l l' : Lage} (h : l.kontoPortfolioStop u currentEquity = .ok l')
    (hrm : l'.rm = l.rm) :
    ∃ w d, Weiter currentEquity l w ∧ d.drawdown = l.rm.spitze currentEquity - currentEquity ∧
      Ablauf.danach (l.kontoStufen u currentEquity false) =
        (w.kontoBreaker u currentEquity d).danach := by
  have hd := drawdown_mitSpitze currentEquity hrm
  refine ⟨_, _, vorBreaker_weiter u currentEquity
    (kontoDrawdown (l'.mitSpitze currentEquity).rm currentEquity) hrm, hd, ?_⟩
  unfold kontoStufen
  rw [h]
  have hlive : ∀ d (l : Lage), l.erholtSich u currentEquity d false = .ok l := by
    simp [erholtSich]
  exact Ablauf.danach_bind_ok (hlive _)

/-- A live call halts where the stop fires or the breaker halts. -/
theorem tradingHalted_of_greiftEin {l : Lage} (h : l.rm.GreiftEin currentEquity) :
    (l.schritt (live (u, .zahl currentEquity))).rm.tradingHalted = true := by
  by_cases hfeuert : l.rm.portfolioStopTriggered = false ∧ l.rm.UnterStop currentEquity
  · refine (tradingHalted_iff u false hfeuert.2).mpr fun ht => ?_
    rw [hfeuert.1] at ht
    cases ht
  · obtain ⟨l', hok, hrm⟩ := kontoPortfolioStop_ok u currentEquity (not_and.mp hfeuert)
    obtain ⟨w, d, hw, hd, hstufen⟩ := kontoStufen_live u currentEquity hok hrm
    have hbreaker : w.rm.dailyDrawdownLimit < d.drawdown := by
      rw [hw.limit, hd]
      exact h.resolve_left hfeuert
    refine (congrArg (·.rm.tradingHalted) hstufen).trans ?_
    rw [kontoBreaker_tradingHalted, decide_eq_true hbreaker, Bool.or_true]

/-- Any other live call only follows the peak. -/
theorem weiter_of_not_greiftEin {l : Lage} (h : ¬l.rm.GreiftEin currentEquity) :
    Weiter currentEquity l (l.schritt (live (u, .zahl currentEquity))) := by
  obtain ⟨hstop, hbreaker⟩ := not_or.mp h
  obtain ⟨l', hok, hrm⟩ := kontoPortfolioStop_ok u currentEquity (not_and.mp hstop)
  obtain ⟨w, d, hw, hd, hstufen⟩ := kontoStufen_live u currentEquity hok hrm
  have hruht : w.kontoBreaker u currentEquity d = .ok w := by
    refine kontoBreaker_ruht u currentEquity (.inl ?_)
    rw [hw.limit, hd]
    exact hbreaker
  rw [hruht] at hstufen
  have hschritt : l.schritt (live (u, .zahl currentEquity)) = w := hstufen
  rw [hschritt]
  exact hw

end Lage

end Konto
