import AutonomousEngine.Konto.Grenzen

/-!
# The breaker after the reset of a day

The reset of a day sets the limit of the daily loss anew, from the equity of the
morning, and lifts the halt.  The loss is measured from the peak, and the peak is
not set anew.  It stays the highest equity that was ever reported since the risk
manager was made.

So the breaker of the new day fires at the right call, whatever the day brings,
only where the morning's equity is that highest one (`tagesreset_iff`).  After a
losing day it fires too early.
-/

namespace Konto

open Basis

/-! ## When the breaker should fire -/

/-- Some equity is more than the limit below the highest of the start and the
equities up to it. -/
def Ausgeloest (spitze limit : ℚ) (equities : List ℚ) : Prop :=
  ∃ vor e nach, equities = vor ++ e :: nach ∧ limit < (vor ++ [e]).foldl max spitze - e

theorem not_ausgeloest_nil (spitze limit : ℚ) : ¬Ausgeloest spitze limit [] := by
  rintro ⟨vor, e, nach, h, -⟩
  simp at h

theorem ausgeloest_cons {spitze limit e : ℚ} {es : List ℚ} :
    Ausgeloest spitze limit (e :: es) ↔
      limit < max spitze e - e ∨ Ausgeloest (max spitze e) limit es := by
  constructor
  · rintro ⟨vor, e', nach, h, hlimit⟩
    cases vor with
    | nil =>
        obtain ⟨rfl, -⟩ := List.cons.inj h
        exact .inl (by simpa using hlimit)
    | cons f vor =>
        obtain ⟨rfl, hes⟩ := List.cons.inj h
        exact .inr ⟨vor, e', nach, hes, by simpa using hlimit⟩
  · rintro (hlimit | ⟨vor, e', nach, rfl, hlimit⟩)
    · exact ⟨[], e, es, rfl, by simpa using hlimit⟩
    · exact ⟨e :: vor, e', nach, rfl, by simpa using hlimit⟩

/-! ## A day that is open -/

/-- Trading is open, there is no portfolio stop, and the limit and the peak are
numbers. -/
structure Offen (spitze limit : ℚ) (l : Lage) : Prop where
  tradingHalted : l.rm.tradingHalted = false
  stop : ¬0 < l.rm.portfolioStopLossPct
  limit : l.rm.dailyDrawdownLimit = .of limit
  spitze : l.rm.peakDailyEquity = .of spitze

def gemeldet (c : Umgebung × ℚ) : Aufruf := live (c.1, .zahl (.of c.2))

theorem spitze_of {rm : RiskManager} {spitze : ℚ} (h : rm.peakDailyEquity = .of spitze) (e : ℚ) :
    rm.spitze (.of e) = .of (max spitze e) := by
  rw [RiskManager.spitze, h]
  by_cases hlt : spitze < e
  · rw [if_pos (ExtRat.of_lt_of.mpr hlt), max_eq_right hlt.le]
  · rw [if_neg (mt ExtRat.of_lt_of.mp hlt), max_eq_left (not_lt.mp hlt)]

namespace Offen

variable {spitze limit : ℚ} {l : Lage}

theorem greiftEin_iff (h : Offen spitze limit l) (e : ℚ) :
    l.rm.GreiftEin (.of e) ↔ limit < max spitze e - e := by
  have hstop : ¬l.rm.UnterStop (.of e) := fun hunter => h.stop hunter.stop
  rw [RiskManager.GreiftEin, RiskManager.BreakerGreift, h.limit, spitze_of h.spitze,
    ExtRat.of_sub_of, ExtRat.of_lt_of]
  simp [hstop]

/-- A call at which the breaker stays quiet leaves the day open. -/
theorem weiter (h : Offen spitze limit l) {c : Umgebung × ℚ} (hc : ¬limit < max spitze c.2 - c.2) :
    Offen (max spitze c.2) limit (l.schritt (gemeldet c)) := by
  have hw := Lage.weiter_of_not_greiftEin c.1 (.of c.2) (mt (h.greiftEin_iff c.2).mp hc)
  exact ⟨hw.tradingHalted.trans h.tradingHalted, hw.stop ▸ h.stop, hw.limit.trans h.limit,
    hw.spitze.trans (spitze_of h.spitze c.2)⟩

/-- The day is halted after some calls exactly when one of them was due. -/
theorem lauf (h : Offen spitze limit l) (cs : List (Umgebung × ℚ)) :
    (l.lauf (cs.map gemeldet)).rm.tradingHalted = true ↔
      Ausgeloest spitze limit (cs.map Prod.snd) := by
  induction cs generalizing spitze l with
  | nil =>
      have hopen : ¬(l.lauf ([].map gemeldet)).rm.tradingHalted = true :=
        Bool.eq_false_iff.mp h.tradingHalted
      exact iff_of_false hopen (not_ausgeloest_nil spitze limit)
  | cons c cs ih =>
      rw [List.map_cons, List.map_cons, ausgeloest_cons]
      by_cases hc : limit < max spitze c.2 - c.2
      · have hhalt : (l.schritt (gemeldet c)).rm.tradingHalted = true :=
          Lage.tradingHalted_of_greiftEin c.1 (.of c.2) ((h.greiftEin_iff c.2).mpr hc)
        have hrest := ((l.schritt (gemeldet c)).lauf_live
          (cs.map fun c => (c.1, .zahl (.of c.2)))).1 hhalt
        rw [List.map_map] at hrest
        exact iff_of_true hrest (.inl hc)
      · exact (ih (h.weiter hc)).trans (or_iff_right hc).symm

end Offen

/-! ## The peak over the days -/

/-- A call leaves the peak, the stop and the part of the equity that is the limit
alone. -/
structure Unberuehrt (l l' : Lage) : Prop where
  spitze : l'.rm.peakDailyEquity = l.rm.peakDailyEquity
  stop : l'.rm.portfolioStopLossPct = l.rm.portfolioStopLossPct
  percent : l'.rm.dailyDrawdownLimitPercent = l.rm.dailyDrawdownLimitPercent

namespace Unberuehrt

variable {l l' l'' : Lage}

theorem refl (l : Lage) : Unberuehrt l l := ⟨rfl, rfl, rfl⟩

theorem of_rm (h : l'.rm = l.rm) : Unberuehrt l l' := by
  constructor <;> rw [h]

theorem trans (h : Unberuehrt l l') (h' : Unberuehrt l' l'') : Unberuehrt l l'' :=
  ⟨h'.spitze.trans h.spitze, h'.stop.trans h.stop, h'.percent.trans h.percent⟩

theorem bind {x : Ablauf} {f : Lage → Ablauf} (hx : Unberuehrt l x.danach)
    (hf : ∀ l', Unberuehrt l' (f l').danach) : Unberuehrt l (Ablauf.danach (x >>= f)) :=
  Ablauf.danach_bind_of hx fun l' h => h.trans (hf l')

end Unberuehrt

namespace Lage

variable (u : Umgebung) (currentEquity : ExtRat) (d : Drawdown) (l : Lage)

variable {l} in
theorem rufe_unberuehrt (w : Wirkung) {l' : Lage} (h : Unberuehrt l l') :
    Unberuehrt l (l'.rufe u w).danach :=
  h.trans (.of_rm (danach_rufe_rm u w l'))

variable {l} in
theorem meldeCloud_unberuehrt (ereignis : RiskEvent) {l' : Lage} (h : Unberuehrt l l') :
    Unberuehrt l (l'.meldeCloud u ereignis) :=
  h.trans (.of_rm (meldeCloud_rm u ereignis l'))

theorem kontoWarnstufe_unberuehrt : Unberuehrt l (l.kontoWarnstufe u currentEquity d) := by
  obtain ⟨b, hb⟩ := kontoWarnstufe_rm u currentEquity d l
  constructor <;> rw [hb]

theorem anhalten_unberuehrt : Unberuehrt l (l.anhalten u currentEquity d).danach := by
  unfold anhalten
  refine Unberuehrt.bind (rufe_unberuehrt u _ ⟨rfl, rfl, rfl⟩) fun l' => ?_
  refine Unberuehrt.bind (rufe_unberuehrt u _ (.refl l')) fun l'' => ?_
  exact meldeCloud_unberuehrt u _ ⟨rfl, rfl, rfl⟩

theorem kontoBreaker_unberuehrt : Unberuehrt l (l.kontoBreaker u currentEquity d).danach := by
  unfold kontoBreaker
  split
  next =>
    split
    next =>
      refine (anhalten_unberuehrt u currentEquity d l).bind fun l' => ?_
      exact .of_rm (liquidateThroughGateway_danach u l').1
    next => exact .refl l
  next => exact .refl l

theorem erholtSich_unberuehrt (allowUnlock : Bool) :
    Unberuehrt l (l.erholtSich u currentEquity d allowUnlock).danach := by
  unfold erholtSich
  split
  next =>
    obtain ⟨p, hp⟩ := mitDauer_rm u l
    have hdauer : Unberuehrt l (l.mitDauer u).danach := by
      constructor <;> rw [hp]
    unfold kontoErholung
    refine hdauer.bind fun l' => ?_
    split
    next =>
      unfold aufheben
      refine Unberuehrt.bind (rufe_unberuehrt u _ ⟨rfl, rfl, rfl⟩) fun l'' => ?_
      exact meldeCloud_unberuehrt u _ ⟨rfl, rfl, rfl⟩
    next => exact .refl l'
  next => exact .refl l

end Lage

/-- What is reported to the risk manager over the days, in numbers. -/
inductive Meldung where
  | equity (u : Umgebung) (e : ℚ) (allowUnlock : Bool)
  | tagesreset (e : ℚ)

def Meldung.aufruf : Meldung → Aufruf
  | .equity u e allowUnlock => .updateAccountEquity u (.zahl (.of e)) allowUnlock
  | .tagesreset e => .resetDailyLimit (.zahl (.of e))

/-- The peak after a report.  The reset of a day leaves it. -/
def Meldung.spitze (spitze : ℚ) : Meldung → ℚ
  | .equity _ e _ => max spitze e
  | .tagesreset _ => spitze

/-- The highest equity reported since a start. -/
def hoechststand (start : ℚ) (verlauf : List Meldung) : ℚ := verlauf.foldl Meldung.spitze start

/-- A risk manager without a portfolio stop, its peak and the part that is its limit
numbers. -/
structure Stand (spitze percent : ℚ) (l : Lage) : Prop where
  stop : ¬0 < l.rm.portfolioStopLossPct
  spitze : l.rm.peakDailyEquity = .of spitze
  percent : l.rm.dailyDrawdownLimitPercent = .of percent

namespace Stand

variable {spitze percent : ℚ} {l l' : Lage}

theorem mono (h : Stand spitze percent l) (hl : Unberuehrt l l') : Stand spitze percent l' :=
  ⟨hl.stop ▸ h.stop, hl.spitze.trans h.spitze, hl.percent.trans h.percent⟩

theorem mitSpitze (h : Stand spitze percent l) (e : ℚ) :
    Stand (max spitze e) percent (l.mitSpitze (.of e)) := by
  constructor <;> rw [Lage.mitSpitze_rm]
  · exact h.stop
  · exact spitze_of h.spitze e
  · exact h.percent

theorem schritt (h : Stand spitze percent l) (m : Meldung) :
    Stand (m.spitze spitze) percent (l.schritt m.aufruf) := by
  cases m with
  | tagesreset e => exact h.mono ⟨rfl, rfl, rfl⟩
  | equity u e allowUnlock =>
      obtain ⟨l', hok, hrm⟩ := Lage.kontoPortfolioStop_ok u (.of e)
        (l := l) fun _ hunter => h.stop hunter.stop
      have hspitze := (h.mono (.of_rm hrm)).mitSpitze e
      refine hspitze.mono ?_
      show Unberuehrt _ (l.kontoStufen u (.of e) allowUnlock).danach
      unfold Lage.kontoStufen
      rw [hok]
      exact (Lage.kontoWarnstufe_unberuehrt u (.of e) _ _).trans
        ((Lage.kontoBreaker_unberuehrt u (.of e) _ _).bind fun l'' =>
          Lage.erholtSich_unberuehrt u (.of e) _ l'' allowUnlock)

theorem lauf (h : Stand spitze percent l) (verlauf : List Meldung) :
    Stand (hoechststand spitze verlauf) percent (l.lauf (verlauf.map Meldung.aufruf)) := by
  induction verlauf generalizing spitze l with
  | nil => exact h
  | cons m verlauf ih => exact ih (h.schritt m)

/-- The reset of a day opens it with the old peak. -/
theorem offen (h : Stand spitze percent l) (e : ℚ) :
    Offen spitze (e * percent) (l.mitTageslimit (.of e)) where
  tradingHalted := rfl
  stop := h.stop
  limit := by
    show ExtRat.of e * l.rm.dailyDrawdownLimitPercent = _
    rw [h.percent, ExtRat.of_mul_of]
  spitze := h.spitze

end Stand

/-! ## The breaker of a new day -/

/-- Two starts lead to the same alarms exactly when they are the same start, or the
limit is negative and every equity is an alarm. -/
theorem forall_ausgeloest_iff {spitze morgen limit : ℚ} :
    (∀ es, Ausgeloest spitze limit es ↔ Ausgeloest morgen limit es) ↔
      spitze = morgen ∨ limit < 0 := by
  constructor
  · intro hall
    by_contra hne
    obtain ⟨hne, hlimit⟩ := not_or.mp hne
    have hone : ∀ e, limit < max spitze e - e ↔ limit < max morgen e - e := fun e => by
      simpa [ausgeloest_cons, not_ausgeloest_nil] using hall [e]
    -- an equity at the limit below the lower one is an alarm for the higher one only
    rcases lt_or_gt_of_ne hne with hlt | hgt
    · have h := (hone (spitze - limit)).not
      rw [max_eq_left (by linarith), max_eq_left (by linarith)] at h
      exact h.mp (by linarith) (by linarith)
    · have h := (hone (morgen - limit)).not
      rw [max_eq_left (by linarith), max_eq_left (by linarith)] at h
      exact h.mpr (by linarith) (by linarith)
  · rintro (rfl | hlimit) es
    · exact Iff.rfl
    · cases es with
      | nil => exact iff_of_false (not_ausgeloest_nil _ _) (not_ausgeloest_nil _ _)
      | cons e es =>
          have halarm : ∀ s, limit < max s e - e := fun s => by
            have := le_max_right s e
            linarith
          exact iff_of_true (ausgeloest_cons.mpr (.inl (halarm spitze)))
            (ausgeloest_cons.mpr (.inl (halarm morgen)))

/-- A risk manager at the start of its first session, without a portfolio stop. -/
def erster (kapital percent stop : ℚ) (userId : Option String) : Lage :=
  ⟨.neu (.of kapital) (.of percent) (.of stop) userId, []⟩

theorem erster_stand (kapital percent : ℚ) {stop : ℚ} (hstop : stop ≤ 0) (userId : Option String) :
    Stand kapital percent (erster kapital percent stop userId) :=
  ⟨fun h => hstop.not_gt (ExtRat.zero_lt_of.mp h), rfl, rfl⟩

/-- After the reset of a day the breaker halts at the first equity more than the
limit below the highest of the morning and the day so far, in every course of the
day, exactly when the morning's equity is the highest one reported since the start
or the limit is negative. -/
theorem tagesreset_iff {kapital percent stop : ℚ} (hstop : stop ≤ 0) (userId : Option String)
    (verlauf : List Meldung) (morgen : ℚ) :
    (∀ cs : List (Umgebung × ℚ),
      ((erster kapital percent stop userId).lauf (verlauf.map Meldung.aufruf ++
          .resetDailyLimit (.zahl (.of morgen)) :: cs.map gemeldet)).rm.tradingHalted = true ↔
        Ausgeloest morgen (morgen * percent) (cs.map Prod.snd)) ↔
      hoechststand kapital verlauf = morgen ∨ morgen * percent < 0 := by
  have hstand := (erster_stand kapital percent hstop userId).lauf verlauf
  have hoffen := hstand.offen morgen
  have htag : ∀ cs : List (Umgebung × ℚ),
      ((erster kapital percent stop userId).lauf (verlauf.map Meldung.aufruf ++
          .resetDailyLimit (.zahl (.of morgen)) :: cs.map gemeldet)).rm.tradingHalted = true ↔
        Ausgeloest (hoechststand kapital verlauf) (morgen * percent) (cs.map Prod.snd) := by
    intro cs
    rw [Lage.lauf_append]
    exact hoffen.lauf cs
  rw [← forall_ausgeloest_iff]
  constructor
  · intro h es
    have hes := (htag (es.map fun e => (ruhigeUmgebung, e))).symm.trans (h _)
    simpa [List.map_map, Function.comp_def] using hes
  · exact fun h cs => (htag cs).trans (h _)

/-- A capital of 100000 and a limit of a tenth: the first day ends at 92000. -/
def ersterTag : List Meldung := [.equity ruhigeUmgebung 92000 false]

/-- The next day starts with 92000.  At 89000, which is 3000 below it, the breaker
halts although the limit of the day is 9200. -/
theorem tagesreset_zu_frueh :
    ((erster 100000 (1 / 10) 0 none).lauf (ersterTag.map Meldung.aufruf ++
        .resetDailyLimit (.zahl (.of 92000)) ::
          [gemeldet (ruhigeUmgebung, 89000)])).rm.tradingHalted = true ∧
      ¬Ausgeloest 92000 (92000 * (1 / 10)) [89000] := by
  constructor
  · have hoffen := ((erster_stand 100000 (1 / 10) le_rfl none).lauf ersterTag).offen 92000
    rw [Lage.lauf_append]
    refine (hoffen.lauf [(ruhigeUmgebung, 89000)]).mpr (ausgeloest_cons.mpr (.inl ?_))
    norm_num [hoechststand, ersterTag, Meldung.spitze]
  · rw [ausgeloest_cons]
    norm_num [not_ausgeloest_nil]

/-- A day that gained: the next one starts at the peak. -/
theorem tagesreset_am_hoechststand :
    (0 : ℚ) ≤ 0 ∧ ∀ cs : List (Umgebung × ℚ),
      ((erster 100000 (1 / 10) 0 none).lauf
          ([Meldung.equity ruhigeUmgebung 104000 false].map Meldung.aufruf ++
            .resetDailyLimit (.zahl (.of 104000)) :: cs.map gemeldet)).rm.tradingHalted = true ↔
        Ausgeloest 104000 (104000 * (1 / 10)) (cs.map Prod.snd) :=
  ⟨le_rfl, (tagesreset_iff le_rfl none [.equity ruhigeUmgebung 104000 false] 104000).mpr
    (.inl (by norm_num [hoechststand, Meldung.spitze]))⟩

end Konto
