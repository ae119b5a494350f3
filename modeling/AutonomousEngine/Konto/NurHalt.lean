import AutonomousEngine.Konto.Tagesverlust

/-!
# Live calls only halt

Where unlocking is not allowed, no call takes a halt back.  Three of the four
stages that are left do not touch the halt but for setting it, and none resets
the kill switch.

The liquidation belongs to the halt of the daily breaker: a call that starts one
finds trading open, leaves it halted, and has not fired the portfolio stop.  So a run starts no more liquidations than it has such calls.
-/

namespace Konto

open Basis

/-! ## What a call adds to the calls outside -/

def Wirkung.istReset : Wirkung → Bool
  | .reset _ => true
  | _ => false

def Wirkung.istLiquidation : Wirkung → Bool
  | .liquidation _ => true
  | _ => false

/-- Calls outside were added, with no reset and at most `n` liquidations among
them. -/
def Erweitert (n : Nat) (alt neu : List Wirkung) : Prop :=
  ∃ ws, neu = alt ++ ws ∧ (∀ w ∈ ws, w.istReset = false) ∧ ws.countP Wirkung.istLiquidation ≤ n

theorem Erweitert.refl (n : Nat) (ws : List Wirkung) : Erweitert n ws ws :=
  ⟨[], by simp⟩

theorem Erweitert.trans {n m : Nat} {a b c : List Wirkung} (h : Erweitert n a b)
    (h' : Erweitert m b c) : Erweitert (n + m) a c := by
  obtain ⟨ws, rfl, hr, hl⟩ := h
  obtain ⟨ws', rfl, hr', hl'⟩ := h'
  refine ⟨ws ++ ws', List.append_assoc a ws ws', ?_, ?_⟩
  · intro w hw
    rcases List.mem_append.mp hw with hw | hw
    · exact hr w hw
    · exact hr' w hw
  · rw [List.countP_append]
    omega

theorem Erweitert.einer {w : Wirkung} (hr : w.istReset = false) (ws : List Wirkung) :
    Erweitert (if w.istLiquidation then 1 else 0) ws (ws ++ [w]) := by
  refine ⟨[w], rfl, ?_, ?_⟩
  · intro w' hw
    rwa [List.mem_singleton.mp hw]
  · rw [List.countP_singleton]

/-! ## Stages -/

/-- A stage leaves the halts alone and starts no liquidation. -/
structure Ruhig (l l' : Lage) : Prop where
  tradingHalted : l'.rm.tradingHalted = l.rm.tradingHalted
  portfolioStopTriggered : l'.rm.portfolioStopTriggered = l.rm.portfolioStopTriggered
  verlauf : Erweitert 0 l.verlauf l'.verlauf

theorem Ruhig.refl (l : Lage) : Ruhig l l := ⟨rfl, rfl, .refl 0 l.verlauf⟩

theorem Ruhig.trans {l l' l'' : Lage} (h : Ruhig l l') (h' : Ruhig l' l'') : Ruhig l l'' :=
  ⟨h'.tradingHalted.trans h.tradingHalted,
    h'.portfolioStopTriggered.trans h.portfolioStopTriggered, h.verlauf.trans h'.verlauf⟩

/-- A stage halts trading in one of the two ways, with at most `n` liquidations. -/
structure Haelt (n : Nat) (stop : Bool) (l l' : Lage) : Prop where
  tradingHalted : l'.rm.tradingHalted = true
  portfolioStopTriggered : l'.rm.portfolioStopTriggered = (l.rm.portfolioStopTriggered || stop)
  verlauf : Erweitert n l.verlauf l'.verlauf

theorem Haelt.ruhig {n : Nat} {stop : Bool} {l l' l'' : Lage} (h : Haelt n stop l l')
    (h' : Ruhig l' l'') : Haelt n stop l l'' :=
  ⟨h'.tradingHalted.trans h.tradingHalted,
    h'.portfolioStopTriggered.trans h.portfolioStopTriggered, h.verlauf.trans h'.verlauf⟩

theorem Ruhig.haelt {n : Nat} {stop : Bool} {l l' l'' : Lage} (h : Ruhig l l')
    (h' : Haelt n stop l' l'') : Haelt n stop l l'' := by
  refine ⟨h'.tradingHalted, ?_, ?_⟩
  · rw [h'.portfolioStopTriggered, h.portfolioStopTriggered]
  · have hlauf := h.verlauf.trans h'.verlauf
    rwa [Nat.zero_add] at hlauf

/-- The rule of one stage after another. -/
theorem Ablauf.danach_bind {P : Lage → Prop} {x : Ablauf} {f : Lage → Ablauf}
    (herror : ∀ l, x = .error l → P l) (hok : ∀ l, x = .ok l → P (f l).danach) :
    P (Ablauf.danach (x >>= f)) := by
  cases x with
  | error l => exact herror l rfl
  | ok l => exact hok l rfl

/-- What the first stage leaves and the second one keeps. -/
theorem Ablauf.danach_bind_of {P : Lage → Prop} {x : Ablauf} {f : Lage → Ablauf} (hx : P x.danach)
    (hf : ∀ l, P l → P (f l).danach) : P (Ablauf.danach (x >>= f)) := by
  refine Ablauf.danach_bind ?_ ?_
  · rintro l rfl
    exact hx
  · rintro l rfl
    exact hf l hx

theorem Ruhig.bind {l : Lage} {x : Ablauf} {f : Lage → Ablauf} (hx : Ruhig l x.danach)
    (hf : ∀ l', Ruhig l' (f l').danach) : Ruhig l (Ablauf.danach (x >>= f)) :=
  Ablauf.danach_bind_of hx fun l' h => h.trans (hf l')

theorem Haelt.bind {n : Nat} {stop : Bool} {l : Lage} {x : Ablauf} {f : Lage → Ablauf}
    (hx : Haelt n stop l x.danach) (hf : ∀ l', Ruhig l' (f l').danach) :
    Haelt n stop l (Ablauf.danach (x >>= f)) :=
  Ablauf.danach_bind_of hx fun l' h => h.ruhig (hf l')

namespace Lage

variable (u : Umgebung) (currentEquity : ExtRat)

theorem danach_rufe (w : Wirkung) (l : Lage) :
    (l.rufe u w).danach = { l with verlauf := l.verlauf ++ [w] } := by
  unfold rufe
  split
  next => rfl
  next => rfl

/-- A call outside that is neither a reset nor a liquidation. -/
theorem rufe_ruhig {w : Wirkung} (hr : w.istReset = false) (hl : w.istLiquidation = false)
    (l : Lage) : Ruhig l (l.rufe u w).danach := by
  have h := Erweitert.einer hr l.verlauf
  rw [hl] at h
  rw [danach_rufe]
  exact ⟨rfl, rfl, h⟩

theorem meldeCloud_ruhig (ereignis : RiskEvent) (l : Lage) :
    Ruhig l (l.meldeCloud u ereignis) := by
  unfold meldeCloud
  split
  next => exact ⟨rfl, rfl, .einer rfl l.verlauf⟩
  next => exact .refl l

theorem mitSpitze_ruhig (l : Lage) : Ruhig l (l.mitSpitze currentEquity) := by
  unfold mitSpitze
  split
  next => exact ⟨rfl, rfl, .refl 0 l.verlauf⟩
  next => exact .refl l

theorem kontoWarnstufe_ruhig (d : Drawdown) (l : Lage) :
    Ruhig l (l.kontoWarnstufe u currentEquity d) := by
  have hreduced : ∀ b, Ruhig l { l with rm := { l.rm with tradingReduced := b } } := fun b =>
    ⟨rfl, rfl, .refl 0 l.verlauf⟩
  unfold kontoWarnstufe
  split
  next => exact (hreduced true).trans (meldeCloud_ruhig u _ _)
  next =>
    split
    next => exact (hreduced false).trans (meldeCloud_ruhig u _ _)
    next => exact .refl l

/-- The portfolio stop leaves the halts alone, or fires and halts. -/
theorem kontoPortfolioStop_cases (l : Lage) :
    Ruhig l (l.kontoPortfolioStop u currentEquity).danach ∨
      l.rm.portfolioStopTriggered = false ∧
        Haelt 0 true l (l.kontoPortfolioStop u currentEquity).danach := by
  unfold kontoPortfolioStop
  split
  next =>
    split
    next =>
      unfold loeseAus
      split
      next hneu =>
        have hneu : l.rm.portfolioStopTriggered = false := by simpa using hneu
        have hstop : Haelt 0 true l
            { l with rm := { l.rm with portfolioStopTriggered := true, tradingHalted := true } } :=
          ⟨rfl, (Bool.or_true _).symm, .refl 0 l.verlauf⟩
        exact .inr ⟨hneu, (hstop.ruhig (rufe_ruhig u (by rfl) (by rfl) _)).bind fun l' =>
          meldeCloud_ruhig u _ l'⟩
      next => exact .inl (meldeCloud_ruhig u _ l)
    next => exact .inl (.refl l)
  next => exact .inl (.refl l)

theorem anhalten_haelt (d : Drawdown) (l : Lage) :
    Haelt 0 false l (l.anhalten u currentEquity d).danach := by
  have hhalt : Haelt 0 false l { l with rm := { l.rm with tradingHalted := true } } :=
    ⟨rfl, (Bool.or_false _).symm, .refl 0 l.verlauf⟩
  unfold anhalten
  refine (hhalt.ruhig (rufe_ruhig u (by rfl) (by rfl) _)).bind fun l' => ?_
  refine (rufe_ruhig u (by rfl) (by rfl) l').bind fun l'' => ?_
  refine Ruhig.trans ?_ (meldeCloud_ruhig u _ _)
  exact ⟨rfl, rfl, .refl 0 l''.verlauf⟩

/-- The liquidation leaves the halts alone. -/
theorem liquidateThroughGateway_danach (l : Lage) :
    (l.liquidateThroughGateway u).danach.rm = l.rm ∧
      Erweitert 1 l.verlauf (l.liquidateThroughGateway u).danach.verlauf := by
  unfold liquidateThroughGateway
  split
  next => exact ⟨rfl, .refl 1 l.verlauf⟩
  next => exact ⟨rfl, .refl 1 l.verlauf⟩
  next => exact ⟨rfl, .refl 1 l.verlauf⟩
  next =>
    rw [danach_rufe]
    exact ⟨rfl, .einer rfl l.verlauf⟩

theorem kontoBreaker_ruht {d : Drawdown} {l : Lage}
    (h : ¬l.rm.dailyDrawdownLimit < d.drawdown ∨ l.rm.tradingHalted = true) :
    l.kontoBreaker u currentEquity d = .ok l := by
  unfold kontoBreaker
  split
  next hgreift =>
    have hhalt : l.rm.tradingHalted = true := h.resolve_left fun hn => hn hgreift
    rw [hhalt]
    rfl
  next => rfl

/-- Beyond the limit the daily breaker halts, also when its liquidation fails. -/
theorem kontoBreaker_greift {d : Drawdown} {l : Lage}
    (h : l.rm.dailyDrawdownLimit < d.drawdown) (hoffen : l.rm.tradingHalted = false) :
    Haelt 1 false l (l.kontoBreaker u currentEquity d).danach := by
  have hhalt := anhalten_haelt u currentEquity d l
  unfold kontoBreaker
  rw [if_pos h, hoffen, if_pos (by rfl)]
  refine Ablauf.danach_bind ?_ ?_
  · intro l' hx
    rw [hx] at hhalt
    obtain ⟨ws, hws, hr, hl⟩ := hhalt.verlauf
    exact ⟨hhalt.tradingHalted, hhalt.portfolioStopTriggered, ws, hws, hr, by omega⟩
  · intro l' hx
    rw [hx] at hhalt
    obtain ⟨hrm, hlauf⟩ := liquidateThroughGateway_danach u l'
    refine ⟨?_, ?_, hhalt.verlauf.trans hlauf⟩
    · exact (congrArg RiskManager.tradingHalted hrm).trans hhalt.tradingHalted
    · exact (congrArg RiskManager.portfolioStopTriggered hrm).trans hhalt.portfolioStopTriggered

/-- The daily breaker leaves the halts alone, or finds trading open and halts. -/
theorem kontoBreaker_cases (d : Drawdown) (l : Lage) :
    Ruhig l (l.kontoBreaker u currentEquity d).danach ∨
      l.rm.tradingHalted = false ∧
        Haelt 1 false l (l.kontoBreaker u currentEquity d).danach := by
  by_cases h : l.rm.dailyDrawdownLimit < d.drawdown ∧ l.rm.tradingHalted = false
  · exact .inr ⟨h.2, kontoBreaker_greift u currentEquity h.1 h.2⟩
  · have hruht : l.kontoBreaker u currentEquity d = .ok l := by
      refine kontoBreaker_ruht u currentEquity ?_
      rcases not_and_or.mp h with hn | hn
      · exact .inl hn
      · exact .inr (by simpa using hn)
    rw [hruht]
    exact .inl (.refl l)

/-- The stages behind the portfolio stop, without recovery. -/
theorem tagesstufen_cases (d : Drawdown) (l : Lage) :
    let x : Ablauf := do
      let l := l.kontoWarnstufe u currentEquity d
      let l ← l.kontoBreaker u currentEquity d
      l.erholtSich u currentEquity d false
    Ruhig l x.danach ∨ l.rm.tradingHalted = false ∧ Haelt 1 false l x.danach := by
  intro x
  have hwarn := kontoWarnstufe_ruhig u currentEquity d l
  have hende : ∀ l' : Lage, Ruhig l' (l'.erholtSich u currentEquity d false).danach := by
    intro l'
    have hok : l'.erholtSich u currentEquity d false = .ok l' := by simp [erholtSich]
    rw [hok]
    exact .refl l'
  rcases kontoBreaker_cases u currentEquity d (l.kontoWarnstufe u currentEquity d) with
    hruhig | ⟨hoffen, hhalt⟩
  · exact .inl (hwarn.trans (hruhig.bind hende))
  · exact .inr ⟨hwarn.tradingHalted.symm.trans hoffen, hwarn.haelt (hhalt.bind hende)⟩

end Lage

/-! ## Calls -/

/-- A call halted trading by the daily breaker: it found trading open, and the
portfolio stop did not fire in it. -/
def breakerwechsel (l l' : Lage) : Bool :=
  !l.rm.tradingHalted && l'.rm.tradingHalted &&
    l'.rm.portfolioStopTriggered == l.rm.portfolioStopTriggered

/-- A call takes no halt back, resets no kill switch, and starts a liquidation
only with the halt of the daily breaker. -/
structure NurHalt (l l' : Lage) : Prop where
  tradingHalted : l.rm.tradingHalted = true → l'.rm.tradingHalted = true
  verlauf : Erweitert (breakerwechsel l l').toNat l.verlauf l'.verlauf

theorem Erweitert.mono {n m : Nat} {a b : List Wirkung} (h : Erweitert n a b) (hnm : n ≤ m) :
    Erweitert m a b := by
  obtain ⟨ws, hws, hr, hl⟩ := h
  exact ⟨ws, hws, hr, hl.trans hnm⟩

theorem Ruhig.nurHalt {l l' : Lage} (h : Ruhig l l') : NurHalt l l' :=
  ⟨fun hhalt => h.tradingHalted.trans hhalt, h.verlauf.mono (Nat.zero_le _)⟩

theorem Haelt.nurHalt_stop {l l' : Lage} (h : Haelt 0 true l l') : NurHalt l l' :=
  ⟨fun _ => h.tradingHalted, h.verlauf.mono (Nat.zero_le _)⟩

theorem Haelt.nurHalt_breaker {l l' : Lage} (h : Haelt 1 false l l')
    (hoffen : l.rm.tradingHalted = false) : NurHalt l l' := by
  have hwechsel : breakerwechsel l l' = true := by
    simp [breakerwechsel, hoffen, h.tradingHalted, h.portfolioStopTriggered]
  refine ⟨fun _ => h.tradingHalted, ?_⟩
  rw [hwechsel]
  exact h.verlauf

/-- A call that may not unlock. -/
theorem Lage.updateAccountEquity_nurHalt (u : Umgebung) (currentEquity : Lage.Equity) (l : Lage) :
    NurHalt l (l.updateAccountEquity u currentEquity false).danach := by
  cases currentEquity with
  | keine => exact (Ruhig.refl l).nurHalt
  | unlesbar => exact (Ruhig.refl l).nurHalt
  | zahl x =>
      show NurHalt l (l.kontoStufen u x false).danach
      have hstop := l.kontoPortfolioStop_cases u x
      refine Ablauf.danach_bind ?_ ?_
      · intro l' hx
        rw [hx] at hstop
        rcases hstop with hruhig | ⟨-, hhalt⟩
        · exact hruhig.nurHalt
        · exact hhalt.nurHalt_stop
      · intro l' hx
        rw [hx] at hstop
        have hspitze := l'.mitSpitze_ruhig x
        rcases (l'.mitSpitze x).tagesstufen_cases u x (kontoDrawdown (l'.mitSpitze x).rm x) with
          hrest | ⟨hoffen, hhalt⟩
        · rcases hstop with hruhig | ⟨-, hfeuert⟩
          · exact (hruhig.trans (hspitze.trans hrest)).nurHalt
          · exact (hfeuert.ruhig (hspitze.trans hrest)).nurHalt_stop
        · have hoffen' : l'.rm.tradingHalted = false := hspitze.tradingHalted.symm.trans hoffen
          rcases hstop with hruhig | ⟨-, hfeuert⟩
          · exact ((hruhig.trans hspitze).haelt hhalt).nurHalt_breaker
              (hruhig.tradingHalted.symm.trans hoffen')
          · rw [show l'.rm.tradingHalted = true from hfeuert.tradingHalted] at hoffen'
            cases hoffen'

/-! ## Runs -/

def live (c : Umgebung × Lage.Equity) : Aufruf := .updateAccountEquity c.1 c.2 false

/-- The calls of a run that halt trading by the daily breaker. -/
def breakerwechselIn (l : Lage) : List Aufruf → Nat
  | [] => 0
  | c :: cs => (breakerwechsel l (l.schritt c)).toNat + breakerwechselIn (l.schritt c) cs

theorem Lage.lauf_append (l : Lage) (cs cs' : List Aufruf) :
    l.lauf (cs ++ cs') = (l.lauf cs).lauf cs' :=
  List.foldl_append

theorem Lage.lauf_live (l : Lage) (cs : List (Umgebung × Lage.Equity)) :
    (l.rm.tradingHalted = true → (l.lauf (cs.map live)).rm.tradingHalted = true) ∧
      Erweitert (breakerwechselIn l (cs.map live)) l.verlauf (l.lauf (cs.map live)).verlauf := by
  induction cs generalizing l with
  | nil => exact ⟨id, .refl 0 l.verlauf⟩
  | cons c cs ih =>
      have hfirst : NurHalt l (l.schritt (live c)) := l.updateAccountEquity_nurHalt c.1 c.2
      obtain ⟨hhalt, hlauf⟩ := ih (l.schritt (live c))
      exact ⟨fun h => hhalt (hfirst.tradingHalted h), hfirst.verlauf.trans hlauf⟩

/-- However the equity moves, live calls take no halt back and reset no kill
switch, and they start no more liquidations than there are halts of the daily
breaker. -/
theorem live_nur_halt (l : Lage) (cs : List (Umgebung × Lage.Equity)) :
    (∀ vor nach, cs = vor ++ nach → (l.lauf (vor.map live)).rm.tradingHalted = true →
      (l.lauf (cs.map live)).rm.tradingHalted = true) ∧
    ∃ ws, (l.lauf (cs.map live)).verlauf = l.verlauf ++ ws ∧ (∀ w ∈ ws, w.istReset = false) ∧
      ws.countP Wirkung.istLiquidation ≤ breakerwechselIn l (cs.map live) := by
  refine ⟨?_, (l.lauf_live cs).2⟩
  rintro vor nach rfl hhalt
  rw [List.map_append, Lage.lauf_append]
  exact ((l.lauf (vor.map live)).lauf_live nach).1 hhalt

end Konto
