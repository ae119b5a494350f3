import AutonomousEngine.Basis.Calendar
import AutonomousEngine.Basis.Text
import Mathlib.Data.Int.ConditionallyCompleteOrder
import Mathlib.Data.List.Induction

/-!
# The re-entry lockout

A name that was sold is locked for some trading days, and the slot that a loss stop
freed is held for some.  Both dates of a name are in one entry of a store, which a file
keeps over restarts.  An entry stays as long as one of its dates lies ahead.

So an entry may stay for its slot when its name is free again.  `active` looks at the
date of the name, `arm` returns every name that has one.
-/

namespace Positionsbuch

open Basis

/-! ## Dates of a lockout -/

/-- The days of a weekend that follow a day. -/
def wochenende (d : Date) : ℕ := if d.weekday = 4 then 2 else if d.weekday = 5 then 1 else 0

/-- The day that lies some weekdays ahead, `none` past the last date. -/
def lockoutLoop (day : Date) (remaining : ℕ) : Option Date :=
  match remaining with
  | 0 => some day
  | remaining + 1 =>
      match h : day.next with
      | none => none
      | some d => lockoutLoop d (if d.weekday < 5 then remaining else remaining + 1)
termination_by 3 * remaining + wochenende day
decreasing_by
  have hweek := Date.weekday_next h
  have hlt := day.weekday_lt
  unfold wochenende
  split_ifs <;> omega

/-- The first day on which a name may be bought again.  The outer `none` is a date out of
range, the inner one a name that is never locked. -/
def lockoutUntil (day : Date) (days : ℤ) : Option (Option Date) :=
  if days ≤ 0 then some none else (lockoutLoop day days.toNat).map some

theorem lockoutLoop_zero (day : Date) : lockoutLoop day 0 = some day := by rw [lockoutLoop]

theorem lockoutLoop_of_next {day d : Date} {remaining : ℕ} (h : day.next = some d) :
    lockoutLoop day (remaining + 1) =
      lockoutLoop d (if d.weekday < 5 then remaining else remaining + 1) := by
  rw [lockoutLoop]
  split
  next hnone =>
    rw [h] at hnone
    cases hnone
  next d' hsome =>
    rw [h] at hsome
    cases hsome
    rfl

theorem le_of_lockoutLoop {day d : Date} {remaining : ℕ} (h : lockoutLoop day remaining = some d) :
    day ≤ d ∧ (remaining ≠ 0 → day < d) := by
  induction day, remaining using lockoutLoop.induct with
  | case1 day =>
      rw [lockoutLoop_zero] at h
      cases h
      exact ⟨le_rfl, fun hne => absurd rfl hne⟩
  | case2 day remaining hnone =>
      rw [lockoutLoop] at h
      split at h
      next => cases h
      next hsome =>
        rw [hnone] at hsome
        cases hsome
  | case3 day remaining d' hsome ih =>
      rw [lockoutLoop_of_next hsome] at h
      have hlt : day < d := (Date.lt_next hsome).trans_le (ih h).1
      exact ⟨hlt.le, fun _ => hlt⟩

/-- A lock ends after the day on which it begins. -/
theorem lt_of_lockoutUntil {day d : Date} {days : ℤ} (h : lockoutUntil day days = some (some d)) :
    day < d := by
  unfold lockoutUntil at h
  split at h
  next => cases h
  next hpos =>
    obtain ⟨d', hloop, hd⟩ := Option.map_eq_some_iff.mp h
    cases hd
    exact (le_of_lockoutLoop hloop).2 (by omega)

/-! ## The store -/

/-- An entry.  The dates are texts. -/
structure Eintrag where
  exitedAt : ℤ
  untilDay : Option String
  holdUntil : Option String

/-- The store with its file.  The file is `none` before the first write. -/
structure ReentryLockout where
  entries : String → Option Eintrag
  loaded : Bool
  datei : Option (String → Option Eintrag)

/-- What the store works with: letters, and the day of a time in New York. -/
structure Umgebung where
  schrift : UpperCase
  tradingDayEt : ℤ → Date
  tag_mono : Monotone tradingDayEt

/-- The entries of a file.  A key is in upper case as `arm` wrote it. -/
def gelesen (U : UpperCase) (blob : String → Option Eintrag) (s : String) : Option Eintrag :=
  if U.upper s = s then (blob s).filter fun e => e.untilDay.isSome || e.holdUntil.isSome else none

def ReentryLockout.load (U : UpperCase) (L : ReentryLockout) : ReentryLockout :=
  if L.loaded then L
  else
    match L.datei with
    | none => { L with loaded := true }
    | some blob => { L with loaded := true, entries := gelesen U blob }

def datum (value : Option String) : Option Date := value.bind Date.fromisoformat

/-- The later of the date of an entry and a new one, as a text. -/
def latest (existing : Option String) (new : Option Date) : Option String :=
  match existing, new.map Date.isoformat with
  | none, new => new
  | some old, none => some old
  | some old, some new => some (if textLt old.toList new.toList then new else old)

/-- The last date of an entry lies ahead. -/
def Eintrag.offen (today : Date) (e : Eintrag) : Bool :=
  match datum e.untilDay, datum e.holdUntil with
  | none, none => false
  | some d, none => today < d
  | none, some d => today < d
  | some d, some d' => today < max d d'

def evict (today : Date) (entries : String → Option Eintrag) (s : String) : Option Eintrag :=
  (entries s).filter fun e => e.offen today

/-! ## Calls -/

/-- A call of `arm`. -/
structure Aufruf where
  symbols : List String
  now : ℤ
  days : ℤ
  holdDays : ℤ
  stopExits : List String

/-- The entry of a name merged with the dates of a call. -/
def zusammen (prev : Option Eintrag) (now : ℤ) (untilDay holdUntil : Option Date) : Eintrag where
  exitedAt := (prev.map (·.exitedAt)).getD now
  untilDay := latest (prev.bind (·.untilDay)) untilDay
  holdUntil := latest (prev.bind (·.holdUntil)) holdUntil

/-- The merged entry of a name, `none` when it has no date. -/
def verschmolzen (prev : Option Eintrag) (now : ℤ) (untilDay holdUntil : Option Date) :
    Option Eintrag :=
  let e := zusammen prev now untilDay holdUntil
  if e.untilDay.isNone && e.holdUntil.isNone then none else some e

/-- The date up to which a call holds the slot of a name. -/
def Aufruf.haltFuer (U : UpperCase) (a : Aufruf) (holdUntil : Option Date) (sym : String) :
    Option Date :=
  if sym ∈ a.stopExits.map U.norm then holdUntil else none

/-- What `arm` does with a name: the entries, and whether they changed. -/
def armName (U : UpperCase) (a : Aufruf) (untilDay holdUntil : Option Date)
    (st : (String → Option Eintrag) × Bool) (sym : String) : (String → Option Eintrag) × Bool :=
  if sym = "" then st
  else
    match verschmolzen (st.1 sym) a.now untilDay (a.haltFuer U holdUntil sym) with
    | some e => (Function.update st.1 sym (some e), true)
    | none => st

/-- `arm` with the set that it returns, `none` where a date is out of range. -/
def ReentryLockout.arm (W : Umgebung) (L : ReentryLockout) (a : Aufruf) :
    ReentryLockout × Option (String → Bool) :=
  let L := L.load W.schrift
  let today := W.tradingDayEt a.now
  match lockoutUntil today a.days, lockoutUntil today a.holdDays with
  | some none, some none => (L, some fun _ => false)
  | some untilDay, some holdUntil =>
      let (entries, changed) :=
        (a.symbols.map W.schrift.norm).foldl (armName W.schrift a untilDay holdUntil)
          (L.entries, false)
      let entries := evict today entries
      ({ L with entries := entries, datei := if changed then some entries else L.datei },
        some fun s => (entries s).any fun e => e.untilDay.isSome)
  | _, _ => (L, none)

def ReentryLockout.active (W : Umgebung) (L : ReentryLockout) (now : ℤ) (s : String) : Bool :=
  ((L.load W.schrift).entries s).any fun e =>
    (datum e.untilDay).any fun d => decide (e.exitedAt ≤ now) && decide (W.tradingDayEt now < d)

/-- Whether the slot of a name is held, as `held_slots` counts it. -/
def ReentryLockout.heldSlot (W : Umgebung) (L : ReentryLockout) (now : ℤ) (s : String) : Bool :=
  ((L.load W.schrift).entries s).any fun e =>
    (datum e.holdUntil).any fun d => decide (e.exitedAt ≤ now) && decide (W.tradingDayEt now < d)

/-- A start of the engine keeps the file. -/
def ReentryLockout.neustart (L : ReentryLockout) : ReentryLockout :=
  { L with entries := fun _ => none, loaded := false }

inductive Vorgang where
  | arm (a : Aufruf)
  | neustart

def ReentryLockout.schritt (W : Umgebung) (L : ReentryLockout) : Vorgang → ReentryLockout
  | .arm a => (L.arm W a).1
  | .neustart => L.neustart

/-- The store of an engine that starts for the first time. -/
def unbenutzt : ReentryLockout := ⟨fun _ => none, false, none⟩

def lauf (W : Umgebung) (ops : List Vorgang) : ReentryLockout :=
  ops.foldl (ReentryLockout.schritt W) unbenutzt

/-! ## Merging -/

@[simp] theorem datum_isoformat (d : Date) : datum (some d.isoformat) = some d :=
  Date.fromisoformat_isoformat d

theorem latest_none (existing : Option String) : latest existing none = existing := by
  cases existing with
  | none => rfl
  | some old => rfl

theorem latest_isoformat (d d' : Date) :
    latest (some d.isoformat) (some d') = some (max d d').isoformat := by
  unfold latest
  dsimp only [Option.map_some]
  split
  next h => rw [max_eq_right (Date.textLt_isoformat.mp h).le]
  next h => rw [max_eq_left (not_lt.mp fun hlt => h (Date.textLt_isoformat.mpr hlt))]

/-- A text that is no date or the date of a day. -/
def IstDatum (x : Option String) : Prop := ∀ t, x = some t → ∃ d : Date, t = d.isoformat

theorem eq_of_datum {x : Option String} (hx : IstDatum x) {d : Date} (h : datum x = some d) :
    x = some d.isoformat := by
  cases x with
  | none => cases h
  | some t =>
      obtain ⟨d', rfl⟩ := hx t rfl
      rw [datum_isoformat] at h
      rw [Option.some.inj h]

theorem latest_origin {x : Option String} (hx : IstDatum x) {new : Option Date} {t : String}
    (h : latest x new = some t) : x = some t ∨ ∃ d, new = some d ∧ t = d.isoformat := by
  cases new with
  | none =>
      rw [latest_none] at h
      exact .inl h
  | some d' =>
      cases x with
      | none => exact .inr ⟨d', rfl, (Option.some.inj h).symm⟩
      | some old =>
          obtain ⟨d, rfl⟩ := hx old rfl
          rw [latest_isoformat] at h
          cases h
          rcases max_choice d d' with hmax | hmax
          · rw [hmax]
            exact .inl rfl
          · rw [hmax]
            exact .inr ⟨d', rfl, rfl⟩

/-- A merge does not go back behind the date of the entry. -/
theorem le_latest_left {x : Option String} (hx : IstDatum x) (new : Option Date) {d : Date}
    (h : datum x = some d) : ∃ d', latest x new = some d'.isoformat ∧ d ≤ d' := by
  cases x with
  | none => cases h
  | some old =>
      obtain ⟨e, rfl⟩ := hx old rfl
      rw [datum_isoformat] at h
      cases h
      cases new with
      | none => exact ⟨d, latest_none _, le_rfl⟩
      | some d' => exact ⟨max d d', latest_isoformat d d', le_max_left _ _⟩

/-- A merge does not go back behind the new date. -/
theorem le_latest_right {x : Option String} (hx : IstDatum x) (d : Date) :
    ∃ d', latest x (some d) = some d'.isoformat ∧ d ≤ d' := by
  cases x with
  | none => exact ⟨d, rfl, le_rfl⟩
  | some old =>
      obtain ⟨e, rfl⟩ := hx old rfl
      exact ⟨max e d, latest_isoformat e d, le_max_right _ _⟩

theorem latest_latest {x : Option String} (hx : IstDatum x) (new : Option Date) :
    latest (latest x new) new = latest x new := by
  cases new with
  | none => rw [latest_none]
  | some d' =>
      cases x with
      | none =>
          show latest (some d'.isoformat) (some d') = _
          rw [latest_isoformat, max_self]
          rfl
      | some t =>
          obtain ⟨d, rfl⟩ := hx t rfl
          rw [latest_isoformat, latest_isoformat, max_assoc, max_self]

def Eintrag.Lesbar (e : Eintrag) : Prop := IstDatum e.untilDay ∧ IstDatum e.holdUntil

/-- What becomes of the entry of a name that a call names. -/
def genannt (prev : Option Eintrag) (now : ℤ) (untilDay holdUntil : Option Date) :
    Option Eintrag :=
  (verschmolzen prev now untilDay holdUntil).or prev

section

variable {prev : Option Eintrag} {now : ℤ} {u h : Option Date}

theorem istDatum_bind {f : Eintrag → Option String} (hf : ∀ e, prev = some e → IstDatum (f e)) :
    IstDatum (prev.bind f) := by
  cases prev with
  | none =>
      intro t ht
      cases ht
  | some e => exact hf e rfl

theorem istDatum_until (hl : ∀ e, prev = some e → e.Lesbar) :
    IstDatum (prev.bind (·.untilDay)) := istDatum_bind fun e he => (hl e he).1

theorem istDatum_hold (hl : ∀ e, prev = some e → e.Lesbar) :
    IstDatum (prev.bind (·.holdUntil)) := istDatum_bind fun e he => (hl e he).2

theorem genannt_of_datum (hd : (zusammen prev now u h).untilDay.isSome = true ∨
    (zusammen prev now u h).holdUntil.isSome = true) :
    genannt prev now u h = some (zusammen prev now u h) := by
  have hmerge : verschmolzen prev now u h = some (zusammen prev now u h) := by
    unfold verschmolzen
    dsimp only
    rw [if_neg]
    intro hnone
    rw [Bool.and_eq_true, Option.isNone_iff_eq_none, Option.isNone_iff_eq_none] at hnone
    rw [hnone.1, hnone.2] at hd
    rcases hd with hd | hd <;> cases hd
  unfold genannt
  rw [hmerge]
  rfl

/-- A name without a date keeps what it has. -/
theorem genannt_of_none (hu : (zusammen prev now u h).untilDay = none)
    (hh : (zusammen prev now u h).holdUntil = none) : genannt prev now u h = prev := by
  unfold genannt verschmolzen
  dsimp only
  rw [hu, hh]
  rfl

/-- An entry after a call is the merged one with a date or the one before. -/
theorem genannt_cases (prev : Option Eintrag) (now : ℤ) (u h : Option Date) :
    (genannt prev now u h = some (zusammen prev now u h) ∧
      ((zusammen prev now u h).untilDay.isSome || (zusammen prev now u h).holdUntil.isSome) = true) ∨
    genannt prev now u h = prev := by
  cases hu : (zusammen prev now u h).untilDay with
  | some t => exact .inl ⟨genannt_of_datum (.inl (by rw [hu]; rfl)), rfl⟩
  | none =>
      cases hh : (zusammen prev now u h).holdUntil with
      | some t => exact .inl ⟨genannt_of_datum (.inr (by rw [hh]; rfl)), rfl⟩
      | none => exact .inr (genannt_of_none hu hh)

/-- A name is named twice as it is named once. -/
theorem genannt_genannt (hl : ∀ e, prev = some e → e.Lesbar) :
    genannt (genannt prev now u h) now u h = genannt prev now u h := by
  have hagain : zusammen (some (zusammen prev now u h)) now u h = zusammen prev now u h := by
    simp only [zusammen, Option.map_some, Option.getD_some, Option.bind_some,
      latest_latest (istDatum_until hl), latest_latest (istDatum_hold hl)]
  cases hu : (zusammen prev now u h).untilDay with
  | some t =>
      have hd : (zusammen prev now u h).untilDay.isSome = true := by rw [hu]; rfl
      rw [genannt_of_datum (.inl hd), genannt_of_datum (.inl (by rw [hagain]; exact hd)), hagain]
  | none =>
      cases hh : (zusammen prev now u h).holdUntil with
      | some t =>
          have hd : (zusammen prev now u h).holdUntil.isSome = true := by rw [hh]; rfl
          rw [genannt_of_datum (.inr hd), genannt_of_datum (.inr (by rw [hagain]; exact hd)),
            hagain]
      | none => rw [genannt_of_none hu hh, genannt_of_none hu hh]

/-- The date of a lock does not go back. -/
theorem genannt_until_mono (hl : ∀ e, prev = some e → e.Lesbar) {e : Eintrag} {d : Date}
    (he : prev = some e) (hd : datum e.untilDay = some d) : ∃ e' d', genannt prev now u h = some e' ∧
      e'.exitedAt = e.exitedAt ∧ e'.untilDay = some d'.isoformat ∧ d ≤ d' := by
  subst he
  obtain ⟨d', hlatest, hle⟩ := le_latest_left (hl e rfl).1 u hd
  refine ⟨_, d', genannt_of_datum (.inl ?_), rfl, hlatest, hle⟩
  show (latest e.untilDay u).isSome = true
  rw [hlatest]
  rfl

/-- The date of a held slot does not go back. -/
theorem genannt_hold_mono (hl : ∀ e, prev = some e → e.Lesbar) {e : Eintrag} {d : Date}
    (he : prev = some e) (hd : datum e.holdUntil = some d) : ∃ e' d', genannt prev now u h = some e' ∧
      e'.exitedAt = e.exitedAt ∧ e'.holdUntil = some d'.isoformat ∧ d ≤ d' := by
  subst he
  obtain ⟨d', hlatest, hle⟩ := le_latest_left (hl e rfl).2 h hd
  refine ⟨_, d', genannt_of_datum (.inr ?_), rfl, hlatest, hle⟩
  show (latest e.holdUntil h).isSome = true
  rw [hlatest]
  rfl

/-- A name that is locked has the date of the lock or a later one. -/
theorem genannt_until (hl : ∀ e, prev = some e → e.Lesbar) (d : Date) :
    ∃ e' d', genannt prev now (some d) h = some e' ∧ e'.untilDay = some d'.isoformat ∧ d ≤ d' := by
  obtain ⟨d', hlatest, hle⟩ := le_latest_right (istDatum_until hl) d
  refine ⟨_, d', genannt_of_datum (.inl ?_), hlatest, hle⟩
  show (latest (prev.bind (·.untilDay)) (some d)).isSome = true
  rw [hlatest]
  rfl

theorem until_origin (hl : ∀ e, prev = some e → e.Lesbar) {e' : Eintrag} {t : String}
    (hg : genannt prev now u h = some e') (ht : e'.untilDay = some t) :
    (∃ e, prev = some e ∧ e.untilDay = some t) ∨ ∃ d, u = some d ∧ t = d.isoformat := by
  rcases genannt_cases prev now u h with ⟨hz, _⟩ | hp
  · rw [hz] at hg
    cases hg
    rcases latest_origin (istDatum_until hl) ht with hold | hnew
    · exact .inl (Option.bind_eq_some_iff.mp hold)
    · exact .inr hnew
  · rw [hp] at hg
    exact .inl ⟨e', hg, ht⟩

theorem hold_origin (hl : ∀ e, prev = some e → e.Lesbar) {e' : Eintrag} {t : String}
    (hg : genannt prev now u h = some e') (ht : e'.holdUntil = some t) :
    (∃ e, prev = some e ∧ e.holdUntil = some t) ∨ ∃ d, h = some d ∧ t = d.isoformat := by
  rcases genannt_cases prev now u h with ⟨hz, _⟩ | hp
  · rw [hz] at hg
    cases hg
    rcases latest_origin (istDatum_hold hl) ht with hold | hnew
    · exact .inl (Option.bind_eq_some_iff.mp hold)
    · exact .inr hnew
  · rw [hp] at hg
    exact .inl ⟨e', hg, ht⟩

theorem lesbar_genannt (hl : ∀ e, prev = some e → e.Lesbar) {e' : Eintrag}
    (hg : genannt prev now u h = some e') : e'.Lesbar := by
  constructor
  · intro t ht
    rcases until_origin hl hg ht with ⟨e, he, het⟩ | ⟨d, _, hd⟩
    · exact (hl e he).1 t het
    · exact ⟨d, hd⟩
  · intro t ht
    rcases hold_origin hl hg ht with ⟨e, he, het⟩ | ⟨d, _, hd⟩
    · exact (hl e he).2 t het
    · exact ⟨d, hd⟩

/-- The exit of an entry is not after the last call. -/
theorem exitedAt_genannt {t : ℤ} (hp : ∀ e, prev = some e → e.exitedAt ≤ t) (hnow : now ≤ t)
    {e' : Eintrag} (hg : genannt prev now u h = some e') : e'.exitedAt ≤ t := by
  rcases genannt_cases prev now u h with ⟨hz, _⟩ | hsame
  · rw [hz] at hg
    cases hg
    cases prev with
    | none => exact hnow
    | some e => exact hp e rfl
  · rw [hsame] at hg
    exact hp e' hg

end

/-! ## The names of a call -/

/-- The names of a call, as the store knows them. -/
def Aufruf.Nennt (W : Umgebung) (a : Aufruf) (s : String) : Prop :=
  s ≠ "" ∧ s ∈ a.symbols.map W.schrift.norm

instance (W : Umgebung) (a : Aufruf) (s : String) : Decidable (a.Nennt W s) :=
  inferInstanceAs (Decidable (_ ∧ _))

def Lesbar (E : String → Option Eintrag) : Prop := ∀ s e, E s = some e → e.Lesbar

section

variable {W : Umgebung} {a : Aufruf} {u h : Option Date} {s : String}

/-- A name that is empty is skipped, and every other one is merged with what it has. -/
theorem armName_fst (st : (String → Option Eintrag) × Bool) (sym : String) :
    (armName W.schrift a u h st sym).1 s =
      if s ≠ "" ∧ sym = s then genannt (st.1 s) a.now u (a.haltFuer W.schrift h s)
      else st.1 s := by
  unfold armName
  by_cases hblank : sym = ""
  · rw [if_pos hblank, if_neg]
    rintro ⟨hne, hsym⟩
    exact hne (hsym.symm.trans hblank)
  · rw [if_neg hblank]
    by_cases hsym : sym = s
    · subst hsym
      rw [if_pos ⟨hblank, rfl⟩]
      unfold genannt
      cases verschmolzen (st.1 sym) a.now u (a.haltFuer W.schrift h sym) with
      | none => rfl
      | some e => exact Function.update_self sym (some e) st.1
    · rw [if_neg fun hboth => hsym hboth.2]
      split
      next e _ => exact Function.update_of_ne (Ne.symm hsym) (some e) st.1
      next => rfl

theorem lesbar_armName {st : (String → Option Eintrag) × Bool} (hl : Lesbar st.1)
    (sym : String) : Lesbar (armName W.schrift a u h st sym).1 := by
  intro k e he
  rw [armName_fst] at he
  split at he
  next => exact lesbar_genannt (hl k) he
  next => exact hl k e he

/-- A call names each of its names once. -/
theorem foldl_armName_fst (syms : List String) (st : (String → Option Eintrag) × Bool)
    (hl : Lesbar st.1) : (syms.foldl (armName W.schrift a u h) st).1 s =
      if s ≠ "" ∧ s ∈ syms then genannt (st.1 s) a.now u (a.haltFuer W.schrift h s)
      else st.1 s := by
  induction syms generalizing st with
  | nil =>
      rw [if_neg]
      · rfl
      · rintro ⟨_, hmem⟩
        cases hmem
  | cons sym syms ih =>
      rw [List.foldl_cons, ih _ (lesbar_armName hl sym), armName_fst]
      by_cases hne : s = ""
      · subst hne
        simp
      · by_cases hsym : sym = s
        · subst hsym
          simp only [hne, ne_eq, not_false_eq_true, true_and, if_true, List.mem_cons, true_or,
            genannt_genannt (hl sym)]
          split <;> rfl
        · have hsym' : ¬ s = sym := fun heq => hsym heq.symm
          simp only [hne, hsym, hsym', ne_eq, not_false_eq_true, true_and, if_false, false_or,
            List.mem_cons]

/-- A change stays, and a name that is locked is one. -/
theorem armName_snd {st : (String → Option Eintrag) × Bool} (hl : Lesbar st.1) {sym : String}
    {d : Date} (hnamed : st.2 = true ∨ sym ≠ "") :
    (armName W.schrift a (some d) h st sym).2 = true := by
  unfold armName
  split
  next hblank =>
    rcases hnamed with hchanged | hne
    · exact hchanged
    · exact absurd hblank hne
  next =>
    split
    next => rfl
    next hnone =>
      obtain ⟨d', hlatest, _⟩ := le_latest_right (istDatum_until (hl sym)) d
      unfold verschmolzen zusammen at hnone
      dsimp only at hnone
      rw [hlatest] at hnone
      cases hnone

/-- A call that locks a name changes the entries. -/
theorem foldl_armName_snd (syms : List String) {st : (String → Option Eintrag) × Bool}
    (hl : Lesbar st.1) {d : Date} (hnamed : st.2 = true ∨ (s ≠ "" ∧ s ∈ syms)) :
    (syms.foldl (armName W.schrift a (some d) h) st).2 = true := by
  induction syms generalizing st with
  | nil =>
      rcases hnamed with hchanged | ⟨_, hmem⟩
      · exact hchanged
      · cases hmem
  | cons sym syms ih =>
      rw [List.foldl_cons]
      apply ih (lesbar_armName hl sym)
      rcases hnamed with hchanged | ⟨hne, hmem⟩
      · exact .inl (armName_snd hl (.inl hchanged))
      · rw [List.mem_cons] at hmem
        rcases hmem with rfl | htail
        · exact .inl (armName_snd hl (.inr hne))
        · exact .inr ⟨hne, htail⟩

end

/-! ## What the calls of a run lock -/

/-- A call locks a name up to a day: it names it, and both its dates are in range. -/
def Aufruf.Sperrt (W : Umgebung) (a : Aufruf) (s : String) (u : Date) : Prop :=
  a.Nennt W s ∧ lockoutUntil (W.tradingDayEt a.now) a.days = some (some u) ∧
    lockoutUntil (W.tradingDayEt a.now) a.holdDays ≠ none

/-- Some call of a run locks a name beyond the day of a time. -/
def Gesperrt (W : Umgebung) (ops : List Vorgang) (now : ℤ) (s : String) : Prop :=
  ∃ a u, .arm a ∈ ops ∧ a.Sperrt W s u ∧ W.tradingDayEt now < u

/-- The entries agree with the calls of a run up to a time: each date of a lock is from a
call, and of every lock that is not over the entry has the date or a later one. -/
structure Stimmt (W : Umgebung) (ops : List Vorgang) (t : ℤ) (E : String → Option Eintrag) :
    Prop where
  lesbar : Lesbar E
  gueltig : ∀ s e, E s = some e → W.schrift.upper s = s ∧
    (e.untilDay.isSome || e.holdUntil.isSome) = true
  exit_le : ∀ s e, E s = some e → e.exitedAt ≤ t
  origin : ∀ s e d, E s = some e → e.untilDay = some (Date.isoformat d) →
    ∃ a, .arm a ∈ ops ∧ a.Sperrt W s d
  voll : ∀ s a u, .arm a ∈ ops → a.Sperrt W s u → W.tradingDayEt t < u →
    ∃ e d, E s = some e ∧ e.untilDay = some (Date.isoformat d) ∧ u ≤ d

namespace Stimmt

variable {W : Umgebung} {ops : List Vorgang} {t t' : ℤ} {E : String → Option Eintrag}
  {a : Aufruf} {u h : Option Date}

/-- Without a call there are no entries. -/
theorem leer : Stimmt W [] t fun _ => none where
  lesbar := by intro s e he; cases he
  gueltig := by intro s e he; cases he
  exit_le := by intro s e he; cases he
  origin := by intro s e d he; cases he
  voll := by intro s a u ha; cases ha

theorem spaeter (hst : Stimmt W ops t E) (ht : t ≤ t') : Stimmt W ops t' E where
  lesbar := hst.lesbar
  gueltig := hst.gueltig
  exit_le s e he := (hst.exit_le s e he).trans ht
  origin := hst.origin
  voll s a u ha hsperrt hlt := hst.voll s a u ha hsperrt ((W.tag_mono ht).trans_lt hlt)

/-- What locks no name does not touch the entries. -/
theorem ohne {op : Vorgang} (hst : Stimmt W ops t E)
    (hop : ∀ a, op = .arm a → ∀ s u, ¬ a.Sperrt W s u) : Stimmt W (ops ++ [op]) t E where
  lesbar := hst.lesbar
  gueltig := hst.gueltig
  exit_le := hst.exit_le
  origin s e d he hd := by
    obtain ⟨a, ha, hsperrt⟩ := hst.origin s e d he hd
    exact ⟨a, List.mem_append_left _ ha, hsperrt⟩
  voll s a u ha hsperrt hlt := by
    rcases List.mem_append.mp ha with hold | hnew
    · exact hst.voll s a u hold hsperrt hlt
    · exact absurd hsperrt (hop a (List.mem_singleton.mp hnew).symm s u)

theorem evict (hst : Stimmt W ops t E) :
    Stimmt W ops t (Positionsbuch.evict (W.tradingDayEt t) E) := by
  have hsub : ∀ s e, Positionsbuch.evict (W.tradingDayEt t) E s = some e → E s = some e :=
    fun s e he => (Option.filter_eq_some_iff.mp he).1
  refine ⟨fun s e he => hst.lesbar s e (hsub s e he), fun s e he => hst.gueltig s e (hsub s e he),
    fun s e he => hst.exit_le s e (hsub s e he),
    fun s e d he hd => hst.origin s e d (hsub s e he) hd, ?_⟩
  intro s a u ha hsperrt hlt
  obtain ⟨e, d, he, hd, hle⟩ := hst.voll s a u ha hsperrt hlt
  refine ⟨e, d, Option.filter_eq_some_iff.mpr ⟨he, ?_⟩, hd, hle⟩
  have hopen : W.tradingDayEt t < d := hlt.trans_le hle
  unfold Eintrag.offen
  rw [hd, datum_isoformat]
  cases datum e.holdUntil with
  | none => exact decide_eq_true hopen
  | some d' => exact decide_eq_true (hopen.trans_le (le_max_left d d'))

/-- A file that the entries were written to is read as they are. -/
theorem gelesen (hst : Stimmt W ops t E) : Positionsbuch.gelesen W.schrift E = E := by
  funext s
  unfold Positionsbuch.gelesen
  cases he : E s with
  | none =>
      split
      next => rfl
      next => rfl
  | some e =>
      obtain ⟨hupper, hdates⟩ := hst.gueltig s e he
      rw [if_pos hupper]
      exact Option.filter_eq_some_iff.mpr ⟨rfl, hdates⟩

theorem arm (hst : Stimmt W ops a.now E)
    (hu : lockoutUntil (W.tradingDayEt a.now) a.days = some u)
    (hh : lockoutUntil (W.tradingDayEt a.now) a.holdDays = some h) :
    Stimmt W (ops ++ [.arm a]) a.now
      ((a.symbols.map W.schrift.norm).foldl (armName W.schrift a u h) (E, false)).1 := by
  have hfold := fun s => foldl_armName_fst (W := W) (a := a) (u := u) (h := h) (s := s)
    (a.symbols.map W.schrift.norm) (E, false) hst.lesbar
  constructor
  · intro s e he
    rw [hfold] at he
    split at he
    next => exact lesbar_genannt (hst.lesbar s) he
    next => exact hst.lesbar s e he
  · intro s e he
    rw [hfold] at he
    split at he
    next hnamed =>
      rcases genannt_cases (E s) a.now u (a.haltFuer W.schrift h s) with ⟨hz, hdates⟩ | hsame
      · rw [hz] at he
        cases he
        obtain ⟨sym, _, hsym⟩ := List.mem_map.mp hnamed.2
        exact ⟨by rw [← hsym, UpperCase.upper_norm], hdates⟩
      · rw [hsame] at he
        exact hst.gueltig s e he
    next => exact hst.gueltig s e he
  · intro s e he
    rw [hfold] at he
    split at he
    next => exact exitedAt_genannt (hst.exit_le s) le_rfl he
    next => exact hst.exit_le s e he
  · intro s e d he hd
    rw [hfold] at he
    split at he
    next hnamed =>
      rcases until_origin (hst.lesbar s) he hd with ⟨e', he', hd'⟩ | ⟨d', hd', heq⟩
      · obtain ⟨b, hb, hsperrt⟩ := hst.origin s e' d he' hd'
        exact ⟨b, List.mem_append_left _ hb, hsperrt⟩
      · have hdd : d = d' := Date.isoformat_injective heq
        subst hdd
        refine ⟨a, List.mem_append_right _ (.head _), hnamed, hu.trans (congrArg some hd'), ?_⟩
        rw [hh]
        exact Option.some_ne_none h
    next =>
      obtain ⟨b, hb, hsperrt⟩ := hst.origin s e d he hd
      exact ⟨b, List.mem_append_left _ hb, hsperrt⟩
  · intro s b v hb hsperrt hlt
    rw [hfold]
    rcases List.mem_append.mp hb with hold | hnew
    · obtain ⟨e, d, he, hd, hle⟩ := hst.voll s b v hold hsperrt hlt
      split
      next =>
        have hdat : datum e.untilDay = some d := by rw [hd, datum_isoformat]
        obtain ⟨e', d', hg, _, hd', hle'⟩ := genannt_until_mono (hst.lesbar s) he hdat
        exact ⟨e', d', hg, hd', hle.trans hle'⟩
      next => exact ⟨e, d, he, hd, hle⟩
    · cases List.mem_singleton.mp hnew
      obtain ⟨hnamed, hdays, _⟩ := hsperrt
      rw [hu] at hdays
      rw [Option.some.inj hdays]
      split
      next => exact genannt_until (hst.lesbar s) v
      next hno => exact absurd hnamed hno

end Stimmt

/-! ## Runs -/

def Vorgang.zeit : Vorgang → Option ℤ
  | .arm a => some a.now
  | .neustart => none

def zeiten (ops : List Vorgang) : List ℤ := ops.filterMap Vorgang.zeit

/-- What a start would read from the file. -/
def ReentryLockout.aufDatei (U : UpperCase) (L : ReentryLockout) : String → Option Eintrag :=
  match L.datei with
  | none => fun _ => none
  | some blob => gelesen U blob

/-- A store whose entries, and whose file, agree with the calls of a run. -/
structure Laufend (W : Umgebung) (ops : List Vorgang) (t : ℤ) (L : ReentryLockout) : Prop where
  leer : L.loaded = false → L.entries = fun _ => none
  entries : L.loaded = true → Stimmt W ops t L.entries
  datei : Stimmt W ops t (L.aufDatei W.schrift)

section

variable {W : Umgebung} {ops : List Vorgang} {t : ℤ} {L : ReentryLockout} {a : Aufruf}

theorem loaded_load : (L.load W.schrift).loaded = true := by
  unfold ReentryLockout.load
  split
  next h => exact h
  next =>
    split
    next => rfl
    next => rfl

theorem datei_load : (L.load W.schrift).datei = L.datei := by
  unfold ReentryLockout.load
  split
  next => rfl
  next =>
    split
    next => rfl
    next => rfl

theorem load_of_loaded (h : L.loaded = true) : L.load W.schrift = L := if_pos h

/-- What the store reads agrees with the calls. -/
theorem Laufend.load (h : Laufend W ops t L) : Stimmt W ops t (L.load W.schrift).entries := by
  cases hloaded : L.loaded with
  | true =>
      rw [load_of_loaded hloaded]
      exact h.entries hloaded
  | false =>
      have hfile := h.datei
      have hempty := h.leer hloaded
      unfold ReentryLockout.aufDatei at hfile
      unfold ReentryLockout.load
      rw [hloaded]
      cases hdatei : L.datei with
      | none =>
          rw [hdatei] at hfile
          show Stimmt W ops t L.entries
          rw [hempty]
          exact hfile
      | some blob =>
          rw [hdatei] at hfile
          exact hfile

/-- A call in which no date is set, or one is out of range. -/
theorem arm_of_not {u h : Option (Option Date)}
    (hu : lockoutUntil (W.tradingDayEt a.now) a.days = u)
    (hh : lockoutUntil (W.tradingDayEt a.now) a.holdDays = h)
    (hno : u = none ∨ h = none ∨ (u = some none ∧ h = some none)) :
    (L.arm W a).1 = L.load W.schrift := by
  unfold ReentryLockout.arm
  dsimp only
  rw [hu, hh]
  rcases hno with rfl | rfl | ⟨rfl, rfl⟩
  · rfl
  · cases u with
    | none => rfl
    | some u => cases u <;> rfl
  · rfl

theorem arm_of_some {u h : Option Date}
    (hu : lockoutUntil (W.tradingDayEt a.now) a.days = some u)
    (hh : lockoutUntil (W.tradingDayEt a.now) a.holdDays = some h)
    (hdate : u ≠ none ∨ h ≠ none) :
    let r := (a.symbols.map W.schrift.norm).foldl (armName W.schrift a u h)
      ((L.load W.schrift).entries, false)
    let entries := evict (W.tradingDayEt a.now) r.1
    L.arm W a = ({ L.load W.schrift with
        entries := entries
        datei := if r.2 then some entries else L.datei },
      some fun s => (entries s).any fun e => e.untilDay.isSome) := by
  intro r entries
  unfold ReentryLockout.arm
  dsimp only
  rw [hu, hh, datei_load]
  cases u with
  | some d => rfl
  | none =>
      cases h with
      | some d => rfl
      | none =>
          rcases hdate with hne | hne
          · exact absurd rfl hne
          · exact absurd rfl hne

theorem loaded_arm : (L.arm W a).1.loaded = true := by
  unfold ReentryLockout.arm
  dsimp only
  split
  next => exact loaded_load
  next => exact loaded_load
  next => exact loaded_load

/-- A call that locks no name keeps the agreement. -/
theorem laufend_ohne (hL : Laufend W ops a.now L) (harm : (L.arm W a).1 = L.load W.schrift)
    (hsperrt : ∀ s u, ¬ a.Sperrt W s u) : Laufend W (ops ++ [.arm a]) a.now (L.arm W a).1 := by
  have hop : ∀ b, Vorgang.arm a = .arm b → ∀ s u, ¬ b.Sperrt W s u := by
    intro b hb
    cases hb
    exact hsperrt
  rw [harm]
  refine ⟨fun hl => ?_, fun _ => hL.load.ohne hop, ?_⟩
  · rw [loaded_load] at hl
    cases hl
  · unfold ReentryLockout.aufDatei
    rw [datei_load]
    exact hL.datei.ohne hop

theorem laufend_arm (hL : Laufend W ops a.now L) :
    Laufend W (ops ++ [.arm a]) a.now (L.arm W a).1 := by
  cases hu : lockoutUntil (W.tradingDayEt a.now) a.days with
  | none =>
      refine laufend_ohne hL (arm_of_not hu rfl (.inl rfl)) fun s v hsperrt => ?_
      have hdays := hsperrt.2.1
      rw [hu] at hdays
      cases hdays
  | some u =>
      cases hh : lockoutUntil (W.tradingDayEt a.now) a.holdDays with
      | none =>
          exact laufend_ohne hL (arm_of_not hu hh (.inr (.inl rfl)))
            fun s v hsperrt => hsperrt.2.2 hh
      | some h =>
          by_cases hdate : u ≠ none ∨ h ≠ none
          · have hst := (hL.load.arm hu hh).evict
            rw [arm_of_some hu hh hdate]
            refine ⟨fun hl => ?_, fun _ => hst, ?_⟩
            · rw [loaded_load] at hl
              cases hl
            · unfold ReentryLockout.aufDatei
              dsimp only
              cases hchanged : ((a.symbols.map W.schrift.norm).foldl (armName W.schrift a u h)
                  ((L.load W.schrift).entries, false)).2 with
              | true =>
                  show Stimmt W _ _ (gelesen W.schrift _)
                  rw [hst.gelesen]
                  exact hst
              | false =>
                  -- no name was locked, and the file stays as it is
                  refine hL.datei.ohne fun b hb s v hsperrt => ?_
                  cases hb
                  obtain ⟨hnamed, hdays, _⟩ := hsperrt
                  rw [hu] at hdays
                  rw [Option.some.inj hdays, foldl_armName_snd _ hL.load.lesbar (.inr hnamed)]
                    at hchanged
                  cases hchanged
          · rw [not_or, not_ne_iff, not_ne_iff] at hdate
            obtain ⟨rfl, rfl⟩ := hdate
            refine laufend_ohne hL (arm_of_not hu hh (.inr (.inr ⟨rfl, rfl⟩)))
              fun s v hsperrt => ?_
            have hdays := hsperrt.2.1
            rw [hu] at hdays
            cases hdays

theorem laufend_neustart (hL : Laufend W ops t L) :
    Laufend W (ops ++ [.neustart]) t L.neustart where
  leer _ := rfl
  entries h := by cases h
  datei := hL.datei.ohne fun a ha => by cases ha

theorem Laufend.spaeter {t' : ℤ} (hL : Laufend W ops t L) (ht : t ≤ t') : Laufend W ops t' L where
  leer := hL.leer
  entries h := (hL.entries h).spaeter ht
  datei := hL.datei.spaeter ht

/-- Every run keeps the agreement, for calls at times that do not go back. -/
theorem laufend_lauf (hzeit : (zeiten ops).Pairwise (· ≤ ·)) (ht : ∀ z ∈ zeiten ops, z ≤ t) :
    Laufend W ops t (lauf W ops) := by
  induction ops using List.reverseRecOn generalizing t with
  | nil =>
      refine ⟨fun _ => rfl, fun h => ?_, Stimmt.leer⟩
      cases h
  | append_singleton ops op ih =>
      have hlauf : lauf W (ops ++ [op]) = (lauf W ops).schritt W op := by
        unfold lauf
        rw [List.foldl_append]
        rfl
      rw [hlauf]
      unfold zeiten at hzeit ht ih
      rw [List.filterMap_append, List.pairwise_append] at hzeit
      rw [List.filterMap_append] at ht
      cases op with
      | neustart =>
          exact laufend_neustart (ih hzeit.1 fun z hz => ht z (List.mem_append_left _ hz))
      | arm a =>
          have hlast : a.now ∈ [Vorgang.arm a].filterMap Vorgang.zeit := .head _
          have hbefore := ih hzeit.1 fun z hz => hzeit.2.2 z hz a.now hlast
          exact (laufend_arm hbefore).spaeter (ht a.now (List.mem_append_right _ hlast))

/-! ## What the readers say -/

theorem active_eq_true_iff {now : ℤ} {s : String} : L.active W now s = true ↔
    ∃ e d, (L.load W.schrift).entries s = some e ∧ datum e.untilDay = some d ∧
      e.exitedAt ≤ now ∧ W.tradingDayEt now < d := by
  unfold ReentryLockout.active
  simp only [Option.any_eq_true, Bool.and_eq_true, decide_eq_true_iff]
  constructor
  · rintro ⟨e, he, d, hd, hopen⟩
    exact ⟨e, d, he, hd, hopen⟩
  · rintro ⟨e, d, he, hd, hopen⟩
    exact ⟨e, he, d, hd, hopen⟩

theorem heldSlot_eq_true_iff {now : ℤ} {s : String} : L.heldSlot W now s = true ↔
    ∃ e d, (L.load W.schrift).entries s = some e ∧ datum e.holdUntil = some d ∧
      e.exitedAt ≤ now ∧ W.tradingDayEt now < d := by
  unfold ReentryLockout.heldSlot
  simp only [Option.any_eq_true, Bool.and_eq_true, decide_eq_true_iff]
  constructor
  · rintro ⟨e, he, d, hd, hopen⟩
    exact ⟨e, d, he, hd, hopen⟩
  · rintro ⟨e, d, he, hd, hopen⟩
    exact ⟨e, he, d, hd, hopen⟩

/-- A name is reported locked exactly when some call of the run locks it beyond that
day. -/
theorem active_iff (hL : Laufend W ops t L) {now : ℤ} (ht : t ≤ now) {s : String} :
    L.active W now s = true ↔ Gesperrt W ops now s := by
  have hst := hL.load
  rw [active_eq_true_iff]
  constructor
  · rintro ⟨e, d, he, hd, _, hlt⟩
    obtain ⟨a, ha, hsperrt⟩ := hst.origin s e d he (eq_of_datum (hst.lesbar s e he).1 hd)
    exact ⟨a, d, ha, hsperrt, hlt⟩
  · rintro ⟨a, u, ha, hsperrt, hlt⟩
    obtain ⟨e, d, he, hd, hle⟩ := hst.voll s a u ha hsperrt ((W.tag_mono ht).trans_lt hlt)
    exact ⟨e, d, he, by rw [hd, datum_isoformat], (hst.exit_le s e he).trans ht,
      hlt.trans_le hle⟩

/-! ### After a call -/

/-- The entry of a name after the names of a call, before the eviction. -/
def nachAufruf (W : Umgebung) (a : Aufruf) (u h : Option Date) (E : String → Option Eintrag)
    (s : String) : Option Eintrag :=
  if a.Nennt W s then genannt (E s) a.now u (a.haltFuer W.schrift h s) else E s

/-- A call leaves the entries alone, or merges them and evicts. -/
theorem entries_arm (hl : Lesbar (L.load W.schrift).entries) :
    (∀ s, ((L.arm W a).1.load W.schrift).entries s = (L.load W.schrift).entries s) ∨
      ∃ u h, lockoutUntil (W.tradingDayEt a.now) a.days = some u ∧ ∀ s,
        ((L.arm W a).1.load W.schrift).entries s =
          (nachAufruf W a u h (L.load W.schrift).entries s).filter fun e =>
            e.offen (W.tradingDayEt a.now) := by
  have hgleich (h : (L.arm W a).1 = L.load W.schrift) (s : String) :
      ((L.arm W a).1.load W.schrift).entries s = (L.load W.schrift).entries s := by
    rw [h, load_of_loaded loaded_load]
  cases hu : lockoutUntil (W.tradingDayEt a.now) a.days with
  | none => exact .inl (hgleich (arm_of_not hu rfl (.inl rfl)))
  | some u =>
      cases hh : lockoutUntil (W.tradingDayEt a.now) a.holdDays with
      | none => exact .inl (hgleich (arm_of_not hu hh (.inr (.inl rfl))))
      | some h =>
          by_cases hdate : u ≠ none ∨ h ≠ none
          · refine .inr ⟨u, h, rfl, fun s => ?_⟩
            have hfold := foldl_armName_fst (W := W) (a := a) (u := u) (h := h) (s := s)
              (a.symbols.map W.schrift.norm) ((L.load W.schrift).entries, false) hl
            rw [load_of_loaded loaded_arm, arm_of_some hu hh hdate]
            show Option.filter _ _ = _
            rw [hfold]
            rfl
          · rw [not_or, not_ne_iff, not_ne_iff] at hdate
            exact .inl (hgleich (arm_of_not hu hh (.inr (.inr ⟨by rw [hdate.1], by rw [hdate.2]⟩))))

/-- An entry with a date ahead is not evicted. -/
theorem offen_of_until {e : Eintrag} {today d : Date} (hd : datum e.untilDay = some d)
    (hlt : today < d) : e.offen today = true := by
  unfold Eintrag.offen
  rw [hd]
  cases datum e.holdUntil with
  | none => exact decide_eq_true hlt
  | some d' => exact decide_eq_true (hlt.trans_le (le_max_left d d'))

theorem offen_of_hold {e : Eintrag} {today d : Date} (hd : datum e.holdUntil = some d)
    (hlt : today < d) : e.offen today = true := by
  unfold Eintrag.offen
  rw [hd]
  cases datum e.untilDay with
  | none => exact decide_eq_true hlt
  | some d' => exact decide_eq_true (hlt.trans_le (le_max_right d' d))

/-- A call ends no lock and no hold of a slot. -/
theorem arm_laesst (hl : Lesbar (L.load W.schrift).entries) {now : ℤ} (ht : a.now ≤ now)
    {s : String} :
    (L.active W now s = true → (L.arm W a).1.active W now s = true) ∧
      (L.heldSlot W now s = true → (L.arm W a).1.heldSlot W now s = true) := by
  rw [active_eq_true_iff, active_eq_true_iff, heldSlot_eq_true_iff, heldSlot_eq_true_iff]
  rcases entries_arm (a := a) hl with hsame | ⟨u, h, _, hnach⟩
  · rw [hsame]
    exact ⟨id, id⟩
  · rw [hnach]
    have htag := W.tag_mono ht
    constructor
    · rintro ⟨e, d, he, hd, hexit, hlt⟩
      have hgrown : ∃ e' d', nachAufruf W a u h (L.load W.schrift).entries s = some e' ∧
          e'.exitedAt = e.exitedAt ∧ datum e'.untilDay = some d' ∧ d ≤ d' := by
        unfold nachAufruf
        split
        next =>
          obtain ⟨e', d', hg, hx, hd', hle⟩ := genannt_until_mono (hl s) he hd
          exact ⟨e', d', hg, hx, by rw [hd', datum_isoformat], hle⟩
        next => exact ⟨e, d, he, rfl, hd, le_rfl⟩
      obtain ⟨e', d', he', hx, hd', hle⟩ := hgrown
      refine ⟨e', d', Option.filter_eq_some_iff.mpr ⟨he', offen_of_until hd' ?_⟩, hd', ?_,
        hlt.trans_le hle⟩
      · exact (htag.trans_lt hlt).trans_le hle
      · rw [hx]
        exact hexit
    · rintro ⟨e, d, he, hd, hexit, hlt⟩
      have hgrown : ∃ e' d', nachAufruf W a u h (L.load W.schrift).entries s = some e' ∧
          e'.exitedAt = e.exitedAt ∧ datum e'.holdUntil = some d' ∧ d ≤ d' := by
        unfold nachAufruf
        split
        next =>
          obtain ⟨e', d', hg, hx, hd', hle⟩ := genannt_hold_mono (hl s) he hd
          exact ⟨e', d', hg, hx, by rw [hd', datum_isoformat], hle⟩
        next => exact ⟨e, d, he, rfl, hd, le_rfl⟩
      obtain ⟨e', d', he', hx, hd', hle⟩ := hgrown
      refine ⟨e', d', Option.filter_eq_some_iff.mpr ⟨he', offen_of_hold hd' ?_⟩, hd', ?_,
        hlt.trans_le hle⟩
      · exact (htag.trans_lt hlt).trans_le hle
      · rw [hx]
        exact hexit

/-! ### The set that a call returns -/

def Aufruf.InRange (W : Umgebung) (a : Aufruf) : Prop :=
  lockoutUntil (W.tradingDayEt a.now) a.days ≠ none ∧
    lockoutUntil (W.tradingDayEt a.now) a.holdDays ≠ none

/-- A call names every name whose lock is over while its slot is held. -/
def Genannt (W : Umgebung) (L : ReentryLockout) (a : Aufruf) : Prop :=
  ∀ s e d h, (L.load W.schrift).entries s = some e → datum e.untilDay = some d →
    datum e.holdUntil = some h → d ≤ W.tradingDayEt a.now → W.tradingDayEt a.now < h → a.Nennt W s

/-- A positive number of days is a date or out of range. -/
theorem lockoutUntil_ne {day : Date} {days : ℤ} (hd : 0 < days) :
    lockoutUntil day days ≠ some none := by
  unfold lockoutUntil
  rw [if_neg (not_le.mpr hd)]
  cases lockoutLoop day days.toNat with
  | none =>
      intro h
      cases h
  | some d =>
      intro h
      cases h

/-- A call out of range returns nothing. -/
theorem arm_out_of_range (hr : ¬ a.InRange W) : (L.arm W a).2 = none := by
  unfold ReentryLockout.arm
  dsimp only
  cases hu : lockoutUntil (W.tradingDayEt a.now) a.days with
  | none => rfl
  | some u =>
      cases hh : lockoutUntil (W.tradingDayEt a.now) a.holdDays with
      | none => cases u <;> rfl
      | some h =>
          refine absurd ⟨?_, ?_⟩ hr
          · rw [hu]
            exact Option.some_ne_none u
          · rw [hh]
            exact Option.some_ne_none h

theorem arm_locked (hl : Lesbar (L.load W.schrift).entries) (hdays : 0 < a.days)
    (hr : a.InRange W) : ∃ u h, lockoutUntil (W.tradingDayEt a.now) a.days = some (some u) ∧
      (L.arm W a).2 = some (fun s => (((L.arm W a).1.load W.schrift).entries s).any
        fun e => e.untilDay.isSome) ∧
      ∀ s, ((L.arm W a).1.load W.schrift).entries s =
        (nachAufruf W a (some u) h (L.load W.schrift).entries s).filter fun e =>
          e.offen (W.tradingDayEt a.now) := by
  cases hu : lockoutUntil (W.tradingDayEt a.now) a.days with
  | none => exact absurd hu hr.1
  | some u =>
      cases hh : lockoutUntil (W.tradingDayEt a.now) a.holdDays with
      | none => exact absurd hh hr.2
      | some h =>
          cases u with
          | none => exact absurd hu (lockoutUntil_ne hdays)
          | some u =>
              have hfold := fun s => foldl_armName_fst (W := W) (a := a) (u := some u) (h := h)
                (s := s) (a.symbols.map W.schrift.norm) ((L.load W.schrift).entries, false) hl
              refine ⟨u, h, rfl, ?_, fun s => ?_⟩
              · rw [load_of_loaded loaded_arm, arm_of_some hu hh (.inl (Option.some_ne_none u))]
              · rw [load_of_loaded loaded_arm, arm_of_some hu hh (.inl (Option.some_ne_none u))]
                show Option.filter _ _ = _
                rw [hfold]
                rfl

/-- A call returns the names that are locked exactly when it names every name whose lock is
over while its slot is held. -/
theorem locked_eq_active_iff (hL : Laufend W ops a.now L) (hdays : 0 < a.days)
    (hr : a.InRange W) : (∀ locked, (L.arm W a).2 = some locked →
      ∀ s, locked s = (L.arm W a).1.active W a.now s) ↔ Genannt W L a := by
  have hl := hL.load.lesbar
  have hafter := (laufend_arm hL).load
  obtain ⟨u, h, hu, hlocked, hentries⟩ := arm_locked hl hdays hr
  have hlt := lt_of_lockoutUntil hu
  constructor
  · intro hall s e d d' he hd hd' hover hheld
    by_contra hnot
    have hstay : ((L.arm W a).1.load W.schrift).entries s = some e := by
      rw [hentries, nachAufruf, if_neg hnot]
      exact Option.filter_eq_some_iff.mpr ⟨he, offen_of_hold hd' hheld⟩
    have hactive : (L.arm W a).1.active W a.now s = true := by
      rw [← hall _ hlocked s, hstay]
      show e.untilDay.isSome = true
      rw [eq_of_datum (hl s e he).1 hd]
      rfl
    obtain ⟨e', d'', he', hd'', _, hopen⟩ := active_eq_true_iff.mp hactive
    rw [hstay] at he'
    cases he'
    rw [hd] at hd''
    cases hd''
    exact absurd hopen (not_lt.mpr hover)
  · intro hgenannt locked hres s
    rw [hlocked] at hres
    cases hres
    rw [Bool.eq_iff_iff, active_eq_true_iff, Option.any_eq_true]
    constructor
    · rintro ⟨e, he, hsome⟩
      obtain ⟨t, ht⟩ := Option.isSome_iff_exists.mp hsome
      obtain ⟨d, rfl⟩ := (hafter.lesbar s e he).1 t ht
      have hd : datum e.untilDay = some d := by rw [ht, datum_isoformat]
      refine ⟨e, d, he, hd, hafter.exit_le s e he, ?_⟩
      rw [hentries] at he
      obtain ⟨hnach, hopen⟩ := Option.filter_eq_some_iff.mp he
      unfold nachAufruf at hnach
      split at hnach
      next =>
        have hlock : ∃ e' d', genannt ((L.load W.schrift).entries s) a.now (some u)
            (a.haltFuer W.schrift h s) = some e' ∧ e'.untilDay = some (Date.isoformat d') ∧
              u ≤ d' := genannt_until (hl s) u
        obtain ⟨e', d', hg, hd', hle⟩ := hlock
        rw [hg] at hnach
        cases hnach
        rw [ht] at hd'
        rw [Date.isoformat_injective (Option.some.inj hd')]
        exact hlt.trans_le hle
      next hnot =>
        by_contra hover
        unfold Eintrag.offen at hopen
        rw [hd] at hopen
        cases hh : datum e.holdUntil with
        | none =>
            rw [hh] at hopen
            exact hover (of_decide_eq_true hopen)
        | some d' =>
            rw [hh] at hopen
            rcases lt_max_iff.mp (of_decide_eq_true hopen) with hname | hslot
            · exact hover hname
            · exact hnot (hgenannt s e d d' hnach hd hh (not_lt.mp hover) hslot)
    · rintro ⟨e, d, he, hd, _, _⟩
      refine ⟨e, he, ?_⟩
      rw [eq_of_datum (hafter.lesbar s e he).1 hd]
      rfl

end

/-- What the store promises after a run and over the next call: it reports what the calls
lock, the call ends no lock and no hold of a slot, and it returns what is reported. -/
def Vertrag (W : Umgebung) (ops : List Vorgang) (a : Aufruf) : Prop :=
  (∀ now s, (∀ z ∈ zeiten ops, z ≤ now) →
    ((lauf W ops).active W now s = true ↔ Gesperrt W ops now s)) ∧
  (∀ now s, a.now ≤ now →
    ((lauf W ops).active W now s = true → (lauf W (ops ++ [.arm a])).active W now s = true) ∧
    ((lauf W ops).heldSlot W now s = true →
      (lauf W (ops ++ [.arm a])).heldSlot W now s = true)) ∧
  (0 < a.days → ∀ locked, ((lauf W ops).arm W a).2 = some locked →
    ∀ s, locked s = (lauf W (ops ++ [.arm a])).active W a.now s)

theorem lauf_concat (W : Umgebung) (ops : List Vorgang) (op : Vorgang) :
    lauf W (ops ++ [op]) = (lauf W ops).schritt W op := by
  unfold lauf
  rw [List.foldl_append]
  rfl

/-- After every run of calls at times that do not go back, with starts in between, the
store keeps its promise over the next call exactly when that call locks no names, is out of
range, or names every name whose lock is over while its slot is held. -/
theorem vertrag_iff {W : Umgebung} {ops : List Vorgang} {a : Aufruf}
    (hzeit : (zeiten (ops ++ [.arm a])).Pairwise (· ≤ ·)) :
    Vertrag W ops a ↔ (0 < a.days → a.InRange W → Genannt W (lauf W ops) a) := by
  have hsplit := hzeit
  unfold zeiten at hsplit
  rw [List.filterMap_append, List.pairwise_append] at hsplit
  have hbefore : ∀ z ∈ zeiten ops, z ≤ a.now := fun z hz => hsplit.2.2 z hz a.now (.head _)
  have hL : Laufend W ops a.now (lauf W ops) := laufend_lauf hsplit.1 hbefore
  have hnext : lauf W (ops ++ [.arm a]) = ((lauf W ops).arm W a).1 := lauf_concat W ops _
  unfold Vertrag
  rw [hnext]
  constructor
  · intro hv hdays hr
    exact (locked_eq_active_iff hL hdays hr).mp (hv.2.2 hdays)
  · intro hgenannt
    refine ⟨fun now s ht => active_iff (laufend_lauf hsplit.1 ht) le_rfl,
      fun now s ht => arm_laesst hL.load.lesbar ht, fun hdays locked hres => ?_⟩
    by_cases hr : a.InRange W
    · exact (locked_eq_active_iff hL hdays hr).mpr (hgenannt hdays hr) locked hres
    · rw [arm_out_of_range hr] at hres
      cases hres

/-! ### A name that is free again -/

/-- The days of a run: time 0 is a Monday, 1 and 2 are the two days after it. -/
def beispielTag (t : ℤ) : Date :=
  if t ≤ 0 then ⟨2026, 9, 21, by decide, by decide, by decide, by decide, by decide, by decide⟩
  else if t ≤ 1 then ⟨2026, 9, 22, by decide, by decide, by decide, by decide, by decide, by decide⟩
  else ⟨2026, 9, 23, by decide, by decide, by decide, by decide, by decide, by decide⟩

theorem beispielTag_mono : Monotone beispielTag := by
  intro s t hst
  unfold beispielTag
  split_ifs <;> first | omega | decide

/-- A store whose clock shows these days. -/
def beispielUmgebung : Umgebung where
  schrift := UpperCase.ascii
  tradingDayEt := beispielTag
  tag_mono := beispielTag_mono

/-- A name is locked for a day and its slot held for five. -/
def stopAufruf : Aufruf := ⟨["AAPL"], 0, 1, 5, ["AAPL"]⟩

def verkaufAufruf : Aufruf := ⟨["MSFT"], 2, 1, 5, []⟩

/-- After a restart the name is sold again with the other one. -/
def wiederAufruf : Aufruf := ⟨["MSFT", "AAPL"], 2, 1, 5, []⟩

/-- The lock of the name is over and its slot is held, and the call names it. -/
theorem vertrag_wieder_genannt :
    (lauf beispielUmgebung [.arm stopAufruf, .neustart]).active beispielUmgebung 2 "AAPL" = false ∧
      (lauf beispielUmgebung [.arm stopAufruf, .neustart]).heldSlot beispielUmgebung 2 "AAPL" = true ∧
      Vertrag beispielUmgebung [.arm stopAufruf, .neustart] wiederAufruf := by
  refine ⟨by decide +kernel, by decide +kernel, (vertrag_iff (by decide)).mpr fun _ _ => ?_⟩
  intro s e d h he hd _ _ _
  have hlaufend : Laufend beispielUmgebung [.arm stopAufruf, .neustart] 2
      (lauf beispielUmgebung [.arm stopAufruf, .neustart]) :=
    laufend_lauf (by decide) (by decide)
  have hlauf := hlaufend.load
  obtain ⟨a, ha, hsperrt⟩ := hlauf.origin s e d he (eq_of_datum (hlauf.lesbar s e he).1 hd)
  obtain rfl : a = stopAufruf := by simpa using ha
  have hnorm : beispielUmgebung.schrift.norm "AAPL" = "AAPL" := by decide +kernel
  obtain rfl : s = "AAPL" := by simpa [stopAufruf, hnorm] using hsperrt.1.2
  decide +kernel

/-- The second call returns the name of the first one, which is free again. -/
theorem vertrag_verletzt : ¬ Vertrag beispielUmgebung [.arm stopAufruf] verkaufAufruf := by
  intro hv
  have hlocked : (((lauf beispielUmgebung [.arm stopAufruf]).arm beispielUmgebung
      verkaufAufruf).2.map fun locked => locked "AAPL") = some true := by decide +kernel
  have hactive : (lauf beispielUmgebung ([.arm stopAufruf] ++ [.arm verkaufAufruf])).active
      beispielUmgebung verkaufAufruf.now "AAPL" = false := by decide +kernel
  obtain ⟨locked, hres, hname⟩ := Option.map_eq_some_iff.mp hlocked
  have hsame := hv.2.2 (by decide) locked hres "AAPL"
  rw [hname, hactive] at hsame
  cases hsame

end Positionsbuch
