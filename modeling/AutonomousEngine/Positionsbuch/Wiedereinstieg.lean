import AutonomousEngine.Positionsbuch.Sperrfrist

/-!
# Names that leave the book

Once in a cycle the loop locks the names that were sold in full.  It knows them from
three sets: the stop and rotation exits of the cycle, the names that vanished between
two confirmed snapshots of the book, and the trims, which are no full exits.  The
trims are taken away from the other two together, and all of them are forgotten then.

So a name that vanished is locked unless it is among the trims (`immerGesperrt`).
-/

namespace Positionsbuch

open Basis

/-! ## The sets of a cycle -/

/-- What the loop remembers between its steps. -/
structure Merkbuch where
  prevHeld : Option (List String)
  vanished : List String
  partialExits : List String
  stopLossExits : List String
  store : ReentryLockout

structure SperrCfg where
  reentryLockoutDays : ℤ
  stopExitSlotHoldDays : ℤ

/-- A snapshot of the book.  One that is not confirmed says nothing. -/
def notePositionSnapshot (U : UpperCase) (z : Merkbuch) (positions : List String)
    (confirmed : Bool) : Merkbuch :=
  if confirmed then
    let held := positions.map U.upper
    let vanished := match z.prevHeld with
      | some prev => prev.filter fun s => s ∉ held
      | none => []
    { z with vanished := z.vanished ++ vanished, prevHeld := some held }
  else z

def fullExits (U : UpperCase) (z : Merkbuch) (justExited : List String) : List String :=
  ((justExited.filter (· ≠ "")).map U.upper ++ z.vanished).filter
    fun s => s ∉ z.partialExits.map U.upper

/-- The call of a cycle with the set of locked names.  A store that fails locks none. -/
def stopoutReentryLocked (W : Umgebung) (c : SperrCfg) (z : Merkbuch) (justExited : List String)
    (now : ℤ) : Merkbuch × (String → Bool) :=
  let lossExits := z.stopLossExits.map W.schrift.upper
  if c.reentryLockoutDays ≤ 0 ∧ c.stopExitSlotHoldDays ≤ 0 then
    ({ z with stopLossExits := [] }, fun _ => false)
  else
    let full := fullExits W.schrift z justExited
    let z := { z with stopLossExits := [], vanished := [], partialExits := [] }
    if full = [] then ({ z with store := z.store.load W.schrift }, z.store.active W now)
    else
      let r := z.store.arm W ⟨full, now, c.reentryLockoutDays, c.stopExitSlotHoldDays,
        lossExits.filter fun s => s ∈ full⟩
      ({ z with store := r.1 }, r.2.getD fun _ => false)

inductive Zyklusschritt where
  | snapshot (positions : List String) (confirmed : Bool)
  | trim (sym : String)
  | lossStop (sym : String)
  | lock (justExited : List String) (now : ℤ)

def Merkbuch.schritt (W : Umgebung) (c : SperrCfg) (z : Merkbuch) : Zyklusschritt → Merkbuch
  | .snapshot positions confirmed => notePositionSnapshot W.schrift z positions confirmed
  | .trim sym => { z with partialExits := z.partialExits ++ [sym] }
  | .lossStop sym => { z with stopLossExits := z.stopLossExits ++ [W.schrift.upper sym] }
  | .lock justExited now => (stopoutReentryLocked W c z justExited now).1

def Merkbuch.nach (W : Umgebung) (c : SperrCfg) (z : Merkbuch) (es : List Zyklusschritt) :
    Merkbuch :=
  es.foldl (Merkbuch.schritt W c) z

def anfang (L : ReentryLockout) : Merkbuch := ⟨none, [], [], [], L⟩

section

variable {W : Umgebung} {c : SperrCfg} {z : Merkbuch} {es es' : List Zyklusschritt} {s : String}

theorem nach_append : z.nach W c (es ++ es') = (z.nach W c es).nach W c es' := List.foldl_append

theorem nach_cons {e : Zyklusschritt} :
    z.nach W c (e :: es) = (z.schritt W c e).nach W c es := rfl

/-! ## What the steps leave alone -/

theorem prevHeld_nach (h : ∀ P, .snapshot P true ∉ es) : (z.nach W c es).prevHeld = z.prevHeld := by
  induction es generalizing z with
  | nil => rfl
  | cons e es ih =>
      rw [nach_cons, ih fun P hP => h P (.tail _ hP)]
      cases e with
      | snapshot P confirmed =>
          cases confirmed with
          | true => exact absurd (.head _) (h P)
          | false => rfl
      | trim sym => rfl
      | lossStop sym => rfl
      | lock x now =>
          show (stopoutReentryLocked W c z x now).1.prevHeld = z.prevHeld
          unfold stopoutReentryLocked
          dsimp only
          split
          next => rfl
          next =>
            split
            next => rfl
            next => rfl

theorem vanished_nach (h : ∀ x now, .lock x now ∉ es) (hs : s ∈ z.vanished) :
    s ∈ (z.nach W c es).vanished := by
  induction es generalizing z with
  | nil => exact hs
  | cons e es ih =>
      rw [nach_cons]
      refine ih (fun x now hmem => h x now (.tail _ hmem)) ?_
      cases e with
      | snapshot P confirmed =>
          cases confirmed with
          | true => exact List.mem_append_left _ hs
          | false => exact hs
      | trim sym => exact hs
      | lossStop sym => exact hs
      | lock x now => exact absurd (.head _) (h x now)

/-- A name of the last confirmed snapshot that is not in the next one has vanished. -/
theorem mem_vanished_snapshot {prev B : List String} (hprev : z.prevHeld = some prev)
    (hs : s ∈ prev) (hB : s ∉ B.map W.schrift.upper) :
    s ∈ (z.schritt W c (.snapshot B true)).vanished := by
  show s ∈ (notePositionSnapshot W.schrift z B true).vanished
  unfold notePositionSnapshot
  rw [hprev]
  exact List.mem_append_right _ (List.mem_filter.mpr ⟨hs, decide_eq_true hB⟩)

/-! ## The call of a cycle -/

/-- The call that a cycle makes of the store. -/
def sperraufruf (U : UpperCase) (c : SperrCfg) (z : Merkbuch) (justExited : List String)
    (now : ℤ) : Aufruf :=
  ⟨fullExits U z justExited, now, c.reentryLockoutDays, c.stopExitSlotHoldDays,
    (z.stopLossExits.map U.upper).filter fun s => s ∈ fullExits U z justExited⟩

/-- The dates of a lock are in range on the day of a time. -/
def SperrCfg.InRange (W : Umgebung) (c : SperrCfg) (now : ℤ) : Prop :=
  lockoutUntil (W.tradingDayEt now) c.reentryLockoutDays ≠ none ∧
    lockoutUntil (W.tradingDayEt now) c.stopExitSlotHoldDays ≠ none

/-- With a name that was sold in full a cycle calls the store. -/
theorem stopoutReentryLocked_of_mem {justExited : List String}
    (hdays : 0 < c.reentryLockoutDays) (now : ℤ) (hs : s ∈ fullExits W.schrift z justExited) :
    (stopoutReentryLocked W c z justExited now).1.store =
        (z.store.arm W (sperraufruf W.schrift c z justExited now)).1 ∧
      (stopoutReentryLocked W c z justExited now).2 =
        (z.store.arm W (sperraufruf W.schrift c z justExited now)).2.getD fun _ => false := by
  have hon : ¬ (c.reentryLockoutDays ≤ 0 ∧ c.stopExitSlotHoldDays ≤ 0) := by omega
  have hne : fullExits W.schrift z justExited ≠ [] := List.ne_nil_of_mem hs
  unfold stopoutReentryLocked sperraufruf
  dsimp only
  rw [if_neg hon, if_neg hne]
  exact ⟨rfl, rfl⟩

/-- The store after a cycle is the one before, read, or the one after a call. -/
theorem store_stopoutReentryLocked {justExited : List String} {now : ℤ} :
    (stopoutReentryLocked W c z justExited now).1.store = z.store ∨
      (stopoutReentryLocked W c z justExited now).1.store = z.store.load W.schrift ∨
      (stopoutReentryLocked W c z justExited now).1.store =
        (z.store.arm W (sperraufruf W.schrift c z justExited now)).1 := by
  unfold stopoutReentryLocked sperraufruf
  dsimp only
  split
  next => exact .inl rfl
  next =>
    split
    next => exact .inr (.inl rfl)
    next => exact .inr (.inr rfl)

theorem locked_of_nennt {ops : List Vorgang} {L : ReentryLockout} {a : Aufruf}
    (hL : Laufend W ops a.now L) (hdays : 0 < a.days) (hr : a.InRange W) (hs : a.Nennt W s) :
    ((L.arm W a).2.getD fun _ => false) s = true := by
  obtain ⟨u, h, hu, hlocked, hentries⟩ := arm_locked hL.load.lesbar hdays hr
  have hlock : ∃ e d, genannt ((L.load W.schrift).entries s) a.now (some u)
      (a.haltFuer W.schrift h s) = some e ∧ e.untilDay = some (Date.isoformat d) ∧ u ≤ d :=
    genannt_until (hL.load.lesbar s) u
  obtain ⟨e, d, hg, hd, hle⟩ := hlock
  have hopen : e.offen (W.tradingDayEt a.now) = true :=
    offen_of_until (by rw [hd, datum_isoformat]) ((lt_of_lockoutUntil hu).trans_le hle)
  have hentry : ((L.arm W a).1.load W.schrift).entries s = some e := by
    rw [hentries, nachAufruf, if_pos hs]
    exact Option.filter_eq_some_iff.mpr ⟨hg, hopen⟩
  rw [hlocked]
  show (((L.arm W a).1.load W.schrift).entries s).any _ = true
  rw [hentry]
  show e.untilDay.isSome = true
  rw [hd]
  rfl

/-! ## Runs -/

def Zyklusschritt.zeit : Zyklusschritt → Option ℤ
  | .lock _ now => some now
  | _ => none

def rufzeiten (es : List Zyklusschritt) : List ℤ := es.filterMap Zyklusschritt.zeit

theorem laufend_load {ops : List Vorgang} {t : ℤ} {L : ReentryLockout}
    (hL : Laufend W ops t L) : Laufend W ops t (L.load W.schrift) where
  leer h := by
    rw [loaded_load] at h
    cases h
  entries _ := hL.load
  datei := by
    unfold ReentryLockout.aufDatei
    rw [datei_load]
    exact hL.datei

/-- A step of the loop adds at most a call to the history of the store. -/
theorem laufend_schritt {ops : List Vorgang} {t t' : ℤ} (hL : Laufend W ops t z.store)
    {e : Zyklusschritt} (he : ∀ now, e.zeit = some now → t ≤ now ∧ now ≤ t') (htt : t ≤ t') :
    ∃ ops', ops ⊆ ops' ∧ Laufend W ops' t' (z.schritt W c e).store := by
  cases e with
  | snapshot P confirmed =>
      cases confirmed with
      | true => exact ⟨ops, fun _ h => h, hL.spaeter htt⟩
      | false => exact ⟨ops, fun _ h => h, hL.spaeter htt⟩
  | trim sym => exact ⟨ops, fun _ h => h, hL.spaeter htt⟩
  | lossStop sym => exact ⟨ops, fun _ h => h, hL.spaeter htt⟩
  | lock x now =>
      obtain ⟨hlow, hhigh⟩ := he now rfl
      show ∃ ops', ops ⊆ ops' ∧ Laufend W ops' t' (stopoutReentryLocked W c z x now).1.store
      rcases store_stopoutReentryLocked (W := W) (c := c) (z := z) with hst | hst | hst
      · rw [hst]
        exact ⟨ops, fun _ h => h, hL.spaeter htt⟩
      · rw [hst]
        exact ⟨ops, fun _ h => h, laufend_load (hL.spaeter htt)⟩
      · rw [hst]
        exact ⟨_, List.subset_append_left ops _, (laufend_arm (hL.spaeter hlow)).spaeter hhigh⟩

/-- The store after a run has the calls of its history before the run, and more. -/
theorem laufend_nach {ops : List Vorgang} {t t' : ℤ} (hL : Laufend W ops t z.store)
    (hzeit : (rufzeiten es).Pairwise (· ≤ ·)) (hlow : ∀ now ∈ rufzeiten es, t ≤ now)
    (hhigh : ∀ now ∈ rufzeiten es, now ≤ t') (htt : t ≤ t') :
    ∃ ops', ops ⊆ ops' ∧ Laufend W ops' t' (z.nach W c es).store := by
  induction es generalizing z ops t with
  | nil => exact ⟨ops, fun _ h => h, hL.spaeter htt⟩
  | cons e es ih =>
      rw [nach_cons]
      cases he : e.zeit with
      | none =>
          have hskip : rufzeiten (e :: es) = rufzeiten es := List.filterMap_cons_none he
          rw [hskip] at hzeit hlow hhigh
          have hstep : ∃ ops', ops ⊆ ops' ∧ Laufend W ops' t (z.schritt W c e).store :=
            laufend_schritt hL (fun now hnow => by rw [he] at hnow; cases hnow) le_rfl
          obtain ⟨ops', hsub, hL'⟩ := hstep
          obtain ⟨ops'', hsub', hL''⟩ := ih hL' hzeit hlow hhigh htt
          exact ⟨ops'', List.Subset.trans hsub hsub', hL''⟩
      | some now =>
          have hcons : rufzeiten (e :: es) = now :: rufzeiten es := List.filterMap_cons_some he
          rw [hcons] at hzeit hlow hhigh
          obtain ⟨hlater, hzeit⟩ := List.pairwise_cons.mp hzeit
          have hstep : ∃ ops', ops ⊆ ops' ∧ Laufend W ops' now (z.schritt W c e).store := by
            refine laufend_schritt hL (fun now' hnow => ?_) (hlow now (.head _))
            rw [he] at hnow
            cases hnow
            exact ⟨hlow now (.head _), le_rfl⟩
          obtain ⟨ops', hsub, hL'⟩ := hstep
          obtain ⟨ops'', hsub', hL''⟩ := ih hL' hzeit hlater
            (fun now' h => hhigh now' (.tail _ h)) (hhigh now (.head _))
          exact ⟨ops'', List.Subset.trans hsub hsub', hL''⟩

end

/-- Every name that is in one confirmed snapshot and not in the next one is locked by the
next call, and stays so on every day before its date. -/
def ImmerGesperrt (W : Umgebung) (c : SperrCfg) (z : Merkbuch) (es : List Zyklusschritt) : Prop :=
  ∀ pre A mid B mid' x now post s,
    es = pre ++ .snapshot A true :: (mid ++ .snapshot B true :: (mid' ++ .lock x now :: post)) →
    (∀ P, .snapshot P true ∉ mid) → (∀ y t, .lock y t ∉ mid') →
    s ∈ A.map W.schrift.upper → s ∉ B.map W.schrift.upper → W.schrift.norm s ≠ "" →
    (stopoutReentryLocked W c (z.nach W c (pre ++ .snapshot A true ::
        (mid ++ .snapshot B true :: mid'))) x now).2 (W.schrift.norm s) = true ∧
      ∀ t u, lockoutUntil (W.tradingDayEt now) c.reentryLockoutDays = some (some u) →
        (∀ t' ∈ rufzeiten es, t' ≤ t) → W.tradingDayEt t < u →
          (z.nach W c es).store.active W t (W.schrift.norm s) = true

/-- At every call of a run the dates are in range, and no name that vanished is among the
trims. -/
def Getrennt (W : Umgebung) (c : SperrCfg) (z : Merkbuch) (es : List Zyklusschritt) : Prop :=
  ∀ pre x now post, es = pre ++ .lock x now :: post → c.InRange W now ∧
    ∀ s ∈ (z.nach W c pre).vanished, s ∉ (z.nach W c pre).partialExits.map W.schrift.upper

section

variable {W : Umgebung} {c : SperrCfg} {z : Merkbuch} {s : String}

/-- A name that vanished between two confirmed snapshots is remembered up to the next
call. -/
theorem mem_vanished {pre mid mid' : List Zyklusschritt} {A B : List String}
    (hmid : ∀ P, .snapshot P true ∉ mid) (hmid' : ∀ y t, .lock y t ∉ mid')
    (hA : s ∈ A.map W.schrift.upper) (hB : s ∉ B.map W.schrift.upper) :
    s ∈ (z.nach W c (pre ++ .snapshot A true :: (mid ++ .snapshot B true :: mid'))).vanished := by
  rw [nach_append, nach_cons, nach_append, nach_cons]
  refine vanished_nach hmid' (mem_vanished_snapshot ?_ hA hB)
  rw [prevHeld_nach hmid]
  rfl

theorem mem_fullExits {justExited : List String} (hs : s ∈ z.vanished)
    (htrim : s ∉ z.partialExits.map W.schrift.upper) : s ∈ fullExits W.schrift z justExited :=
  List.mem_filter.mpr ⟨List.mem_append_right _ hs, decide_eq_true htrim⟩

end

/-- In a run in which no name that vanished is among the trims of the next call, every
full exit is locked. -/
theorem immerGesperrt {W : Umgebung} {c : SperrCfg} (hdays : 0 < c.reentryLockoutDays)
    {ops : List Vorgang} {t : ℤ} {L : ReentryLockout} (hL : Laufend W ops t L)
    {es : List Zyklusschritt} (hzeit : (rufzeiten es).Pairwise (· ≤ ·))
    (hlow : ∀ now ∈ rufzeiten es, t ≤ now) (hes : Getrennt W c (anfang L) es) :
    ImmerGesperrt W c (anfang L) es := by
  intro pre A mid B mid' x now post s hsplit hmid hmid' hA hB hname
  have hgone : s ∈ ((anfang L).nach W c (pre ++ .snapshot A true ::
      (mid ++ .snapshot B true :: mid'))).vanished := mem_vanished hmid hmid' hA hB
  generalize hbefore : pre ++ .snapshot A true :: (mid ++ .snapshot B true :: mid') = before
    at hgone ⊢
  have hes' : es = before ++ .lock x now :: post := by
    rw [hsplit, ← hbefore]
    simp only [List.append_assoc, List.cons_append]
  -- the call
  obtain ⟨hrange, htrims⟩ := hes before x now post hes'
  have hfull : s ∈ fullExits W.schrift ((anfang L).nach W c before) x :=
    mem_fullExits hgone (htrims s hgone)
  obtain ⟨hstore, hset⟩ := stopoutReentryLocked_of_mem hdays now hfull
  have hnennt : (sperraufruf W.schrift c ((anfang L).nach W c before) x now).Nennt W
      (W.schrift.norm s) := ⟨hname, List.mem_map_of_mem hfull⟩
  -- the times before and after it
  have htimes : rufzeiten es = rufzeiten before ++ now :: rufzeiten post := by
    rw [hes']
    unfold rufzeiten
    rw [List.filterMap_append]
    rfl
  rw [htimes] at hzeit hlow ⊢
  obtain ⟨hpairs, hpairs', hcross⟩ := List.pairwise_append.mp hzeit
  obtain ⟨hafter, hpairs'⟩ := List.pairwise_cons.mp hpairs'
  have hnow : t ≤ now := hlow now (List.mem_append_right _ (.head _))
  obtain ⟨ops', _, hL'⟩ := laufend_nach (z := anfang L) (c := c) hL hpairs
    (fun t' ht' => hlow t' (List.mem_append_left _ ht'))
    (fun t' ht' => hcross t' ht' now (.head _)) hnow
  constructor
  · rw [hset]
    exact locked_of_nennt hL' hdays hrange hnennt
  · intro t' u hu htime hlt
    have hcall : Laufend W (ops' ++ [.arm (sperraufruf W.schrift c
        ((anfang L).nach W c before) x now)]) now
        (((anfang L).nach W c before).schritt W c (.lock x now)).store := by
      show Laufend W _ now (stopoutReentryLocked W c ((anfang L).nach W c before) x now).1.store
      rw [hstore]
      exact laufend_arm hL'
    obtain ⟨ops'', hsub, hL''⟩ := laufend_nach (c := c) hcall hpairs' hafter
      (fun t₁ ht₁ => htime t₁ (List.mem_append_right _ (.tail _ ht₁)))
      (htime now (List.mem_append_right _ (.head _)))
    rw [hes', nach_append, nach_cons]
    refine (active_iff hL'' le_rfl).mpr ⟨_, u, hsub (List.mem_append_right _ (.head _)),
      ⟨hnennt, hu, hrange.2⟩, hlt⟩

/-! ### A name that vanished and is among the trims -/

def einTag : SperrCfg := ⟨1, 0⟩

theorem getrennt_of_place {W : Umgebung} {c : SperrCfg} {z : Merkbuch} {es : List Zyklusschritt}
    (h : ∀ n < es.length, ∀ x now, es[n]? = some (.lock x now) → c.InRange W now ∧
      ∀ s ∈ (z.nach W c (es.take n)).vanished,
        s ∉ (z.nach W c (es.take n)).partialExits.map W.schrift.upper) : Getrennt W c z es := by
  rintro pre x now post rfl
  have hplace := h pre.length (by simp) x now (by simp)
  rwa [List.take_left] at hplace

/-- Two names vanish from the book, one before each call.  A third one is trimmed, and a snapshot
that is not confirmed says nothing. -/
def verkauft : List Zyklusschritt :=
  [.snapshot ["AAPL", "MSFT", "TSLA"] true, .trim "TSLA", .snapshot [] false,
    .snapshot ["MSFT", "TSLA"] true, .lock [] 0, .snapshot ["TSLA"] true, .lock [] 60]

theorem getrennt_verkauft : Getrennt beispielUmgebung einTag (anfang unbenutzt) verkauft := by
  refine getrennt_of_place fun n hn x now hlock => ?_
  have hcall : n = 4 ∧ now = 0 ∨ n = 6 ∧ now = 60 := by
    change n < 7 at hn
    interval_cases n <;> simp_all [verkauft]
  rcases hcall with ⟨rfl, rfl⟩ | ⟨rfl, rfl⟩
  · exact ⟨⟨by decide +kernel, by decide +kernel⟩, by decide +kernel⟩
  · exact ⟨⟨by decide +kernel, by decide +kernel⟩, by decide +kernel⟩

theorem immerGesperrt_verkauft :
    ImmerGesperrt beispielUmgebung einTag (anfang unbenutzt) verkauft := by
  have hL : Laufend beispielUmgebung [] 0 unbenutzt := laufend_lauf .nil (by decide)
  exact immerGesperrt (by decide) hL (by decide) (by decide) getrennt_verkauft

/-- A name vanishes and is trimmed before the next call, which does not lock it. -/
theorem nicht_gesperrt : ¬ ImmerGesperrt beispielUmgebung einTag (anfang unbenutzt)
    [.snapshot ["AAPL"] true, .snapshot [] true, .trim "AAPL", .lock [] 0] := by
  intro h
  have hlocked := (h [] ["AAPL"] [] [] [.trim "AAPL"] [] 0 [] "AAPL" rfl
    (fun _ hP => by cases hP) (fun _ _ hy => by simp at hy) (by decide +kernel) (by decide)
    (by decide +kernel)).1
  revert hlocked
  decide +kernel

end Positionsbuch
