import AutonomousEngine.PortfolioKern.Zulassung

/-!
# The cap of the book and the cap of a day

Runs of a manager: candidates come with whatever the broker and the configuration say
at the time, and between them trades are recorded and live consensus is stored.  With
the cap of the book enforced a candidate is let in without an exchange only on a
confirmed book with room (`platz_bestaetigt`), and with a cap on the exchanges of a day
no date sees more of them (`tausche_le_rest`).  Time does not go back in a run.
-/

namespace PortfolioKern

open Basis

/-! ## Runs -/

/-- A call or something that happens between calls. -/
inductive Schritt where
  | aufruf (u : Umfeld) (o : OpportunityScore)
  | recordTrade (jetzt : ℤ) (symbol : String) (verkauf : Bool)
  | setLiveConsensus (symbol : String) (consensus : ExtRat)

/-- Records a trade, keeps thirty days of them, and no longer trusts the book after a
sale. -/
def recordTrade (jetzt : ℤ) (symbol : String) (verkauf : Bool) (b : Buch) : Buch :=
  let history := (dictGet symbol b.tradeHistory).getD [] ++ [jetzt]
  let kept := history.filter fun t => jetzt - 30 * tagMikrosekunden < t
  { b with
    tradeHistory := dictSet symbol kept b.tradeHistory
    lastRebalance := dictSet symbol jetzt b.lastRebalance
    lastRefreshOk := if verkauf then false else b.lastRefreshOk }

def setLiveConsensus (symbol : String) (consensus : ExtRat) (b : Buch) : Buch :=
  match consensus with
  | .of q => { b with liveConsensus := dictSet symbol (.of q) b.liveConsensus }
  | _ => b

variable (m : Manager)

def schritt (b : Buch) : Schritt → Buch
  | .aufruf u o => (shouldOpenNewPosition m u b o).2
  | .recordTrade jetzt symbol verkauf => recordTrade jetzt symbol verkauf b
  | .setLiveConsensus symbol consensus => setLiveConsensus symbol consensus b

def lauf (b : Buch) (xs : List Schritt) : Buch := xs.foldl (schritt m) b

/-- Whether a step lets a candidate in for another symbol on a date. -/
def istTausch (d : ℤ) (b : Buch) : Schritt → Bool
  | .aufruf u o =>
      decide (u.heute = d) && (shouldOpenNewPosition m u b o).1.shouldOpen &&
        (shouldOpenNewPosition m u b o).1.symbolToClose.isSome
  | _ => false

def tausche (d : ℤ) : Buch → List Schritt → ℕ
  | _, [] => 0
  | b, x :: xs => (if istTausch m d b x then 1 else 0) + tausche d (schritt m b x) xs

def zeiten (xs : List Schritt) : List ℤ :=
  xs.filterMap fun x => match x with
    | .aufruf u _ => some u.jetzt
    | _ => none

/-! ## The cap of the book -/

variable {m}

theorem platz_bestaetigt {u : Umfeld} {b : Buch} {o : OpportunityScore} {grund : Grund}
    (hmax : 1 ≤ m.maxPositions) (hcap : bookCapEnforced u.cfg = true)
    (h : (shouldOpenNewPosition m u b o).1 = ⟨true, grund, none⟩) :
    (refreshPositions u b).lastRefreshOk = true ∧ Gemeldet u (refreshPositions u b) ∧
      numPositions (refreshPositions u b) < m.maxPositions := by
  have hout := ausgang m u (refreshPositions u b) o
  rw [← shouldOpenNewPosition] at hout
  generalize shouldOpenNewPosition m u b o = r at hout h
  cases hout with
  | abgelehnt => cases h
  | platz grund hroom hok => exact ⟨hok hcap, gemeldet_refreshPositions u b (hok hcap), hroom⟩
  | tausch grund' hvor hswap =>
      injection h with _ _ hnone
      have hnil := getWeakestPosition_eq_none (Option.map_eq_none_iff.mp hnone)
      have hfull := hvor.voll
      rw [numPositions, hnil] at hfull
      exact absurd (hmax.trans hfull) (by decide)

/-! ## The cap of a day -/

def rest (cap : ℕ) (d : ℤ) (b : Buch) : ℕ :=
  if b.displacementSessionDate = some d then cap - b.displacementsSession else cap

theorem rest_le (cap : ℕ) (d : ℤ) (b : Buch) : rest cap d b ≤ cap := by
  rw [rest]
  split
  next => exact Nat.sub_le _ _
  next => exact le_rfl

theorem rest_of_zaehler {b b' : Buch} (h : b'.zaehler = b.zaehler) (cap : ℕ) (d : ℤ) :
    rest cap d b' = rest cap d b := by
  obtain ⟨hdate, hcount⟩ := Prod.mk.inj h
  rw [rest, rest, hdate, hcount]

theorem rest_amTag (cap : ℕ) (heute : ℤ) (b : Buch) :
    rest cap heute (b.amTag heute) = rest cap heute b := by
  rw [rest, rest, if_pos (amTag_displacementSessionDate b heute), amTag_displacementsSession]
  split
  next => rfl
  next => exact Nat.sub_zero cap

theorem zaehler_schritt_of_not_aufruf {x : Schritt} (h : ∀ u o, x ≠ .aufruf u o) (b : Buch) :
    (schritt m b x).zaehler = b.zaehler := by
  cases x with
  | aufruf u o => exact absurd rfl (h u o)
  | recordTrade jetzt symbol verkauf => rfl
  | setLiveConsensus symbol consensus =>
      cases consensus with
      | of q => rfl
      | _ => rfl

/-- A displacement takes one from the rest. -/
theorem rest_noteDisplacement {cap : ℕ} {heute : ℤ} {b : Buch} (hpos : 1 ≤ cap)
    (hbudget : sessionBudgetOk cap (b.amTag heute) = true) :
    1 + rest cap heute (noteDisplacement heute (b.amTag heute)) ≤ rest cap heute b := by
  have hdate : (noteDisplacement heute (b.amTag heute)).displacementSessionDate = some heute :=
    amTag_displacementSessionDate _ heute
  have hcount : (noteDisplacement heute (b.amTag heute)).displacementsSession =
      (b.amTag heute).displacementsSession + 1 := by
    show ((b.amTag heute).amTag heute).displacementsSession + 1 = _
    rw [amTag_displacementsSession, if_pos (amTag_displacementSessionDate b heute)]
  have hleft : (b.amTag heute).displacementsSession < cap := by
    rw [sessionBudgetOk, Bool.or_eq_true, decide_eq_true_eq, decide_eq_true_eq] at hbudget
    omega
  rw [← rest_amTag cap heute b, rest, rest, if_pos hdate, hcount,
    if_pos (amTag_displacementSessionDate b heute)]
  omega

/-- A call takes from the rest of its date what it lets in. -/
theorem rest_aufruf {cap : ℕ} {u : Umfeld} (hpos : 1 ≤ cap)
    (hcap : displacementSessionCap u.cfg = cap) (b : Buch) (o : OpportunityScore) :
    (if istTausch m u.heute b (.aufruf u o) then 1 else 0) +
      rest cap u.heute (schritt m b (.aufruf u o)) ≤ rest cap u.heute b := by
  have hout := ausgang m u (refreshPositions u b) o
  have hrefresh := rest_of_zaehler (zaehler_refreshPositions u b) cap u.heute
  rw [← shouldOpenNewPosition] at hout
  rw [istTausch, schritt, ← hrefresh]
  generalize shouldOpenNewPosition m u b o = r at hout
  cases hout with
  | abgelehnt grund b' h =>
      rw [if_neg (by simp), Nat.zero_add]
      rcases h with rfl | rfl
      · exact le_rfl
      · exact (rest_amTag cap u.heute _).le
  | platz grund hroom hok => rw [if_neg (by simp), Nat.zero_add]
  | tausch grund hvor hswap =>
      have hbudget := hvor.budget
      rw [hcap] at hbudget
      have hnote := rest_noteDisplacement hpos hbudget
      have hone (c : Bool) : (if c then 1 else 0) ≤ 1 := by
        cases c with
        | false => exact Nat.zero_le 1
        | true => exact le_rfl
      exact (Nat.add_le_add_right (hone _) _).trans hnote

/-- A call leaves the date of the counter or sets it to its own. -/
theorem date_aufruf (u : Umfeld) (b : Buch) (o : OpportunityScore) :
    (schritt m b (.aufruf u o)).displacementSessionDate = b.displacementSessionDate ∨
      (schritt m b (.aufruf u o)).displacementSessionDate = some u.heute := by
  have hout := ausgang m u (refreshPositions u b) o
  have hrefresh := congrArg Prod.fst (zaehler_refreshPositions u b)
  rw [← shouldOpenNewPosition] at hout
  rw [schritt]
  generalize shouldOpenNewPosition m u b o = r at hout
  cases hout with
  | abgelehnt grund b' h =>
      rcases h with rfl | rfl
      · exact .inl hrefresh
      · exact .inr (amTag_displacementSessionDate _ _)
  | platz grund hroom hok => exact .inl hrefresh
  | tausch grund hvor hswap => exact .inr (amTag_displacementSessionDate _ _)

/-- A step that is no call of a date lets nothing in on it. -/
theorem istTausch_eq_false {d : ℤ} {x : Schritt} (h : ∀ u o, x = .aufruf u o → u.heute ≠ d)
    (b : Buch) : istTausch m d b x = false := by
  cases x with
  | aufruf u o => rw [istTausch, decide_eq_false (h u o rfl), Bool.false_and, Bool.false_and]
  | recordTrade jetzt symbol verkauf => rfl
  | setLiveConsensus symbol consensus => rfl

theorem tausche_eq_zero {d : ℤ} {xs : List Schritt}
    (h : ∀ u o, .aufruf u o ∈ xs → u.heute ≠ d) (b : Buch) : tausche m d b xs = 0 := by
  induction xs generalizing b with
  | nil => rfl
  | cons x xs ih =>
      have hx : ∀ u o, x = .aufruf u o → u.heute ≠ d := by
        rintro u o rfl
        exact h u o (.head _)
      rw [tausche, istTausch_eq_false hx, ih fun u o hmem => h u o (.tail _ hmem)]
      rfl

def Chronologisch (xs : List Schritt) : Prop := (zeiten xs).Pairwise (· ≤ ·)

theorem mem_zeiten {u : Umfeld} {o : OpportunityScore} {xs : List Schritt}
    (h : .aufruf u o ∈ xs) : u.jetzt ∈ zeiten xs := List.mem_filterMap.mpr ⟨_, h, rfl⟩

theorem Umfeld.heute_le {u u' : Umfeld} (h : u.jetzt ≤ u'.jetzt) : u.heute ≤ u'.heute :=
  Int.ediv_le_ediv (by decide) h

theorem Chronologisch.tail {x : Schritt} {xs : List Schritt} (h : Chronologisch (x :: xs)) :
    Chronologisch xs := by
  cases x with
  | aufruf u o => exact (List.pairwise_cons.mp h).2
  | recordTrade jetzt symbol verkauf => exact h
  | setLiveConsensus symbol consensus => exact h

theorem Chronologisch.le_of_mem {u u' : Umfeld} {o o' : OpportunityScore} {xs : List Schritt}
    (h : Chronologisch (.aufruf u o :: xs)) (hmem : .aufruf u' o' ∈ xs) : u.heute ≤ u'.heute :=
  Umfeld.heute_le ((List.pairwise_cons.mp h).1 _ (mem_zeiten hmem))

/-- No date sees more exchanges than are left of the cap. -/
theorem tausche_le_rest {cap : ℕ} (hpos : 1 ≤ cap) {xs : List Schritt} (h : Chronologisch xs)
    (hcap : ∀ u o, .aufruf u o ∈ xs → displacementSessionCap u.cfg = cap) (d : ℤ) (b : Buch)
    (hpast : ∀ e, b.displacementSessionDate = some e → ∀ u o, .aufruf u o ∈ xs → e ≤ u.heute) :
    tausche m d b xs ≤ rest cap d b := by
  induction xs generalizing b with
  | nil => exact Nat.zero_le _
  | cons x xs ih =>
      have hcap' := fun u o hmem => hcap u o (.tail x hmem)
      rw [tausche]
      cases x with
      | aufruf u o =>
          have hnext : ∀ e, (schritt m b (.aufruf u o)).displacementSessionDate = some e →
              ∀ u' o', .aufruf u' o' ∈ xs → e ≤ u'.heute := by
            intro e he u' o' hmem
            rcases date_aufruf (m := m) u b o with hsame | hset
            · exact hpast e (hsame.symm.trans he) u' o' (.tail _ hmem)
            · rw [hset] at he
              rw [← Option.some.inj he]
              exact h.le_of_mem hmem
          have hrest := ih h.tail hcap' _ hnext
          by_cases hd : u.heute = d
          · subst hd
            have hstep := rest_aufruf (m := m) hpos (hcap u o (.head _)) b o
            omega
          · have hno : istTausch m d b (.aufruf u o) = false :=
              istTausch_eq_false (by rintro u' o' ⟨⟩; exact hd) b
            rw [hno, if_neg Bool.false_ne_true, Nat.zero_add]
            by_cases hdate : b.displacementSessionDate = some d
            · -- The date of the counter is over, and no call comes back to it.
              have hlt : d < u.heute := lt_of_le_of_ne (hpast d hdate u o (.head _)) (Ne.symm hd)
              rw [tausche_eq_zero fun u' o' hmem => (hlt.trans_le (h.le_of_mem hmem)).ne']
              exact Nat.zero_le _
            · rw [rest, if_neg hdate]
              exact hrest.trans (rest_le _ _ _)
      | recordTrade jetzt symbol verkauf =>
          rw [istTausch_eq_false (fun _ _ hne => by cases hne), if_neg Bool.false_ne_true,
            Nat.zero_add]
          exact ih h.tail hcap' _ fun e he u o hmem => hpast e he u o (.tail _ hmem)
      | setLiveConsensus symbol consensus =>
          have hsame : (schritt m b (.setLiveConsensus symbol consensus)).zaehler = b.zaehler :=
            zaehler_schritt_of_not_aufruf (fun _ _ hne => by cases hne) b
          rw [istTausch_eq_false (fun _ _ hne => by cases hne), if_neg Bool.false_ne_true,
            Nat.zero_add, ← rest_of_zaehler hsame]
          refine ih h.tail hcap' _ fun e he u o hmem => hpast e ?_ u o (.tail _ hmem)
          exact (congrArg Prod.fst hsame).symm.trans he

/-- In every state a candidate is let in without an exchange only on a confirmed book, which
shows what the broker has answered, with room in it, and no date of a run sees more exchanges
than its cap. -/
theorem buchdeckel (m : Manager) :
    (∀ (u : Umfeld) (b : Buch) (o : OpportunityScore) (grund : Grund), 1 ≤ m.maxPositions →
      bookCapEnforced u.cfg = true → (shouldOpenNewPosition m u b o).1 = ⟨true, grund, none⟩ →
      (refreshPositions u b).lastRefreshOk = true ∧ Gemeldet u (refreshPositions u b) ∧
        numPositions (refreshPositions u b) < m.maxPositions) ∧
    ∀ (cap : ℕ) (kapital : ExtRat) (xs : List Schritt) (d : ℤ), 1 ≤ cap → Chronologisch xs →
      (∀ u o, .aufruf u o ∈ xs → displacementSessionCap u.cfg = cap) →
      tausche m d (.neu kapital) xs ≤ cap := by
  refine ⟨fun u b o grund hmax hcap h => platz_bestaetigt hmax hcap h, ?_⟩
  intro cap kapital xs d hpos h hcap
  have hfresh : ∀ e, (Buch.neu kapital).displacementSessionDate = some e →
      ∀ u o, .aufruf u o ∈ xs → e ≤ u.heute := by
    intro e he
    cases he
  exact (tausche_le_rest hpos h hcap d _ hfresh).trans (rest_le _ _ _)

/-! ## An example -/

def einTausch : Config where
  bookCapEnforcementEnabled := true
  displacementMaxPerSession := 1

/-- Two candidates on one day, and one of them again on the next. -/
def zweiTage : List Schritt :=
  [.aufruf (vollesBuch einTausch 0) { symbol := "NVDA", totalScore := .of 90 },
    .aufruf (vollesBuch einTausch 1000000) { symbol := "TSLA", totalScore := .of 90 },
    .aufruf (vollesBuch einTausch tagMikrosekunden) { symbol := "TSLA", totalScore := .of 90 }]

theorem zweiTage_tausche : tausche zweiPlaetze 0 (.neu (.of 10000)) zweiTage = 1 ∧
    tausche zweiPlaetze 1 (.neu (.of 10000)) zweiTage = 1 ∧
    tausche zweiPlaetze 0 (.neu (.of 10000)) zweiTage ≤ 1 := by
  refine ⟨by decide +kernel, by decide +kernel, ?_⟩
  refine (buchdeckel zweiPlaetze).2 1 (.of 10000) zweiTage 0 le_rfl ?_ ?_
  · show List.Pairwise (· ≤ ·) [0, 1000000, tagMikrosekunden]
    decide
  · intro u o h
    rcases h with _ | ⟨_, _ | ⟨_, _ | ⟨_, ⟨⟩⟩⟩⟩
    · rfl
    · rfl
    · rfl

end PortfolioKern
