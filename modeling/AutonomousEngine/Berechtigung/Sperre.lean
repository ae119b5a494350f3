import AutonomousEngine.Berechtigung.EngineLease
import Mathlib.Tactic.NormNum

/-!
# At most one holder

The lock is one row with one token, so two contenders with different tokens
never hold it at once.

A row with time left is only touched by its own contender, or by a break that
names its token.  An acquisition compares the expiry with a time it read
earlier, and the clock does not go back.  A renewal, a release and a break
compare the token.

A take-over breaks the lock of a process that has ended.  The note it read was
written by the contender whose token it names (`Wahr`), that contender's process
had started by then, and no process with its pid was running when the take-over
looked.  So it had ended, and a process that has ended does not run again.
-/

namespace Berechtigung

open Basis State

variable {κ : Type} {K : κ → Kandidat} {konto : String} {v : Vermerkschrift}

/-- The contender's token is the value of the row, at a time some clock read. -/
def Haelt (K : κ → Kandidat) (konto : String) (s : Ablage) (k : κ) (t : ℚ) : Prop :=
  s.db.held (sperreKey konto) (K k).token t = true

/-! ## The processes -/

theorem Phase.Bis.tot {x y : Phase} (h : x.Bis y) (hx : x = .tot) : y = .tot := by
  subst hx
  cases h
  rfl

theorem Phase.Bis.ne_vor {x y : Phase} (h : x.Bis y) (hx : x ≠ .vor) : y ≠ .vor := by
  cases h with
  | refl => exact hx
  | _ => simp

theorem Phase.eq_tot {x : Phase} (h : x ≠ .vor) (h' : x ≠ .laeuft) : x = .tot := by
  cases x with
  | vor => exact absurd rfl h
  | laeuft => exact absurd rfl h'
  | tot => rfl

/-! ## The note -/

/-- A note of a contender whose process has started. -/
def Wahr (K : κ → Kandidat) (s : Ablage) (h : Halter) : Prop :=
  ∃ k, h = (K k).halter ∧ s.phase (K k).prozess ≠ .vor

/-- The note in the store was written by a contender. -/
def Stand (K : κ → Kandidat) (konto : String) (v : Vermerkschrift) (s : Ablage) : Prop :=
  ∀ z, s.db.engineState (halterKey konto) = some z → ∃ h, z.value = v.dumps h ∧ Wahr K s h

/-- What holds of a contender at a point. -/
def Punkt.Gilt (K : κ → Kandidat) (v : Vermerkschrift) (s : Ablage) : Punkt κ → Prop
  | .acquireSql _ _ t => t ≤ s.jetzt
  | .uebernehmenFrist _ z => ∃ h, z.value = v.dumps h ∧ Wahr K s h
  | .uebernehmenPruefen _ h => Wahr K s h
  | .uebernehmenBrechen _ t => ∃ k, t = (K k).token ∧ s.phase (K k).prozess = .tot
  | _ => True

def Punkt.Bricht (t : String) : Punkt κ → Prop
  | .beginn _ (.brechen t') => t' = t
  | .uebernehmenBrechen _ t' => t' = t
  | _ => False

/-- From one state to a later one. -/
structure Spaeter (s s' : Ablage) : Prop where
  jetzt : s.jetzt ≤ s'.jetzt
  phase : ∀ P, (s.phase P).Bis (s'.phase P)

theorem Wahr.spaeter {s s' : Ablage} {h : Halter} (hw : Wahr K s h) (hs : Spaeter s s') :
    Wahr K s' h := by
  obtain ⟨k, hk, hp⟩ := hw
  exact ⟨k, hk, (hs.phase _).ne_vor hp⟩

theorem Punkt.Gilt.spaeter {s s' : Ablage} {q : Punkt κ} (hg : q.Gilt K v s)
    (hs : Spaeter s s') : q.Gilt K v s' := by
  cases q with
  | acquireSql k zweck t => exact le_trans hg hs.jetzt
  | uebernehmenFrist k z =>
      obtain ⟨h, hz, hw⟩ := hg
      exact ⟨h, hz, hw.spaeter hs⟩
  | uebernehmenPruefen k h => exact Wahr.spaeter hg hs
  | uebernehmenBrechen k t =>
      obtain ⟨k', ht, hp⟩ := hg
      exact ⟨k', ht, (hs.phase _).tot hp⟩
  | _ => trivial

theorem eq_of_liesHalter {k : κ} {h h' : Halter} (hl : liesHalter K v k (v.dumps h) = some h') :
    h = h' := by
  unfold liesHalter at hl
  split at hl
  next => cases hl
  next =>
    rw [v.loads_dumps, Option.filter_eq_some_iff] at hl
    exact Option.some.inj hl.1

/-! ## One step -/

section Schritt

variable {s s' : Ablage} {q : Punkt κ} {r : Punkt κ ⊕ Bool}

/-- A step moves neither the clock nor a process. -/
theorem Befehl.spaeter (h : Befehl K konto v s q s' r) : Spaeter s s' := by
  have heq : s'.jetzt = s.jetzt ∧ s'.phase = s.phase := by
    cases h <;> exact ⟨rfl, rfl⟩
  exact ⟨heq.1.ge, fun P => heq.2 ▸ .refl _⟩

/-- The note is the old one or the contender's. -/
theorem Befehl.vermerk (h : Befehl K konto v s q s' r) :
    s'.db.engineState (halterKey konto) = s.db.engineState (halterKey konto) ∨
      ∃ frist, s'.db.engineState (halterKey konto) =
        some ⟨v.dumps (K q.kandidat).halter, frist⟩ := by
  have hne := (sperreKey_ne_halterKey konto).symm
  cases h with
  | acquireSql => exact .inl (Sqlite.acquire_of_ne hne)
  | renewSql => exact .inl (Sqlite.renew_of_ne hne)
  | release => exact .inl (Sqlite.release_of_ne hne)
  | brechen => exact .inl (Sqlite.brechen_of_ne hne)
  | vermerkSetzen => exact .inr ⟨_, Sqlite.schreibe_self _ _ _⟩
  | uebernehmenBrechen => exact .inl (Sqlite.brechen_of_ne hne)
  | _ => exact .inl rfl

/-- A step of a running process keeps the note true. -/
theorem stand_befehl (hs : Stand K konto v s) (hp : s.phase (K q.kandidat).prozess = .laeuft)
    (h : Befehl K konto v s q s' r) : Stand K konto v s' := by
  intro z hz
  rcases h.vermerk with heq | ⟨frist, heq⟩
  · rw [heq] at hz
    obtain ⟨h', hz, hw⟩ := hs z hz
    exact ⟨h', hz, hw.spaeter h.spaeter⟩
  · obtain rfl : ⟨v.dumps (K q.kandidat).halter, frist⟩ = z := by simpa [heq] using hz
    refine ⟨_, rfl, q.kandidat, rfl, (h.spaeter.phase _).ne_vor ?_⟩
    simp [hp]

theorem Befehl.nachher {q' : Punkt κ} (h : Befehl K konto v s q s' (.inl q'))
    (hs : Stand K konto v s) (hg : q.Gilt K v s) : q'.Gilt K v s' := by
  generalize hr : (Sum.inl q' : Punkt κ ⊕ Bool) = r at h
  cases h with
  | acquire =>
      obtain rfl := Sum.inl.inj hr
      exact le_rfl
  | erwerben =>
      obtain rfl := Sum.inl.inj hr
      exact le_rfl
  | acquireUhr =>
      obtain rfl := Sum.inl.inj hr
      exact le_rfl
  | @acquireSql k zweck t =>
      cases zweck <;> cases hb : (s.db.acquire (sperreKey konto) (K k).token (K k).fristS t).2 <;>
        rw [hb] at hr <;> cases hr <;> trivial
  | renew =>
      obtain rfl := Sum.inl.inj hr
      trivial
  | erneuern =>
      obtain rfl := Sum.inl.inj hr
      trivial
  | @renewSql k e t =>
      unfold nachRenew at hr
      split at hr
      next =>
        obtain rfl := Sum.inl.inj hr
        trivial
      next => cases hr
  | held =>
      obtain rfl := Sum.inl.inj hr
      trivial
  | vermerkUhr =>
      obtain rfl := Sum.inl.inj hr
      trivial
  | uebernehmenLesen hz =>
      obtain rfl := Sum.inl.inj hr
      exact hs _ hz
  | @uebernehmenFrist k z =>
      obtain ⟨h, hz, hw⟩ := hg
      unfold nachFrist at hr
      split at hr
      next => cases hr
      next =>
        split at hr
        next => cases hr
        next h' hh' =>
          obtain rfl := Sum.inl.inj hr
          rw [hz] at hh'
          exact eq_of_liesHalter hh' ▸ hw
  | @uebernehmenPruefen k h lebt hn =>
      obtain ⟨k', hk', hp⟩ := hg
      cases lebt with
      | true => cases hr
      | false =>
          obtain rfl := Sum.inl.inj hr
          refine ⟨k', by rw [hk']; rfl, Phase.eq_tot hp ?_⟩
          exact hn rfl _ (by rw [hk']; rfl) (by rw [hk']; rfl)
  | @uebernehmenBrechen k t =>
      unfold nachBrechen at hr
      split at hr
      next =>
        obtain rfl := Sum.inl.inj hr
        trivial
      next => cases hr
  | _ => cases hr

/-- The row of another contender with time left stays unless a break names its
token. -/
theorem Befehl.bleibt (h : Befehl K konto v s q s' r) (hg : q.Gilt K v s) {k : κ} {z : Zeile}
    (hz : s.db.engineState (sperreKey konto) = some z) (hv : z.value = (K k).token)
    (hb : z.Befristet s.jetzt) (hK : Function.Injective fun k => (K k).token)
    (hk : q.kandidat ≠ k) (hq : ¬q.Bricht (K k).token) :
    s'.db.engineState (sperreKey konto) = some z := by
  have hfremd : ∀ k', k' ≠ k → z.value ≠ (K k').token := by
    rintro k' hk' heq
    exact hk' (hK (heq.symm.trans hv))
  cases h with
  | acquireSql =>
      rw [← hz]
      exact congrArg (·.engineState (sperreKey konto)) (Sqlite.acquire_of_befristet hz hb hg)
  | renewSql =>
      rw [← hz]
      exact congrArg (·.engineState (sperreKey konto)) (Sqlite.renew_of_value_ne hz (hfremd _ hk))
  | release =>
      rw [← hz]
      exact congrArg (·.engineState (sperreKey konto)) (Sqlite.release_of_value_ne hz (hfremd _ hk))
  | brechen =>
      rw [← hz]
      exact congrArg (·.engineState (sperreKey konto))
        (Sqlite.brechen_of_value_ne hz fun h => hq (h.symm.trans hv))
  | vermerkSetzen =>
      rw [← hz]
      exact Sqlite.schreibe_of_ne _ _ _ (sperreKey_ne_halterKey konto)
  | uebernehmenBrechen =>
      rw [← hz]
      exact congrArg (·.engineState (sperreKey konto))
        (Sqlite.brechen_of_value_ne hz fun h => hq (h.symm.trans hv))
  | _ => exact hz

/-- A take-over leaves the row of a running process alone. -/
theorem Befehl.uebernahme {k : κ} {t : String}
    (h : Befehl K konto v s (.uebernehmenBrechen k t) s' r)
    (hg : (Punkt.uebernehmenBrechen k t).Gilt K v s) {k' : κ} {z : Zeile}
    (hz : s.db.engineState (sperreKey konto) = some z) (hv : z.value = (K k').token)
    (hK : Function.Injective fun k => (K k).token) (hp : s.phase (K k').prozess = .laeuft) :
    s'.db.engineState (sperreKey konto) = some z := by
  obtain ⟨k'', ht, htot⟩ := hg
  have hne : z.value ≠ t := by
    intro heq
    obtain rfl : k' = k'' := hK (hv.symm.trans (heq.trans ht))
    simp [hp] at htot
  cases h with
  | uebernehmenBrechen =>
      rw [← hz]
      exact congrArg (·.engineState (sperreKey konto)) (Sqlite.brechen_of_value_ne hz hne)

end Schritt

/-! ## All runs -/

/-- What holds in every state, whatever the contenders do. -/
theorem engineLease_outline (K : κ → Kandidat) (konto : String) (v : Vermerkschrift) :
    Outline (engineLease K konto v) (fun _ _ _ => True) (fun s _ => Stand K konto v s)
      fun s _ j => j.point.Gilt K v s where
  enter _ _ := trivial
  access := by
    intro p i c n q s q' _ hs hg _ ha
    have hsp : Spaeter p.store s := Befehl.spaeter ha.2
    exact ⟨stand_befehl hs ha.1 ha.2, Befehl.nachher ha.2 hs hg, fun i' j _ _ hj => hj.spaeter hsp⟩
  answer := by
    intro p i c n q s a _ hs hg _ ha
    have hsp : Spaeter p.store s := Befehl.spaeter ha.2
    exact ⟨stand_befehl hs ha.1 ha.2, fun i' j _ _ hj => hj.spaeter hsp⟩
  idle := by
    intro p s _ hs hi
    have hsp : Spaeter p.store s := ⟨hi.jetzt, hi.phase⟩
    refine ⟨fun z hz => ?_, fun _ j _ hj => hj.spaeter hsp⟩
    rw [hi.db] at hz
    obtain ⟨h, hz, hw⟩ := hs z hz
    exact ⟨h, hz, hw.spaeter hsp⟩

/-- What a step from a state leaves alone. -/
structure Geschuetzt (K : κ → Kandidat) (konto : String)
    (p : Pool Ablage (Ruf κ) (Punkt κ) Bool) (a : PoolAct (Ruf κ))
    (p' : Pool Ablage (Ruf κ) (Punkt κ) Bool) : Prop where
  /-- A row with time left stays, unless its contender acts or a break names its
  token. -/
  sperre : ∀ k z, p.store.db.engineState (sperreKey konto) = some z → z.value = (K k).token →
    z.Befristet p.store.jetzt → p'.store.db.engineState (sperreKey konto) = some z ∨
      ∃ i j, a = .access i ∧ p.jobs i = some j ∧
        (j.point.kandidat = k ∨ j.point.Bricht (K k).token)
  /-- A take-over leaves the row of a contender alone whose process runs. -/
  uebernahme : ∀ i c n k t, a = .access i → p.jobs i = some ⟨c, n, .uebernehmenBrechen k t⟩ →
    ∀ k' z, p.store.db.engineState (sperreKey konto) = some z → z.value = (K k').token →
      p.store.phase (K k').prozess = .laeuft →
        p'.store.db.engineState (sperreKey konto) = some z

/-- With different tokens at most one contender holds the lock, and every step
respects the rows of the others. -/
theorem sperre_sicher (hK : Function.Injective fun k => (K k).token)
    {p : Pool Ablage (Ruf κ) (Punkt κ) Bool} (h : (system K konto v).Reach p) :
    (∀ k k' t t', Haelt K konto p.store k t → Haelt K konto p.store k' t' → k = k') ∧
      ∀ a p', (system K konto v).step p a p' → Geschuetzt K konto p a p' := by
  have hr : ((system K konto v).restrict (guarded fun _ _ _ => True)).Reach p :=
    h.restrict_of_forall fun _ _ _ _ => trivial
  obtain ⟨-, hA⟩ := (engineLease K konto v).outline_sound (engineLease_outline K konto v)
    (fun s hs z hz => by simp [hs.2] at hz) hr
  refine ⟨fun k k' t t' hk hk' => hK (Sqlite.held_unique hk hk'), fun a p' hst => ⟨?_, ?_⟩⟩
  · intro k z hz hv hb
    by_cases hfremd : ∃ i j, a = .access i ∧ p.jobs i = some j ∧
        (j.point.kandidat = k ∨ j.point.Bricht (K k).token)
    · exact .inr hfremd
    · refine .inl ?_
      push Not at hfremd
      cases hst with
      | enter => exact hz
      | @access i c n q _ _ hi ha =>
          obtain ⟨hk, hq⟩ := hfremd i _ rfl hi
          exact Befehl.bleibt ha.2 (hA i _ hi) hz hv hb hK hk hq
      | @answer i c n q _ _ hi ha =>
          obtain ⟨hk, hq⟩ := hfremd i _ rfl hi
          exact Befehl.bleibt ha.2 (hA i _ hi) hz hv hb hK hk hq
      | crash => exact hz
      | idle hi => exact hi.db ▸ hz
  · rintro i c n k t rfl hi k' z hz hv hp
    cases hst with
    | access hi' ha =>
        obtain ⟨rfl, rfl, rfl⟩ : _ ∧ _ ∧ _ := by simpa [hi] using hi'
        exact Befehl.uebernahme ha.2 (hA i _ hi) hz hv hK hp
    | answer hi' ha =>
        obtain ⟨rfl, rfl, rfl⟩ : _ ∧ _ ∧ _ := by simpa [hi] using hi'
        exact Befehl.uebernahme ha.2 (hA i _ hi) hz hv hK hp

/-! ## A permission that is acquired -/

section Beispiel

/-- A text, each character escaped, and a quote. -/
def zitat : List Char → List Char
  | [] => ['"']
  | c :: cs => '\\' :: c :: zitat cs

def liesZitat : List Char → Option (List Char × List Char)
  | '"' :: rest => some ([], rest)
  | '\\' :: c :: rest => (liesZitat rest).map fun x => (c :: x.1, x.2)
  | _ => none

@[simp] theorem liesZitat_zitat (cs rest : List Char) :
    liesZitat (zitat cs ++ rest) = some (cs, rest) := by
  induction cs with
  | nil => rfl
  | cons c cs ih => simp [zitat, liesZitat, ih]

/-- A note as four quoted texts, the pid in strokes. -/
def notiz : Vermerkschrift where
  dumps h := String.ofList (zitat h.host.toList ++ (zitat (List.replicate h.pid '|') ++
    (zitat h.token.toList ++ zitat h.instanz.toList)))
  loads s := do
    let (host, rest) ← liesZitat s.toList
    let (pid, rest) ← liesZitat rest
    let (token, rest) ← liesZitat rest
    let (instanz, _) ← liesZitat rest
    return ⟨String.ofList host, pid.length, String.ofList token, String.ofList instanz⟩
  loads_dumps h := by
    have hend : liesZitat (zitat h.instanz.toList) = some (h.instanz.toList, []) := by
      simpa using liesZitat_zitat h.instanz.toList []
    simp [hend]

def instanz : Bool → Kandidat
  | false => ⟨"t0", 60, ⟨"desktop", 100, 0⟩, "desktop:100"⟩
  | true => ⟨"t1", 60, ⟨"desktop", 200, 0⟩, "desktop:200"⟩

theorem instanz_token : Function.Injective fun k => (instanz k).token := by
  intro k k' h
  cases k <;> cases k' <;> simp_all [instanz]

def leer : Ablage where
  db := ⟨fun _ => none, fun _ => []⟩
  jetzt := 0
  phase _ := .laeuft

/-- The row of the first instance is written. -/
def erworben : Ablage :=
  { leer with db := (leer.db.acquire (sperreKey "global:paper") "t0" 60 0).1 }

/-- The first instance acquires the permission alone. -/
theorem sperre_sicher_erworben :
    ∃ p, (system instanz "global:paper" notiz).Reach p ∧
      Haelt instanz "global:paper" p.store false p.store.jetzt ∧
      (∀ k k' t t', Haelt instanz "global:paper" p.store k t →
        Haelt instanz "global:paper" p.store k' t' → k = k') ∧
      ∀ a p', (system instanz "global:paper" notiz).step p a p' →
        Geschuetzt instanz "global:paper" p a p' := by
  have hlaeuft : ∀ q : Punkt Bool, leer.phase (instanz q.kandidat).prozess = .laeuft :=
    fun _ => rfl
  have hsolo : (engineLease instanz "global:paper" notiz).Solo (fun _ _ => True) leer
      (.beginn false .erwerben) erworben (.inl (.vermerkUhr false)) :=
    .next trivial ⟨hlaeuft _, .erwerben⟩ (.next trivial ⟨hlaeuft _, .acquireSql⟩ .stop)
  have hstart : ((system instanz "global:paper" notiz).restrict
      (guarded fun _ _ _ => True)).Reach ⟨leer, fun _ => none, []⟩ :=
    .start ⟨⟨rfl, rfl⟩, fun _ => rfl, rfl⟩
  have hcall := (call_reach (i := 0) (c := ⟨false, .erwerben⟩) hstart rfl hsolo trivial
    fun _ _ _ _ => trivial).of_restrict
  refine ⟨_, hcall, ?_, sperre_sicher instanz_token hcall⟩
  exact Sqlite.held_iff.mpr ⟨⟨"t0", some 60⟩,
    by simp [Pool.after, erworben, leer, Sqlite.acquire], rfl, 60, rfl,
    by norm_num [Pool.after, erworben, leer]⟩

end Beispiel

end Berechtigung
