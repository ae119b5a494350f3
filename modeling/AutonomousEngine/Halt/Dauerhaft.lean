import AutonomousEngine.Halt.KillSwitch

/-!
# Whether a halt outlives the process

A trip that returns while the store accepts its writes should leave the halt
flag of its scope in the store, so that the next process is halted too.

It does so exactly when the flag is there already or the trip gets as far as
its writes.  It does not get there when a flag in memory says that the scope is
halted, and that flag says nothing about the store: an earlier trip set it
before its own write failed, or it is the flag of the system and the trip is
for one user.  For a user's trip the stored flag of the system has the same
effect.

Once it is in the store, the flag stays there until the scope is reset, over
every sequence of calls and restarts.
-/

namespace Halt

open Basis

/-- A call of the kill switch with the answers of the store to it, or a
restart. -/
inductive Aufruf where
  | trip (reason zeit : String) (userId : Option String) (a : KillSwitch.TripAntworten)
  | reset (userId : Option String) (a : KillSwitch.ResetAntworten)
  | isHalted (userId : Option String) (l : Lesung)
  | letzterTrip (l : Lesung)
  | neustart (ping lesbar : Bool)
deriving DecidableEq, Repr

namespace KillSwitch

/-! ## What the calls do to the store -/

section Ablage

variable (k : KillSwitch) (userId : Option String) (l : Lesung)

@[simp] theorem merke_ablage (u : Option String) : (k.merke u).ablage = k.ablage := by
  cases u <;> rfl

@[simp] theorem merke_redisClient (u : Option String) :
    (k.merke u).redisClient = k.redisClient := by
  cases u <;> rfl

theorem isHalted_snd_ablage :
    (k.isHalted userId l).2.ablage = k.ablage ∧
      (k.isHalted userId l).2.redisClient = k.redisClient := by
  unfold isHalted
  split
  next => exact ⟨rfl, rfl⟩
  next =>
    split
    next => exact ⟨rfl, rfl⟩
    next =>
      split
      next => exact ⟨rfl, rfl⟩
      next =>
        split
        next => exact ⟨rfl, rfl⟩
        next =>
          split
          next => exact ⟨rfl, rfl⟩
          next => split <;> exact ⟨rfl, rfl⟩

theorem isHalted_fst_iff :
    (k.isHalted userId l).1 = true ↔
      k.imSpeicher (benutzer userId) = true ∨
        k.redisClient = true ∧ l.system = true ∧
          (k.gespeichert none ∨
            benutzer userId ≠ none ∧ l.user = true ∧ k.gespeichert (benutzer userId)) := by
  unfold isHalted
  cases hm : k.imSpeicher (benutzer userId) with
  | true => simp
  | false =>
      cases k.redisClient with
      | false => simp
      | true =>
          cases l.system with
          | false => simp
          | true =>
              by_cases hg : k.gespeichert none
              · simp [hg]
              · cases benutzer userId with
                | none => simp [hg]
                | some u =>
                    by_cases hb : l.user = true ∧ k.gespeichert (some u)
                    · simp [hg, hb]
                    · simp [hg, hb]

end Ablage

section Trip

variable (json : TripJson) (k : KillSwitch) (reason zeit : String) (userId : Option String)
  (a : TripAntworten)

/-- The store after a trip: as before when the scope counts as halted or there
is no store, and else the one after both writes. -/
theorem trip_ablage :
    (k.trip json reason zeit userId a).ablage =
      if (k.isHalted userId a.lesung).1 = true ∨ k.redisClient = false then k.ablage
      else
        (k.ablage.set (tripSchluessel (benutzer userId))
          (json.dumps (tripSatz reason zeit userId)) a.satz).set
          (haltSchluessel (benutzer userId)) "true" a.halt := by
  obtain ⟨hs, hc⟩ := isHalted_snd_ablage k userId a.lesung
  unfold trip
  rcases hh : k.isHalted userId a.lesung with ⟨halted, k'⟩
  rw [hh] at hs hc
  cases halted with
  | true => simpa using hs
  | false =>
      cases hr : k.redisClient with
      | false => simp_all
      | true => simp_all

theorem gespeichert_trip {v : Option String} (h : k.gespeichert v) :
    (k.trip json reason zeit userId a).gespeichert v := by
  unfold gespeichert
  rw [trip_ablage]
  split
  next => exact h
  next =>
    by_cases hv : v = benutzer userId
    · subst hv
      cases hw : a.halt.wirkt with
      | true => exact Ablage.set_self hw
      | false =>
          rw [show ∀ s : Ablage, s.set (haltSchluessel (benutzer userId)) "true" a.halt = s from
            fun s => by simp [Ablage.set, hw]]
          rw [Ablage.set_of_ne _ _ _ (haltSchluessel_ne_tripSchluessel _ _)]
          exact h
    · rw [Ablage.set_of_ne _ _ _ (by simpa using hv),
        Ablage.set_of_ne _ _ _ (haltSchluessel_ne_tripSchluessel _ _)]
      exact h

/-- When a trip gets as far as its writes, or need not. -/
def Schreibbereit (k : KillSwitch) (userId : Option String) (l : Lesung) : Prop :=
  k.gespeichert (benutzer userId) ∨
    k.redisClient = true ∧ k.imSpeicher (benutzer userId) = false ∧
      ¬(benutzer userId ≠ none ∧ l.system = true ∧ k.gespeichert none)

/-- A trip whose writes the store accepts leaves its flag there exactly when it
is `Schreibbereit`. -/
theorem trip_gespeichert_iff (h : a.nimmtAn = true) :
    (k.trip json reason zeit userId a).gespeichert (benutzer userId) ↔
      k.Schreibbereit userId a.lesung := by
  obtain ⟨hsatz, hhalt⟩ : a.satz = .ok ∧ a.halt = .ok := by simpa [TripAntworten.nimmtAn] using h
  by_cases hg : k.gespeichert (benutzer userId)
  · exact ⟨fun _ => .inl hg, fun _ => gespeichert_trip json k reason zeit userId a hg⟩
  · unfold gespeichert
    rw [trip_ablage]
    split
    next hstop =>
      refine ⟨fun hs => absurd hs hg, fun hb => ?_⟩
      obtain ⟨hc, hm, hu⟩ := hb.resolve_left hg
      rcases hstop with hh | hr
      · rcases (isHalted_fst_iff k userId a.lesung).mp hh with hmem | ⟨-, hl, hst | ⟨-, -, hst⟩⟩
        · simp [hm] at hmem
        · refine absurd ⟨fun hnone => ?_, hl, hst⟩ hu
          exact hg (hnone ▸ hst)
        · exact absurd hst hg
      · simp [hc] at hr
    next hgo =>
      obtain ⟨hh, hr⟩ := not_or.mp hgo
      have hc : k.redisClient = true := by simpa using hr
      refine ⟨fun _ => .inr ⟨hc, ?_, ?_⟩, fun _ => ?_⟩
      · cases hm : k.imSpeicher (benutzer userId) with
        | false => rfl
        | true => exact absurd ((isHalted_fst_iff k userId a.lesung).mpr (.inl hm)) hh
      · rintro ⟨-, hl, hst⟩
        exact hh ((isHalted_fst_iff k userId a.lesung).mpr (.inr ⟨hc, hl, .inl hst⟩))
      · exact Ablage.set_self (by rw [hhalt]; rfl)

end Trip

theorem gespeichert_reset (k : KillSwitch) (userId : Option String) (a : ResetAntworten)
    {v : Option String} (hv : v ≠ benutzer userId) (h : k.gespeichert v) :
    (k.reset userId a).gespeichert v := by
  have hne : haltSchluessel v ≠ haltSchluessel (benutzer userId) := by simpa using hv
  have hhalt (x : Ausgang) : k.ablage.delete (haltSchluessel (benutzer userId)) x
      (haltSchluessel v) = some "true" := by
    rw [Ablage.delete_of_ne _ _ hne]
    exact h
  have hgleich : (k.reset userId a).ablage =
      if k.redisClient = false then k.ablage
      else if a.halt = .ok then
        (k.ablage.delete (haltSchluessel (benutzer userId)) a.halt).delete
          (tripSchluessel (benutzer userId)) a.satz
      else k.ablage.delete (haltSchluessel (benutzer userId)) a.halt := by
    unfold reset
    cases benutzer userId <;> cases k.redisClient <;> rfl
  unfold gespeichert
  rw [hgleich]
  split
  next => exact h
  next =>
    split
    next =>
      rw [Ablage.delete_of_ne _ _ (haltSchluessel_ne_tripSchluessel _ _)]
      exact hhalt _
    next => exact hhalt _

@[simp] theorem neu_ablage (json : TripJson) (s : Ablage) (ping lesbar : Bool) :
    (neu json s ping lesbar).ablage = s := by
  unfold neu
  dsimp only
  split <;> rfl

@[simp] theorem neu_redisClient (json : TripJson) (s : Ablage) (ping lesbar : Bool) :
    (neu json s ping lesbar).redisClient = ping := by
  unfold neu
  dsimp only
  split <;> rfl

/-- A new process that reads the store is halted where a flag is stored. -/
theorem isHalted_neu (json : TripJson) {s : Ablage} (lesbar : Bool) {userId : Option String}
    (h : s (haltSchluessel (benutzer userId)) = some "true") :
    ((neu json s true lesbar).isHalted userId ⟨true, true⟩).1 = true := by
  rw [isHalted_fst_iff]
  have hst : (neu json s true lesbar).gespeichert (benutzer userId) := by
    simpa [gespeichert] using h
  refine .inr ⟨by simp, rfl, ?_⟩
  by_cases hu : benutzer userId = none
  · exact .inl (hu ▸ hst)
  · exact .inr ⟨hu, rfl, hst⟩

/-- A strategy does not start over a stored halt of the system. -/
theorem haltBeimStartRaeumen_neu (json : TripJson) {s : Ablage} (lesbar : Bool)
    (h : s (haltSchluessel none) = some "true") :
    (neu json s true lesbar).haltBeimStartRaeumen ⟨true, true⟩ = false := by
  rw [haltBeimStartRaeumen, isHalted_neu json lesbar h]
  rfl

@[simp] theorem letzterTrip_snd_ablage (json : TripJson) (k : KillSwitch) (l : Lesung) :
    (k.letzterTrip json l).2.ablage = k.ablage := by
  unfold letzterTrip
  split <;> rfl

/-! ## Runs -/

/-- One call.  A restart keeps the store and nothing else. -/
def schritt (json : TripJson) (k : KillSwitch) : Aufruf → KillSwitch
  | .trip reason zeit userId a => k.trip json reason zeit userId a
  | .reset userId a => k.reset userId a
  | .isHalted userId l => (k.isHalted userId l).2
  | .letzterTrip l => (k.letzterTrip json l).2
  | .neustart ping lesbar => neu json k.ablage ping lesbar

/-- The calls of the kill switch, from a new process over any store. -/
def system (json : TripJson) : System KillSwitch Aufruf where
  start k := ∃ s ping lesbar, k = neu json s ping lesbar
  step k a k' := k' = k.schritt json a

/-- A trip that the store accepts leaves its flag there. -/
def Dauerhaft (_ : KillSwitch) : Aufruf → KillSwitch → Prop
  | .trip _ _ userId a, k' => a.nimmtAn = true → k'.gespeichert (benutzer userId)
  | _, _ => True

/-- A trip that the store accepts is `Schreibbereit`. -/
def Bereit (k : KillSwitch) : Aufruf → KillSwitch → Prop
  | .trip _ _ userId a, _ => a.nimmtAn = true → k.Schreibbereit userId a.lesung
  | _, _ => True

/-- One step leaves its flag in the store exactly when it is ready to write. -/
theorem dauerhaft_iff_bereit (json : TripJson) {k k' : KillSwitch} {a : Aufruf}
    (h : (system json).step k a k') : k.Dauerhaft a k' ↔ k.Bereit a k' := by
  cases h
  cases a with
  | trip reason zeit userId a =>
      exact forall_congr' fun ha => trip_gespeichert_iff json k reason zeit userId a ha
  | reset | isHalted | letzterTrip | neustart => exact Iff.rfl

/-- What a call says about a flag. -/
inductive Zusage where
  | getrippt (u : Option String)
  | aufgehoben (u : Option String)
deriving DecidableEq, Repr

/-- A trip that the store accepts promises its flag, and a reset takes the
promise back. -/
def zusage (_ : KillSwitch) : Aufruf → List Zusage
  | .trip _ _ userId a => if a.nimmtAn then [.getrippt (benutzer userId)] else []
  | .reset userId _ => [.aufgehoben (benutzer userId)]
  | _ => []

/-- The scopes with a promise after one more event.  A reset of the system ends
all of them. -/
def offenNach (offen : List (Option String)) : Zusage → List (Option String)
  | .getrippt u => u :: offen
  | .aufgehoben none => []
  | .aufgehoben (some u) => offen.filter (· ≠ some u)

/-- The scopes that were tripped and not reset since. -/
def offen (h : List Zusage) : List (Option String) :=
  h.foldl offenNach []

theorem mem_offenNach_aufgehoben {o : List (Option String)} {u v : Option String}
    (h : v ∈ offenNach o (.aufgehoben u)) : v ∈ o ∧ v ≠ u := by
  cases u with
  | none => simp [offenNach] at h
  | some u => simpa [offenNach] using h

/-- One step keeps the promised flags in the store. -/
theorem offen_gespeichert_step (json : TripJson) {x x' : KillSwitch × List Zusage} {a : Aufruf}
    (ih : ∀ u ∈ offen x.2, x.1.gespeichert u)
    (h : (((system json).restrict Bereit).observe zusage).step x a x') :
    ∀ u ∈ offen x'.2, x'.1.gespeichert u := by
  obtain ⟨k, hist⟩ := x
  obtain ⟨k', hist'⟩ := x'
  obtain ⟨⟨hst, hb⟩, rfl⟩ := h
  have hd : k.Dauerhaft a k' := (dauerhaft_iff_bereit json hst).mpr hb
  cases hst
  intro u hu
  cases a with
  | trip reason zeit userId a =>
      have hkeep : ∀ v ∈ offen hist, (k.trip json reason zeit userId a).gespeichert v :=
        fun v hv => gespeichert_trip json k reason zeit userId a (ih v hv)
      cases ha : a.nimmtAn with
      | false => exact hkeep u (by simpa [zusage, ha] using hu)
      | true =>
          rcases (show u = benutzer userId ∨ u ∈ offen hist by
            simpa [zusage, ha, offen, offenNach] using hu) with rfl | hold
          · exact hd ha
          · exact hkeep u hold
  | reset userId a =>
      obtain ⟨hold, hne⟩ := mem_offenNach_aufgehoben
        (show u ∈ offenNach (offen hist) (.aufgehoben (benutzer userId)) by
          simpa [zusage, offen] using hu)
      exact gespeichert_reset k userId a hne (ih u hold)
  | isHalted userId l =>
      have hold : k.gespeichert u := ih u (by simpa [zusage] using hu)
      simpa [gespeichert, schritt, (isHalted_snd_ablage k userId l).1] using hold
  | letzterTrip l =>
      have hold : k.gespeichert u := ih u (by simpa [zusage] using hu)
      simpa [gespeichert, schritt] using hold
  | neustart ping lesbar =>
      have hold : k.gespeichert u := ih u (by simpa [zusage] using hu)
      simpa [gespeichert, schritt] using hold

/-- A run leaves the flag of each trip the store accepts in the store exactly
when each such trip is ready to write.  In such a run the flag of every scope
that was tripped and not reset since is in the store, and a new process that
reads the store is halted there. -/
theorem trip_dauerhaft (json : TripJson) :
    (∀ {k k' : KillSwitch} {as : List Aufruf},
      ((system json).restrict Dauerhaft).Run k as k' ↔
        ((system json).restrict Bereit).Run k as k') ∧
    ∀ x : KillSwitch × List Zusage, (((system json).restrict Bereit).observe zusage).Reach x →
      ∀ userId, benutzer userId ∈ offen x.2 →
        x.1.gespeichert (benutzer userId) ∧
          ∀ lesbar, ((neu json x.1.ablage true lesbar).isHalted userId ⟨true, true⟩).1 = true := by
  refine ⟨System.Run.restrict_congr fun _ _ _ hs => dauerhaft_iff_bereit json hs, ?_⟩
  intro x hx userId hu
  have hinv : ∀ u ∈ offen x.2, x.1.gespeichert u := by
    refine hx.invariant (fun c hc u hu => ?_) fun c a c' ih hs => offen_gespeichert_step json ih hs
    rw [hc.2] at hu
    simp [offen] at hu
  have hst : x.1.gespeichert (benutzer userId) := hinv _ hu
  exact ⟨hst, fun lesbar => isHalted_neu json lesbar hst⟩

/-- A trip of the whole system with given answers of the store to its writes. -/
def panicSell (satz halt : Ausgang) : Aufruf :=
  .trip "panic-sell" "2026-01-05T15:00:00+00:00" none ⟨⟨true, true⟩, satz, halt⟩

/-- Records that keep their reason as text and are never read back. -/
def nurGrund : TripJson := ⟨fun satz => satz.reason, fun _ => none⟩

/-- A process that starts over an empty store. -/
def frisch : KillSwitch := neu nurGrund (fun _ => none) true true

/-- A first trip is written, and the next process is halted. -/
theorem trip_dauerhaft_erster :
    ((system nurGrund).restrict Dauerhaft).Run frisch [panicSell .ok .ok]
        (frisch.schritt nurGrund (panicSell .ok .ok)) ∧
      ((neu nurGrund (frisch.schritt nurGrund (panicSell .ok .ok)).ablage true true).isHalted none
        ⟨true, true⟩).1 = true := by
  have hready : frisch.Bereit (panicSell .ok .ok)
      (frisch.schritt nurGrund (panicSell .ok .ok)) :=
    fun _ => .inr ⟨by decide, by decide, fun hu => hu.1 rfl⟩
  constructor
  · exact (trip_dauerhaft nurGrund).1.mpr (.cons ⟨rfl, hready⟩ (.nil _))
  · refine ((trip_dauerhaft nurGrund).2 (_, [.getrippt none]) ?_ none ?_).2 true
    · exact .step (c := (frisch, [])) (a := panicSell .ok .ok)
        (.start ⟨⟨fun _ => none, true, true, rfl⟩, rfl⟩) ⟨⟨rfl, hready⟩, rfl⟩
    · decide

/-- A trip whose writes failed lets the next one return without a write.  The
store accepted that second one, and the next process runs. -/
theorem trip_nicht_dauerhaft :
    ∃ k : KillSwitch, (system nurGrund).Run frisch
          [panicSell (.fehler false) (.fehler false), panicSell .ok .ok] k ∧
        ¬((system nurGrund).restrict Dauerhaft).Run frisch
          [panicSell (.fehler false) (.fehler false), panicSell .ok .ok] k ∧
        ((neu nurGrund k.ablage true true).isHalted none ⟨true, true⟩).1 = false := by
  refine ⟨_, .cons rfl (.cons rfl (.nil _)), fun h => ?_, by decide⟩
  cases h with
  | cons h h' =>
      cases h' with
      | cons h' _ =>
          obtain ⟨rfl, -⟩ := h
          obtain ⟨rfl, hd⟩ := h'
          exact absurd (hd rfl) (by decide)

end KillSwitch

end Halt
