import AutonomousEngine.Outbox.Nebenlauf

/-!
# The directory names every promised intent

`festschreiben` returns `True` to say that the intent is in the outbox.  A
restart finds the intent through the directory, so the promise is worth as much
as the directory line.  Entry and line are two port calls, and a second
`festschreiben` looks at the entry only.

A run is observed through three events of a key: its entry is written anew, a
`festschreiben` returns `True` for it, and a final report takes effect.
`offeneZusage` computes from the history whether a promise is open, and
`Verzeichnet` says that every open promise is among the unconfirmed entries.

It fails in one place (`festschreiben_luecke`): the process dies after writing
the entry and before appending the line, and the retry returns `True` because
the entry is there.  `Lueckenlos` is the condition on a step that rules this
out, and under it and the exclusion of sections the promise is kept
(`zusage_verzeichnet`).
-/

namespace Outbox

open Basis (LeaseProgram System)

/-! ## Promises -/

/-- What a run shows of a key. -/
inductive Ereignis where
  | geschrieben (coid : String)
  | zugesagt (coid : String)
  | erledigt (coid : String)
deriving DecidableEq, Repr

def ereignisse (c : Konf) : Aktion → List Ereignis
  | .store t =>
      match c.calls t with
      | .inside _ _ (.festSetzen e) => [.geschrieben e.clientOrderId]
      | .inside _ _ (.fortSetzen coid m _) => if m.ziel.erledigt then [.erledigt coid] else []
      | _ => []
  | .release t =>
      match c.calls t with
      | .leaving (.festschreiben e) _ (some (.erfolg true)) => [.zugesagt e.clientOrderId]
      | _ => []
  | _ => []

/-- Where a key stands: whether its entry was written and not finished since,
and whether it was promised since. -/
structure Stand where
  lebt : Bool
  zugesagt : Bool
deriving DecidableEq, Repr

def Stand.nach (coid : String) (s : Stand) : Ereignis → Stand
  | .geschrieben c => if c = coid then ⟨true, false⟩ else s
  | .zugesagt c => if c = coid then ⟨s.lebt, s.lebt⟩ else s
  | .erledigt c => if c = coid then ⟨false, false⟩ else s

def stand (coid : String) (h : List Ereignis) : Stand :=
  h.foldl (Stand.nach coid) ⟨false, false⟩

/-- A `festschreiben` has returned `True` for the key since its entry was last
written, and no final report has taken effect since. -/
def offeneZusage (coid : String) (h : List Ereignis) : Bool := (stand coid h).zugesagt

/-- Every open promise is among the unconfirmed entries. -/
def Verzeichnet (x : Konf × List Ereignis) : Prop :=
  ∀ coid, offeneZusage coid x.2 = true →
    ∃ e ∈ x.1.store.unbestaetigte none, e.clientOrderId = coid ∧ x.1.store.lese coid = some e

@[simp] theorem stand_append (coid : String) (h h' : List Ereignis) :
    stand coid (h ++ h') = h'.foldl (Stand.nach coid) (stand coid h) := by
  simp [stand, List.foldl_append]

/-! ## The condition on a step -/

/-- No `festschreiben` dies or raises between its entry and its line. -/
def Lueckenlos (c : Konf) : Aktion → Prop
  | .raise t | .crash t => ∀ k f e, c.calls t ≠ .inside k f (.festAnhaengen e)
  | _ => True

/-- The observed runs in which every step is without a gap and sections exclude
each other. -/
abbrev lueckenlos : System (Konf × List Ereignis) Aktion :=
  (outboxProgramm.exclusive (· = Ablage.leer) Lueckenlos).observe ereignisse

/-- A `festschreiben` is about to append the line of the key. -/
def Haengt (c : Konf) (coid : String) : Prop :=
  ∃ t k f e, c.calls t = .inside k f (.festAnhaengen e) ∧ e.clientOrderId = coid

/-- An entry that is not final has its line, or a section is about to write it. -/
def Zeilen (c : Konf) : Prop :=
  ∀ coid e, c.store.lese coid = some e → e.zustand.erledigt = false →
    coid ∈ c.store.read ∨ Haengt c coid

/-- The history against the store. -/
structure Chronik (x : Konf × List Ereignis) : Prop where
  lebt : ∀ coid, (stand coid x.2).lebt = true →
    ∃ e, x.1.store.lese coid = some e ∧ e.zustand.erledigt = false
  zugesagt : ∀ coid, (stand coid x.2).zugesagt = true →
    (stand coid x.2).lebt = true ∧ coid ∈ x.1.store.read

/-! ## One step -/

theorem haengt_schritt {c c' : Konf} {a : Aktion} (h : outboxProgramm.act c a = some c')
    (hG : Lueckenlos c a) {coid : String} (hh : Haengt c coid) :
    Haengt c' coid ∨ coid ∈ c'.store.read := by
  obtain ⟨t, k, f, e, hin, hk⟩ := hh
  have hstep := LeaseProgram.Step.of_act _ h
  by_cases hact : a.actor = some t
  · cases hstep with
    | time d => cases hact
    | begin hc | wait hc | giveUp hc | acquire hc | release hc =>
        cases hact
        rw [hin] at hc
        cases hc
    | raise hc => cases hact; exact absurd hin (hG k f e)
    | crash k' _ => cases hact; exact absurd hin (hG k f e)
    | store hc hn =>
        cases hact
        rw [hin] at hc
        cases hc
        cases hn
    | finish hc hn =>
        cases hact
        rw [hin] at hc
        cases hc
        cases hn
        exact .inr (by simp [hk])
  · exact .inl ⟨t, k, f, e, (hstep.calls_of_ne _ hact).trans hin, hk⟩

theorem weiter_read {a : Ablage} {p : Stelle} (hp : p.weiss a) {coid : String}
    {e : OutboxEintrag} (he : a.lese coid = some e) (hz : e.zustand.erledigt = false)
    (hmem : coid ∈ a.read) : coid ∈ (weiter a p).1.read := by
  cases p with
  | festSetzen | fortSetzen | raumVerzeichnis | raumLoeschen => exact hmem
  | festAnhaengen d => exact List.mem_append_left _ hmem
  | festLesen | fortLesen | raumLesen => simpa using hmem
  | raumPop c rest n =>
      obtain ⟨⟨mehr, hmehr⟩, hc⟩ := hp
      rw [← hmehr] at hmem
      simp only [weiter, Ablage.read_pop, ← hmehr]
      exact (List.mem_cons.mp hmem).resolve_left (hc.ne he hz)

theorem weiter_herkunft {a : Ablage} {p : Stelle} (hp : p.weiss a) {coid : String}
    {e : OutboxEintrag} (he : (weiter a p).1.lese coid = some e)
    (hz : e.zustand.erledigt = false) :
    (∃ e₀, a.lese coid = some e₀ ∧ e₀.zustand.erledigt = false) ∨
      ∃ e₀, p = .festSetzen e₀ ∧ e₀.clientOrderId = coid := by
  cases p with
  | festLesen | fortLesen | raumLesen => exact .inl ⟨e, by simpa using he, hz⟩
  | festAnhaengen | raumVerzeichnis | raumPop => exact .inl ⟨e, he, hz⟩
  | festSetzen d =>
      by_cases hc : coid = d.clientOrderId
      · exact .inr ⟨d, rfl, hc.symm⟩
      · exact .inl ⟨e, by simpa only [weiter, Ablage.lese_set_of_ne _ _ _ hc] using he, hz⟩
  | fortSetzen c m d =>
      by_cases hc : coid = c
      · subst hc
        refine .inl ⟨d, hp.1, ?_⟩
        by_contra hd
        rw [Bool.not_eq_false] at hd
        exact absurd hp.2 (Nat.not_lt.mpr (Zustand.rang_le_of_erledigt hd m))
      · exact .inl ⟨e, by simpa only [weiter, Ablage.lese_set_of_ne _ _ _ hc] using he, hz⟩
  | raumLoeschen c rest n =>
      by_cases hc : coid = c
      · subst hc; simp [weiter] at he
      · exact .inl ⟨e, by simpa only [weiter, Ablage.lese_delete_of_ne _ _ hc] using he, hz⟩

theorem zeilen_schritt {c c' : Konf} {a : Aktion}
    (hc : (outboxProgramm.exclusive (· = Ablage.leer) Lueckenlos).Reach c)
    (h : outboxProgramm.act c a = some c') (hG : Lueckenlos c a) (hz : Zeilen c) :
    Zeilen c' := by
  intro coid e he hez
  have hhaengt : Haengt c coid → coid ∈ c'.store.read ∨ Haengt c' coid :=
    fun hh => (haengt_schritt h hG hh).symm
  rcases schritt_wirkung hc h with hs | ⟨t, f, p, rfl, hin, hw, hs⟩
  · rw [hs] at he
    rcases hz coid e he hez with hmem | hh
    · exact .inl (hs ▸ hmem)
    · exact hhaengt hh
  · rw [hs] at he
    rcases weiter_herkunft hw he hez with ⟨e₀, he₀, hez₀⟩ | ⟨e₀, rfl, hk⟩
    · rcases hz coid e₀ he₀ hez₀ with hmem | hh
      · exact .inl (hs ▸ weiter_read hw he₀ hez₀ hmem)
      · exact hhaengt hh
    · refine .inr ⟨t, .festschreiben e₀, f, e₀, ?_, hk⟩
      cases LeaseProgram.Step.of_act _ h with
      | store hc' hn =>
          rw [hin] at hc'
          cases hc'
          cases hn
          simp [Stelle.auftrag]
      | finish hc' hn =>
          rw [hin] at hc'
          cases hc'
          cases hn

/-- An entry that is not final stays so, unless a final report is written over
it. -/
theorem weiter_lebt {a : Ablage} (ha : a.Ordentlich) {p : Stelle} (hp : p.weiss a)
    {coid : String} {e : OutboxEintrag} (he : a.lese coid = some e)
    (hz : e.zustand.erledigt = false) :
    (∃ e', (weiter a p).1.lese coid = some e' ∧ e'.zustand.erledigt = false) ∨
      ∃ m d, p = .fortSetzen coid m d ∧ m.ziel.erledigt = true := by
  have hnot : ¬ a.Erledigt coid := fun h => h.ne he hz rfl
  by_cases hn : coid = p.sperrname
  · cases p with
    | fortSetzen c m d =>
        have hcc : coid = c := hn
        subst hcc
        by_cases hm : m.ziel.erledigt = true
        · exact .inr ⟨m, d, rfl, hm⟩
        · exact .inl ⟨m.auf d, by simp [weiter], by simpa using hm⟩
    | festSetzen d =>
        have hcd : coid = d.clientOrderId := hn
        exact .inl ⟨offenerEintrag d, by simp [weiter, hcd], rfl⟩
    | raumLoeschen c rest n =>
        have hne : coid ≠ c := hp.2.2.ne he hz
        exact .inl ⟨e, by simpa only [weiter, Ablage.lese_delete_of_ne _ _ hne] using he, hz⟩
    | festAnhaengen | raumVerzeichnis | raumPop => exact .inl ⟨e, he, hz⟩
    | festLesen | raumLesen | fortLesen => exact .inl ⟨e, by simpa using he, hz⟩
  · exact .inl ⟨e, ((weiter_wirkung ha hp).lese_eq hn hnot).trans he, hz⟩

theorem stand_store {c : Konf} {t f : Nat} {p : Stelle}
    (hin : c.calls t = .inside p.auftrag f p) (coid : String) (h : List Ereignis) :
    (stand coid (h ++ ereignisse c (.store t)) = ⟨true, false⟩ ∧
      ∃ e, p = .festSetzen e ∧ e.clientOrderId = coid) ∨
    stand coid (h ++ ereignisse c (.store t)) = ⟨false, false⟩ ∨
    (stand coid (h ++ ereignisse c (.store t)) = stand coid h ∧
      ¬ ∃ m d, p = .fortSetzen coid m d ∧ m.ziel.erledigt = true) := by
  rw [stand_append]
  cases p with
  | festSetzen e =>
      simp only [ereignisse, hin, List.foldl_cons, List.foldl_nil, Stand.nach]
      by_cases he : e.clientOrderId = coid
      · exact .inl ⟨by rw [if_pos he], e, rfl, he⟩
      · exact .inr (.inr ⟨by rw [if_neg he], by rintro ⟨m, d, h, _⟩; cases h⟩)
  | fortSetzen d m e =>
      simp only [ereignisse, hin]
      by_cases hm : m.ziel.erledigt = true
      · simp only [hm, if_true, List.foldl_cons, List.foldl_nil, Stand.nach]
        by_cases hd : d = coid
        · exact .inr (.inl (by rw [if_pos hd]))
        · refine .inr (.inr ⟨by rw [if_neg hd], ?_⟩)
          rintro ⟨m', e', h, _⟩
          cases h
          exact hd rfl
      · refine .inr (.inr ⟨by simp [hm], ?_⟩)
        rintro ⟨m', e', h, hm'⟩
        cases h
        exact hm hm'
  | festLesen | festAnhaengen | fortLesen | raumVerzeichnis | raumLesen | raumPop
  | raumLoeschen =>
      simp only [ereignisse, hin, List.foldl_nil]
      exact .inr (.inr ⟨trivial, by rintro ⟨m, d, h, _⟩; cases h⟩)

/-- A step that shows nothing and leaves the store alone keeps the history true. -/
theorem Chronik.still {c c' : Konf} {h : List Ereignis} (hch : Chronik (c, h))
    (hs : c'.store = c.store) : Chronik (c', h) := by
  refine ⟨fun coid hl => ?_, fun coid hz => ?_⟩
  · show ∃ e, c'.store.lese coid = some e ∧ e.zustand.erledigt = false
    rw [hs]
    exact hch.lebt coid hl
  · show (stand coid h).lebt = true ∧ coid ∈ c'.store.read
    rw [hs]
    exact hch.zugesagt coid hz

theorem Chronik.store {c c' : Konf} {h : List Ereignis} (hch : Chronik (c, h))
    (ha : c.store.Ordentlich) {t f : Nat} {p : Stelle}
    (hin : c.calls t = .inside p.auftrag f p) (hw : p.weiss c.store)
    (hs : c'.store = (weiter c.store p).1) : Chronik (c', h ++ ereignisse c (.store t)) := by
  refine ⟨fun coid hl => ?_, fun coid hz => ?_⟩
  · show ∃ e, c'.store.lese coid = some e ∧ e.zustand.erledigt = false
    rcases stand_store hin coid h with ⟨_, e, rfl, he⟩ | hst | ⟨hst, hnot⟩
    · exact ⟨offenerEintrag e, by simp [hs, weiter, ← he], rfl⟩
    · rw [hst] at hl; cases hl
    · rw [hst] at hl
      obtain ⟨e, he, hez⟩ := hch.lebt coid hl
      rw [hs]
      exact (weiter_lebt ha hw he hez).resolve_right hnot
  · rcases stand_store hin coid h with ⟨hst, _⟩ | hst | ⟨hst, hnot⟩
    · rw [hst] at hz; cases hz
    · rw [hst] at hz; cases hz
    · rw [hst] at hz ⊢
      obtain ⟨hl, hmem⟩ := hch.zugesagt coid hz
      obtain ⟨e, he, hez⟩ := hch.lebt coid hl
      refine ⟨hl, ?_⟩
      show coid ∈ c'.store.read
      rw [hs]
      exact weiter_read hw he hez hmem

/-- Returning `True` for a key whose entry is unfinished promises a key that has
its line: no other section is open under the same lock. -/
theorem Chronik.release {c c' : Konf} {h : List Ereignis} (hch : Chronik (c, h))
    (ha : outboxProgramm.Alone c) (hz : Zeilen c) {t : Nat} {k : Auftrag} {f : Nat}
    {r : Option Ergebnis} (hin : c.calls t = .leaving k f r) (hs : c'.store = c.store)
    (hA : ∀ u k f p, c.calls u = .inside k f p → p.auftrag = k) :
    Chronik (c', h ++ ereignisse c (.release t)) := by
  by_cases hev : ereignisse c (.release t) = []
  · rw [hev, List.append_nil]
    exact hch.still hs
  · obtain ⟨e, rfl, hshow⟩ : ∃ e, k = .festschreiben e ∧
        ereignisse c (.release t) = [.zugesagt e.clientOrderId] := by
      simp only [ereignisse, hin] at hev ⊢
      split at hev
      next e _ hx => cases hx; exact ⟨e, rfl, rfl⟩
      next => exact absurd rfl hev
    have hzeile : ∀ coid, coid = e.clientOrderId → (stand coid h).lebt = true →
        coid ∈ c.store.read := by
      intro coid hk hl
      obtain ⟨d, hd, hdz⟩ := hch.lebt coid hl
      rcases hz coid d hd hdz with hmem | ⟨u, k', f', d', hu, hd'⟩
      · exact hmem
      · have hut : u = t := by
          refine ha u t coid ?_ ?_
          · rw [hu, ← hA u k' f' _ hu]
            exact congrArg some hd'
          · rw [hin, hk]; rfl
        rw [hut, hin] at hu
        cases hu
    rw [hshow]
    refine ⟨fun coid hl => ?_, fun coid hzu => ?_⟩
    · show ∃ e, c'.store.lese coid = some e ∧ e.zustand.erledigt = false
      rw [hs]
      refine hch.lebt coid ?_
      simp only [stand_append, List.foldl_cons, List.foldl_nil, Stand.nach] at hl
      split at hl <;> exact hl
    · simp only [stand_append, List.foldl_cons, List.foldl_nil, Stand.nach] at hzu ⊢
      show _ ∧ coid ∈ c'.store.read
      rw [hs]
      by_cases hk : e.clientOrderId = coid
      · rw [if_pos hk] at hzu ⊢
        exact ⟨hzu, hzeile coid hk.symm hzu⟩
      · rw [if_neg hk] at hzu ⊢
        exact hch.zugesagt coid hzu

/-! ## Runs -/

/-- Lines and history are right in every state of a run without a gap. -/
theorem lueckenlos_chronik {x : Konf × List Ereignis} (hx : lueckenlos.Reach x) :
    Zeilen x.1 ∧ Chronik x := by
  refine hx.invariant_with (I := fun x => Zeilen x.1 ∧ Chronik x)
    (fun _ h => h.of_observe) ?_ ?_
  · rintro ⟨c, h⟩ ⟨⟨_, rfl, rfl⟩, rfl⟩
    exact ⟨fun _ _ he => (nomatch he), fun _ hl => (nomatch hl), fun _ hz => (nomatch hz)⟩
  · rintro ⟨c, h⟩ a ⟨c', h'⟩ hr ⟨hz, hch⟩ ⟨⟨hact, hex, hG⟩, rfl⟩
    refine ⟨zeilen_schritt hr hact hG hz, ?_⟩
    have hA := gliederung_gilt hr
    have hstep := LeaseProgram.Step.of_act _ hact
    rcases schritt_wirkung hr hact with hs | ⟨t, f, p, rfl, hin, hw, hs⟩
    · cases hstep with
      | @release t k f r hin =>
          exact hch.release (outboxProgramm.exclusive_alone hr) hz hin hs
            fun u k f p hu => (hA.2 u k f p hu).1
      | @store t k f p s' p' hin hn | @finish t k f p s' r hin hn =>
          obtain ⟨rfl, hw⟩ := hA.2 t k f p hin
          exact hch.store hA.1 hin hw (congrArg Prod.fst hn).symm
      | time | begin | wait | giveUp | acquire | raise | crash =>
          simpa [ereignisse] using hch.still hs
    · exact hch.store hA.1 hin hw hs

/-- In every run in which no `festschreiben` dies or raises between its entry and
its line, and no section is entered while another call is inside it, every open
promise is among the unconfirmed entries. -/
theorem zusage_verzeichnet {x : Konf × List Ereignis} (hx : lueckenlos.Reach x) :
    Verzeichnet x := by
  intro coid hz
  obtain ⟨_, hch⟩ := lueckenlos_chronik hx
  obtain ⟨hl, hmem⟩ := hch.zugesagt coid hz
  obtain ⟨e, he, hez⟩ := hch.lebt coid hl
  have ha := (gliederung_gilt hx.of_observe).1
  exact ⟨e, (Ablage.mem_unbestaetigte _).mpr ⟨coid, hmem, he, hez⟩, ha.schluessel he, he⟩

/-- A client records an intent, and a second call tries it again: the retry is promised as well,
and the intent is among the unconfirmed ones. -/
theorem zusage_verzeichnet_wiederholt :
    ∃ x : Konf × List Ereignis, x.2 = [.geschrieben "k", .zugesagt "k", .zugesagt "k"] ∧
      ∃ e ∈ x.1.store.unbestaetigte none, e.clientOrderId = "k" ∧
        x.1.store.lese "k" = some e := by
  have hstart : lueckenlos.Reach (Basis.Config.fresh Ablage.leer, []) :=
    .start ⟨⟨_, rfl, rfl⟩, rfl⟩
  have hfirst : (outboxProgramm.runWith ereignisse (Basis.Config.fresh Ablage.leer) []
      [.begin 0 (.festschreiben kaufIntent), .acquire 0, .store 0, .store 0, .store 0,
        .release 0]).isSome = true := by decide
  obtain ⟨x, hx⟩ := Option.isSome_iff_exists.mp hfirst
  have hrun : (outboxProgramm.runWith ereignisse x.1 x.2
      [.begin 1 (.festschreiben kaufIntent), .acquire 1, .store 1, .release 1]).any
      (fun y => y.2 = [.geschrieben "k", .zugesagt "k", .zugesagt "k"]) = true := by
    cases hx
    decide
  obtain ⟨y, hy, hz⟩ := (Option.any_eq_true _ _).mp hrun
  replace hz := of_decide_eq_true hz
  have hreach : lueckenlos.Reach x := by
    refine outboxProgramm.exclusive_of_runWith (t := 0) ?_ (fun _ _ => rfl) hstart hx
    simp [Basis.Act.actor, Lueckenlos]
  have hreach' : lueckenlos.Reach y := by
    refine outboxProgramm.exclusive_of_runWith (t := 1) ?_ (fun u hu => ?_) hreach hy
    · simp [Basis.Act.actor, Lueckenlos]
    · cases hx
      cases u <;> rfl
  exact ⟨y, hz, zusage_verzeichnet hreach' "k" (by rw [hz]; decide)⟩

/-- The promise is broken when the process dies between the entry and its line:
the retry sees the entry and returns `True`, and the intent is not among the
unconfirmed ones. -/
theorem festschreiben_luecke :
    ¬ ∀ x, ((outboxProgramm.system (· = Ablage.leer)).observe ereignisse).Reach x →
      Verzeichnet x := by
  intro hall
  have hrun : (outboxProgramm.runWith ereignisse (Basis.Config.fresh Ablage.leer) []
      [.begin 0 (.festschreiben kaufIntent), .acquire 0, .store 0, .store 0, .crash 0,
        .time 10000000, .begin 1 (.festschreiben kaufIntent), .acquire 1, .store 1,
        .release 1]).any
      (fun x => offeneZusage "k" x.2 && (x.1.store.unbestaetigte none == [])) = true := by decide
  obtain ⟨x, hx, hz⟩ := (Option.any_eq_true _ _).mp hrun
  rw [Bool.and_eq_true] at hz
  have hreach : ((outboxProgramm.system (· = Ablage.leer)).observe ereignisse).Reach x :=
    outboxProgramm.reach_of_runWith (.start ⟨⟨_, rfl, rfl⟩, rfl⟩) hx
  obtain ⟨e, he, _⟩ := hall x hreach "k" hz.1
  rw [eq_of_beq hz.2] at he
  cases he

end Outbox
