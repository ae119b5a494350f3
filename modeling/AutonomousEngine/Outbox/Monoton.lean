import AutonomousEngine.Outbox.Nebenlauf

/-!
# Entries only move forward

The runs here are the *timely* ones: every section ends before its lease does.
Then sections of one lock exclude each other, the outline of the outbox holds,
and each port call has one of the effects of `Wirkung`.  No effect moves an
entry back, none touches a final entry, and the only one that removes a text
belongs to the clean-up and removes a final entry.

`Fortschritt` says how an entry may change between two moments.  It is
transitive, so one step's worth of it gives a whole run's worth.  A run may
also remove the entry.  Then it was final when the clean-up deleted it.
-/

namespace Outbox

open Basis (LeaseProgram System)

/-- The timely runs of the outbox from the empty store. -/
abbrev fristgerecht : System Konf Aktion := outboxProgramm.timely (· = Ablage.leer)

def Zustand.bekannt : Zustand → Bool
  | .unbekannt _ => false
  | _ => true

/-- `e'` is `e` or a later version of it, further along `offen`, `abgesendet`
and a final state. -/
structure Fortschritt (e e' : OutboxEintrag) : Prop where
  rang : e.zustand.rang ≤ e'.zustand.rang
  gleich : e'.zustand.rang = e.zustand.rang → e' = e

theorem Fortschritt.refl (e : OutboxEintrag) : Fortschritt e e := ⟨Nat.le_refl _, fun _ => rfl⟩

theorem Fortschritt.trans {e e' e'' : OutboxEintrag} (h : Fortschritt e e')
    (h' : Fortschritt e' e'') : Fortschritt e e'' := by
  refine ⟨Nat.le_trans h.rang h'.rang, fun heq => ?_⟩
  have hmid : e'.zustand.rang = e.zustand.rang :=
    Nat.le_antisymm (heq ▸ h'.rang) h.rang
  rw [h'.gleich (heq.trans hmid.symm), h.gleich hmid]

theorem Fortschritt.eq_of_erledigt {e e' : OutboxEintrag} (h : Fortschritt e e')
    (hz : e.zustand.erledigt = true) : e' = e := by
  refine h.gleich (Nat.le_antisymm ?_ h.rang)
  have htop : e.zustand.rang = 2 := by
    cases hs : e.zustand <;> simp_all [Zustand.erledigt, Zustand.rang]
  rw [htop]
  cases e'.zustand <;> simp [Zustand.rang]

theorem Wirkung.fortschritt {n : String} {a a' : Ablage} (h : Wirkung n a a') {coid : String}
    {e : OutboxEintrag} (he : a.lese coid = some e) :
    (∃ e', a'.lese coid = some e' ∧ Fortschritt e e') ∨
      (e.zustand.erledigt = true ∧ a'.get coid = none) := by
  cases h with
  | nichts | anhaengen | entnehmen => exact .inl ⟨e, he, .refl e⟩
  | neu hn hnone hz =>
      have hne : coid ≠ n := by rintro rfl; simp [Ablage.lese, hnone] at he
      exact .inl ⟨e, by rwa [Ablage.lese_set_of_ne a n _ hne], .refl e⟩
  | @fort m d hn hd hr =>
      by_cases hcn : coid = n
      · subst hcn
        obtain rfl : d = e := Option.some.inj (hd.symm.trans he)
        refine .inl ⟨m.auf d, by simp, ?_, fun heq => ?_⟩
        · simpa using Nat.le_of_lt hr
        · simp only [Meldung.auf_zustand] at heq
          omega
      · exact .inl ⟨e, by rwa [Ablage.lese_set_of_ne a n _ hcn], .refl e⟩
  | @loeschen d hn hd hz =>
      by_cases hcd : coid = d
      · subst hcd
        obtain ⟨x, hx, hxz⟩ := hz
        rw [hx] at he
        cases he
        exact .inr ⟨hxz, by simp⟩
      · exact .inl ⟨e, by rwa [Ablage.lese_delete_of_ne a d hcd], .refl e⟩

theorem weiter_loescht {a : Ablage} {p : Stelle} {coid : String} (h : a.get coid ≠ none)
    (h' : (weiter a p).1.get coid = none) : p.auftrag = .aufraeumen := by
  cases p with
  | raumVerzeichnis | raumLesen | raumPop | raumLoeschen => rfl
  | festLesen e => exact absurd (by simpa using h') h
  | fortLesen c m => exact absurd (by simpa using h') h
  | festAnhaengen e => exact absurd h' h
  | festSetzen e =>
      simp only [weiter] at h'
      by_cases hc : coid = e.clientOrderId
      · simp [hc] at h'
      · rw [Ablage.get_set_of_ne _ _ _ hc] at h'; exact absurd h' h
  | fortSetzen c m e =>
      simp only [weiter] at h'
      by_cases hc : coid = c
      · simp [hc] at h'
      · rw [Ablage.get_set_of_ne _ _ _ hc] at h'; exact absurd h' h

/-- An effect writes only states the outbox knows. -/
theorem Wirkung.bekannt {n : String} {a a' : Ablage} (h : Wirkung n a a')
    (ha : ∀ coid e, a.lese coid = some e → e.zustand.bekannt = true) {coid : String}
    {e : OutboxEintrag} (he : a'.lese coid = some e) : e.zustand.bekannt = true := by
  cases h with
  | nichts | anhaengen | entnehmen => exact ha coid e he
  | @neu d hn hnone hz =>
      by_cases hcn : coid = n
      · subst hcn
        simp only [Ablage.lese_set_self, Option.some.injEq] at he
        subst he
        rw [hz]; rfl
      · rw [Ablage.lese_set_of_ne a n _ hcn] at he
        exact ha coid e he
  | @fort m d hn hd hr =>
      by_cases hcn : coid = n
      · subst hcn
        simp only [Ablage.lese_set_self, Option.some.injEq] at he
        subst he
        cases m <;> rfl
      · rw [Ablage.lese_set_of_ne a n _ hcn] at he
        exact ha coid e he
  | @loeschen d hn hd hz =>
      by_cases hcd : coid = d
      · subst hcd; simp at he
      · rw [Ablage.lese_delete_of_ne a d hcd] at he
        exact ha coid e he

/-! ## Runs -/

/-- A timely run meets the exclusion condition at every step. -/
theorem fristgerecht_exklusiv {c : Konf} (hc : fristgerecht.Reach c) :
    (outboxProgramm.exclusive (· = Ablage.leer) fun _ _ => True).Reach c :=
  outboxProgramm.timely_exclusive hc

theorem schritt_fortschritt {c c' : Konf} {a : Aktion} (hc : fristgerecht.Reach c)
    (h : fristgerecht.step c a c') {coid : String} {e : OutboxEintrag}
    (he : c.store.lese coid = some e) :
    (∃ e', c'.store.lese coid = some e' ∧ Fortschritt e e') ∨
      ∃ t f p, a = .store t ∧ c.calls t = .inside .aufraeumen f p ∧
        e.zustand.erledigt = true ∧ c'.store.get coid = none := by
  have hx := fristgerecht_exklusiv hc
  rcases schritt_wirkung hx h.1 with hs | ⟨t, f, p, rfl, hin, hw, hs⟩
  · exact .inl ⟨e, hs ▸ he, .refl e⟩
  · rcases (weiter_wirkung (gliederung_gilt hx).1 hw).fortschritt he with ⟨e', he', hf⟩ | ⟨hz, hg⟩
    · exact .inl ⟨e', hs ▸ he', hf⟩
    · have hk : p.auftrag = .aufraeumen := by
        refine weiter_loescht (fun hnone => ?_) hg
        simp [Ablage.lese, hnone] at he
      exact .inr ⟨t, f, p, rfl, hk ▸ hin, hz, hs ▸ hg⟩

/-- The run deletes the key, and the clean-up does it to a final entry that is
`e` or a later version of it. -/
def Geraeumt (c : Konf) (as : List Aktion) (coid : String) (e : OutboxEintrag) : Prop :=
  ∃ as₁ t as₂ d d' f p e₁, as = as₁ ++ .store t :: as₂ ∧ fristgerecht.Run c as₁ d ∧
    fristgerecht.step d (.store t) d' ∧ d.calls t = .inside .aufraeumen f p ∧
    d.store.lese coid = some e₁ ∧ Fortschritt e e₁ ∧ e₁.zustand.erledigt = true ∧
    d'.store.get coid = none

/-- What a run does to one entry, by induction on the run. -/
theorem lauf_fortschritt {c c' : Konf} {as : List Aktion} (h : fristgerecht.Run c as c')
    (hc : fristgerecht.Reach c) {coid : String} {e : OutboxEintrag}
    (he : c.store.lese coid = some e) :
    (∃ e', c'.store.lese coid = some e' ∧ Fortschritt e e') ∨ Geraeumt c as coid e := by
  induction h generalizing e with
  | nil c => exact .inl ⟨e, he, .refl e⟩
  | @cons c a c₁ as c₂ hst _ ih =>
      rcases schritt_fortschritt hc hst he with ⟨e', he', hf⟩ | ⟨t, f, p, rfl, hin, hz, hg⟩
      · rcases ih (.step hc hst) he' with ⟨e'', he'', hf'⟩ | hraum
        · exact .inl ⟨e'', he'', hf.trans hf'⟩
        · obtain ⟨as₁, t, as₂, d, d', f, p, e₁, rfl, hrun, hstep, hin, hd, hf', hz, hg⟩ := hraum
          exact .inr ⟨a :: as₁, t, as₂, d, d', f, p, e₁, rfl, .cons hst hrun, hstep, hin, hd,
            hf.trans hf', hz, hg⟩
      · exact .inr ⟨[], t, as, c, c₁, f, p, e, rfl, .nil c, hst, hin, he, .refl e, hz, hg⟩

/-- Every entry of a reached configuration is in a state the outbox knows. -/
theorem bekannt_of_reach {c : Konf} (hc : fristgerecht.Reach c) {coid : String}
    {e : OutboxEintrag} (he : c.store.lese coid = some e) : e.zustand.bekannt = true := by
  refine hc.invariant_with (I := fun c => ∀ coid e, c.store.lese coid = some e →
    e.zustand.bekannt = true) (fun _ h => h) ?_ ?_ coid e he
  · rintro c ⟨_, rfl, rfl⟩ coid e he
    cases he
  · intro c a c' hr hI hst coid e he
    have hx := fristgerecht_exklusiv hr
    rcases schritt_wirkung hx hst.1 with hs | ⟨t, f, p, rfl, hin, hw, hs⟩
    · rw [hs] at he
      exact hI coid e he
    · rw [hs] at he
      exact (weiter_wirkung (gliederung_gilt hx).1 hw).bekannt hI he

/-- In every timely run of any number of callers, an entry is in one of the four
states, later versions are further along, a final entry stays what it is, and
it leaves the store only when the clean-up deletes it in a final state. -/
theorem outbox_monoton {c c' : Konf} {as : List Aktion} (hc : fristgerecht.Reach c)
    (h : fristgerecht.Run c as c') {coid : String} {e : OutboxEintrag}
    (he : c.store.lese coid = some e) :
    e.zustand.bekannt = true ∧
      ((∃ e', c'.store.lese coid = some e' ∧ Fortschritt e e' ∧
        (e.zustand.erledigt = true → e' = e)) ∨ Geraeumt c as coid e) := by
  refine ⟨bekannt_of_reach hc he, ?_⟩
  rcases lauf_fortschritt h hc he with ⟨e', he', hf⟩ | hraum
  · exact .inl ⟨e', he', hf, hf.eq_of_erledigt⟩
  · exact .inr hraum

/-- After one client has recorded an intent, every timely run keeps it or cleans
it up. -/
theorem outbox_monoton_kaufIntent :
    ∃ c : Konf, c.store.lese "k" = some kaufIntent ∧
      ∀ as c', fristgerecht.Run c as c' → kaufIntent.zustand.bekannt = true ∧
        ((∃ e', c'.store.lese "k" = some e' ∧ Fortschritt kaufIntent e' ∧
          (kaufIntent.zustand.erledigt = true → e' = kaufIntent)) ∨
            Geraeumt c as "k" kaufIntent) := by
  have hstart : fristgerecht.Reach (Basis.Config.fresh Ablage.leer) := .start ⟨_, rfl, rfl⟩
  have hrun : (outboxProgramm.run (Basis.Config.fresh Ablage.leer)
      [.begin 0 (.festschreiben kaufIntent), .acquire 0, .store 0, .store 0, .store 0,
        .release 0]).any (fun c => c.store.lese "k" == some kaufIntent) = true := by decide
  obtain ⟨c, hc, hk⟩ := (Option.any_eq_true _ _).mp hrun
  have hreach : fristgerecht.Reach c :=
    outboxProgramm.timely_of_run (by decide) (by decide) hstart hc
  have he : c.store.lese "k" = some kaufIntent := eq_of_beq hk
  exact ⟨c, he, fun as c' h => outbox_monoton hreach h he⟩

end Outbox
