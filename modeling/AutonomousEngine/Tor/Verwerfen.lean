import AutonomousEngine.Tor.Absenden

/-!
# When a discarded intent has no order

An entry in the state `verworfen` tells a restart that there is no order to look
for.  The state belongs to the key and is final.  The denial that writes it
belongs to one attempt.  So two histories of one key end with a discarded entry
and an order at the broker: an order whose answer was lost and a later attempt
that is denied, or a denied attempt and a later one that is accepted.

`VerworfenOhneOrder` is the promise.  `Bedingung` is a condition on what the
attempts have met so far: no attempt is denied once an order of its key was
accepted and not confirmed, and the broker accepts none once a denial of its
key was written.  That nothing but a denial discards, and that the entry is what
the history made of it (`EintragStimmt`), is derived from the attempts' steps.

The condition is exact: a step from a situation that keeps the promise leads to
one that keeps it if and only if it meets the condition.
-/

namespace Tor

open Outbox (Ablage OutboxEintrag Meldung)
open Basis (System)
open Basis.System (Once once_concat not_once_nil)

variable (auftraege : Nat → Absendung)

/-- A discarded entry has no order at any broker under its key. -/
def VerworfenOhneOrder (x : Lage) : Prop :=
  ∀ coid e, x.ablage.lese coid = some e → e.zustand = .verworfen →
    ∀ konto, x.broker konto coid = none

/-- What keeps the promise in a situation: a denial that discards finds no order under
the key, and the broker accepts no order whose entry is discarded. -/
def Unschaedlich (x : Lage) : Aktion → Prop
  | .verwerfen i true =>
      ∀ e, x.ablage.lese (auftraege i).coid = some e → e.zustand.erledigt = false →
        ∀ konto, x.broker konto (auftraege i).coid = none
  | .tor i (.angenommen _ _) =>
      ∀ e, x.ablage.lese (auftraege i).coid = some e → e.zustand ≠ .verworfen
  | _ => True

/-! ## What the attempts have met -/

def Festgeschrieben (coid : String) : List Aktion → Prop :=
  Once fun _ a =>
    match a with
    | .festschreiben j g => g ≠ .nichts ∧ (auftraege j).coid = coid
    | _ => False

def Abgelehnt (i : Nat) : List Aktion → Prop :=
  Once fun _ a =>
    match a with
    | .tor j (.abgelehnt _) => j = i
    | _ => False

/-- A broker accepted an order under a key. -/
def Angenommen (coid : String) : List Aktion → Prop :=
  Once fun _ a =>
    match a with
    | .tor j (.angenommen _ _) => (auftraege j).coid = coid
    | _ => False

/-- An order under a key was confirmed in the recorded entry. -/
def Bestaetigt (coid : String) : List Aktion → Prop :=
  Once fun vor a =>
    match a with
    | .bestaetigen j true => (auftraege j).coid = coid ∧ Festgeschrieben auftraege coid vor
    | _ => False

/-- The denial of an attempt was written into the recorded entry of its key while no
order under the key was confirmed. -/
def Verworfen (coid : String) : List Aktion → Prop :=
  Once fun vor a =>
    match a with
    | .verwerfen j true => (auftraege j).coid = coid ∧ Abgelehnt j vor ∧
        Festgeschrieben auftraege coid vor ∧ ¬Bestaetigt auftraege coid vor
    | _ => False

/-- The condition on a step behind a history.  When the denial of an attempt is written
into a recorded entry, every order that was accepted under its key has been
confirmed, and the broker accepts an order when no denial of its key was written. -/
def Bedingung (hist : List Aktion) : Aktion → Prop
  | .verwerfen i true =>
      Abgelehnt i hist → Festgeschrieben auftraege (auftraege i).coid hist →
        Angenommen auftraege (auftraege i).coid hist → Bestaetigt auftraege (auftraege i).coid hist
  | .tor i (.angenommen _ _) => ¬Verworfen auftraege (auftraege i).coid hist
  | _ => True

/-- Histories start with an outbox that has no entry under the keys of the attempts. -/
def unversucht (a : Ablage) : Prop := ∀ i, a.get (auftraege i).coid = none

/-! ## Which steps discard -/

theorem verworfen_schreibeFest {a : Ablage} {e d : OutboxEintrag} {g : Gelungen} {coid : String}
    (h : (schreibeFest a e g).lese coid = some d) (hd : d.zustand = .verworfen) :
    a.lese coid = some d := by
  rcases schreibeFest_cases a e g with hs | ⟨_, hget, _⟩
  · rwa [hs] at h
  · rw [Ablage.lese, hget] at h
    by_cases hc : coid = e.clientOrderId
    · subst hc
      rw [Ablage.get_set_self] at h
      cases h
      cases hd
    · rwa [Ablage.get_set_of_ne _ _ _ hc] at h

/-- A report other than a denial discards nothing. -/
theorem verworfen_schreibeFort {a : Ablage} {c coid : String} {g : Bool} {m : Meldung}
    {d : OutboxEintrag} (hm : m.ziel ≠ .verworfen)
    (h : (a.schreibeFort g c m).2.lese coid = some d) (hd : d.zustand = .verworfen) :
    a.lese coid = some d := by
  rcases Ablage.schreibeFort_cases g a c m with hs | ⟨e, _, _, hs⟩
  · rwa [hs] at h
  · rw [hs] at h
    by_cases hc : coid = c
    · subst hc
      rw [Ablage.lese_set_self] at h
      cases h
      exact absurd ((m.auf_zustand e).symm.trans hd) hm
    · rwa [Ablage.lese_set_of_ne _ _ _ hc] at h

theorem nimmAn_self (b : String → String → Option String) (konto coid orderId : String) :
    nimmAn b konto coid orderId konto coid = some orderId := by
  simp [nimmAn]

/-- Accepting an order adds one order and no other. -/
theorem nimmAn_of_ne {b : String → String → Option String} {konto coid orderId k c : String}
    (h : c ≠ coid) : nimmAn b konto coid orderId k c = b k c := by
  by_cases hk : k = konto
  · subst hk; simp [nimmAn, Function.update_of_ne h]
  · simp [nimmAn, Function.update_of_ne hk]

/-- Accepting an order takes no other one away. -/
theorem nimmAn_ne_none {b : String → String → Option String} {konto coid orderId k c : String}
    (h : b k c ≠ none) : nimmAn b konto coid orderId k c ≠ none := by
  by_cases hk : k = konto
  · by_cases hc : c = coid
    · rw [hk, hc, nimmAn_self]
      exact Option.some_ne_none _
    · rwa [nimmAn_of_ne hc]
  · simpa [nimmAn, Function.update_of_ne hk] using h

/-! ## One step -/

/-- A step from a situation without a discarded order leads to one exactly when
it does no harm there. -/
theorem schritt_unschaedlich_iff {x x' : Lage} {a : Aktion} (hx : VerworfenOhneOrder x)
    (h : schritt auftraege x a = some x') :
    VerworfenOhneOrder x' ↔ Unschaedlich auftraege x a := by
  cases Schritt.of_schritt auftraege h with
  | festschreiben g _ =>
      refine ⟨fun _ => trivial, fun _ coid e he hez => ?_⟩
      exact hx coid e (verworfen_schreibeFest he hez) hez
  | vermerken g _ =>
      refine ⟨fun _ => trivial, fun _ coid e he hez => ?_⟩
      exact hx coid e (verworfen_schreibeFort (by simp [Meldung.ziel]) he hez) hez
  | bestaetigen g _ =>
      refine ⟨fun _ => trivial, fun _ coid e he hez => ?_⟩
      exact hx coid e (verworfen_schreibeFort (by simp [Meldung.ziel]) he hez) hez
  | abgelehnt | duplikat | fehler => exact ⟨fun _ => trivial, fun _ => hx⟩
  | gefunden | nichtGefunden => exact ⟨fun _ => trivial, fun _ => hx⟩
  | @angenommen i orderId kommtAn hp hb =>
      constructor
      · intro hx' e he hez
        have hnone : nimmAn x.broker (auftraege i).userId (auftraege i).coid orderId
            (auftraege i).userId (auftraege i).coid = none := hx' _ e he hez _
        rw [nimmAn_self] at hnone
        cases hnone
      · intro hcond coid e he hez konto
        have hne : coid ≠ (auftraege i).coid := by
          rintro rfl
          exact hcond e he hez
        exact (nimmAn_of_ne hne).trans (hx coid e he hez konto)
  | @verwerfen i grund g hp =>
      cases g with
      | false => exact ⟨fun _ => trivial, fun _ => hx⟩
      | true =>
          constructor
          · intro hx' e he hez konto
            have hset : (x.ablage.alsVerworfen true (auftraege i).coid (grundTor grund)).2.lese
                (auftraege i).coid = some ((Meldung.verworfen (grundTor grund)).auf e) := by
              rw [Ablage.alsVerworfen, Ablage.schreibeFort_final he hez rfl, Ablage.lese_set_self]
            exact hx' _ _ hset rfl konto
          · intro hcond coid e he hez konto
            rcases Ablage.schreibeFort_cases true x.ablage (auftraege i).coid
              (.verworfen (grundTor grund)) with hs | ⟨d, hd, hr, hs⟩
            · exact hx coid e (by simpa only [Ablage.alsVerworfen, hs] using he) hez konto
            · by_cases hc : coid = (auftraege i).coid
              · subst hc
                refine hcond d hd ?_ konto
                by_contra hdz
                rw [Bool.not_eq_false] at hdz
                exact absurd hr (Nat.not_lt.mpr (Outbox.Zustand.rang_le_of_erledigt hdz _))
              · refine hx coid e ?_ hez konto
                simpa only [Ablage.alsVerworfen, hs, Ablage.lese_set_of_ne _ _ _ hc] using he

/-! ## The entry of a key -/

/-- The entry of a key is what its history made of it. -/
def EintragStimmt (a : Ablage) (hist : List Aktion) (coid : String) : Prop :=
  ¬Festgeschrieben auftraege coid hist ∧ a.get coid = none ∨
    Festgeschrieben auftraege coid hist ∧ ∃ e, a.lese coid = some e ∧
      (e.zustand = .bestaetigt ↔ Bestaetigt auftraege coid hist) ∧
      (e.zustand = .verworfen ↔ Verworfen auftraege coid hist)

/-- What holds along a history whose steps meet the condition. -/
structure Stimmt (y : Lage × List Aktion) : Prop where
  ohneOrder : VerworfenOhneOrder y.1
  eintrag : ∀ i, EintragStimmt auftraege y.1.ablage y.2 (auftraege i).coid
  order : ∀ coid, (∃ konto, y.1.broker konto coid ≠ none) ↔ Angenommen auftraege coid y.2
  abgelehnt : ∀ i grund, y.1.phasen i = .abgelehnt grund → Abgelehnt i y.2
  gehalten : ∀ i orderId, y.1.phasen i = .angenommen orderId →
    y.1.broker (auftraege i).userId (auftraege i).coid ≠ none

section

variable {auftraege} {hist : List Aktion} {a : Aktion} {coid : String} {i : Nat}

theorem festgeschrieben_of_bestaetigt (h : Bestaetigt auftraege coid hist) :
    Festgeschrieben auftraege coid hist := by
  obtain ⟨vor, b, nach, rfl, hb⟩ := h
  split at hb
  next => exact hb.2.append _
  next => exact hb.elim

theorem festgeschrieben_of_verworfen (h : Verworfen auftraege coid hist) :
    Festgeschrieben auftraege coid hist := by
  obtain ⟨vor, b, nach, rfl, hb⟩ := h
  split at hb
  next => exact hb.2.2.1.append _
  next => exact hb.elim

theorem EintragStimmt.lese_some {b : Ablage} (h : EintragStimmt auftraege b hist coid)
    {e : OutboxEintrag} (he : b.lese coid = some e) :
    Festgeschrieben auftraege coid hist ∧
      (e.zustand = .bestaetigt ↔ Bestaetigt auftraege coid hist) ∧
      (e.zustand = .verworfen ↔ Verworfen auftraege coid hist) := by
  rcases h with ⟨-, hnone⟩ | ⟨hf, e', he', hb, hv⟩
  · rw [Ablage.lese, hnone] at he
    cases he
  · rw [he] at he'
    cases he'
    exact ⟨hf, hb, hv⟩

/-- A step that neither records, confirms nor discards leaves the entry as its history has
it. -/
theorem EintragStimmt.still {b : Ablage} (h : EintragStimmt auftraege b hist coid)
    (hf : Festgeschrieben auftraege coid (hist ++ [a]) ↔ Festgeschrieben auftraege coid hist)
    (hb : Bestaetigt auftraege coid (hist ++ [a]) ↔ Bestaetigt auftraege coid hist)
    (hv : Verworfen auftraege coid (hist ++ [a]) ↔ Verworfen auftraege coid hist) :
    EintragStimmt auftraege b (hist ++ [a]) coid := by
  simpa only [EintragStimmt, hf, hb, hv] using h

/-! ### The notions one step later -/

theorem festgeschrieben_concat : Festgeschrieben auftraege coid (hist ++ [a]) ↔
    Festgeschrieben auftraege coid hist ∨
      ∃ j g, a = .festschreiben j g ∧ g ≠ .nichts ∧ (auftraege j).coid = coid := by
  rw [Festgeschrieben, once_concat]
  cases a <;> simp

theorem abgelehnt_concat : Abgelehnt i (hist ++ [a]) ↔
    Abgelehnt i hist ∨ ∃ grund, a = .tor i (.abgelehnt grund) := by
  rw [Abgelehnt, once_concat]
  cases a with
  | tor j antwort => cases antwort <;> simp [eq_comm]
  | _ => simp

theorem angenommen_concat : Angenommen auftraege coid (hist ++ [a]) ↔
    Angenommen auftraege coid hist ∨
      ∃ j orderId k, a = .tor j (.angenommen orderId k) ∧ (auftraege j).coid = coid := by
  rw [Angenommen, once_concat]
  cases a with
  | tor j antwort => cases antwort <;> simp
  | _ => simp

theorem bestaetigt_concat : Bestaetigt auftraege coid (hist ++ [a]) ↔
    Bestaetigt auftraege coid hist ∨
      ∃ j, a = .bestaetigen j true ∧ (auftraege j).coid = coid ∧
        Festgeschrieben auftraege coid hist := by
  rw [Bestaetigt, once_concat]
  cases a with
  | bestaetigen j g => cases g <;> simp
  | _ => simp

theorem verworfen_concat : Verworfen auftraege coid (hist ++ [a]) ↔
    Verworfen auftraege coid hist ∨
      ∃ j, a = .verwerfen j true ∧ (auftraege j).coid = coid ∧ Abgelehnt j hist ∧
        Festgeschrieben auftraege coid hist ∧ ¬Bestaetigt auftraege coid hist := by
  rw [Verworfen, once_concat]
  cases a with
  | verwerfen j g => cases g <;> simp
  | _ => simp

end

/-! ### Steps on the entry -/

section

variable {auftraege} {hist : List Aktion} {coid : String} {b : Ablage}

theorem get_schreibeFest_of_ne {e : OutboxEintrag} (g : Gelungen) (h : coid ≠ e.clientOrderId) :
    (schreibeFest b e g).get coid = b.get coid := by
  rcases schreibeFest_cases b e g with hs | ⟨-, hget, -⟩
  · rw [hs]
  · rw [hget, Ablage.get_set_of_ne _ _ _ h]

theorem EintragStimmt.festschreiben (h : EintragStimmt auftraege b hist coid) (i : Nat)
    (g : Gelungen) : EintragStimmt auftraege (schreibeFest b (auftraege i).eintrag g)
      (hist ++ [.festschreiben i g]) coid := by
  have hb : Bestaetigt auftraege coid (hist ++ [.festschreiben i g]) ↔
      Bestaetigt auftraege coid hist := by simp [bestaetigt_concat]
  have hv : Verworfen auftraege coid (hist ++ [.festschreiben i g]) ↔
      Verworfen auftraege coid hist := by simp [verworfen_concat]
  by_cases hwrite : g ≠ .nichts ∧ (auftraege i).coid = coid
  · obtain ⟨hg, rfl⟩ := hwrite
    have hf : Festgeschrieben auftraege (auftraege i).coid (hist ++ [.festschreiben i g]) :=
      festgeschrieben_concat.mpr (.inr ⟨i, g, rfl, hg, rfl⟩)
    refine .inr ⟨hf, ?_⟩
    rw [hb, hv]
    rcases h with ⟨hnot, hnone⟩ | ⟨hold, e, he, hz⟩
    · refine ⟨{ (auftraege i).eintrag with zustand := .offen }, ?_, ?_, ?_⟩
      · cases g with
        | nichts => exact absurd rfl hg
        | ganz =>
            rw [schreibeFest_ganz (e := (auftraege i).eintrag) hnone, Ablage.lese_append]
            exact Ablage.lese_set_self _ _ _
        | nurEintrag =>
            have hwrite : schreibeFest b (auftraege i).eintrag .nurEintrag =
                b.set (auftraege i).coid
                  { (auftraege i).eintrag with zustand := .offen : OutboxEintrag }.alsJson := by
              simp only [schreibeFest]
              rw [show (auftraege i).eintrag.clientOrderId = (auftraege i).coid from rfl, hnone]
              rfl
            rw [hwrite]
            exact Ablage.lese_set_self _ _ _
      · exact iff_of_false Outbox.Zustand.noConfusion
          fun hb => hnot (festgeschrieben_of_bestaetigt hb)
      · exact iff_of_false Outbox.Zustand.noConfusion
          fun hv => hnot (festgeschrieben_of_verworfen hv)
    · refine ⟨e, ?_, hz⟩
      rcases schreibeFest_cases b (auftraege i).eintrag g with hs | ⟨hnone, -, -⟩
      · rwa [hs]
      · rw [Ablage.lese, show b.get (auftraege i).coid = none from hnone] at he
        cases he
  · have hf : Festgeschrieben auftraege coid (hist ++ [.festschreiben i g]) ↔
        Festgeschrieben auftraege coid hist := by
      rw [festgeschrieben_concat, or_iff_left]
      rintro ⟨j, g', hj, hg, hc⟩
      cases hj
      exact hwrite ⟨hg, hc⟩
    have hsame : (schreibeFest b (auftraege i).eintrag g).get coid = b.get coid := by
      by_cases hg : g = .nichts
      · rw [hg, schreibeFest]
      · exact get_schreibeFest_of_ne g fun hc => hwrite ⟨hg, hc.symm⟩
    refine EintragStimmt.still ?_ hf hb hv
    simpa only [EintragStimmt, Ablage.lese, hsame] using h

theorem lese_schreibeFort {e : OutboxEintrag} (he : b.lese coid = some e) (g : Bool) (c : String)
    (m : Meldung) : (b.schreibeFort g c m).2.lese coid =
      some (if g = true ∧ c = coid ∧ e.zustand.rang < m.ziel.rang then m.auf e else e) := by
  by_cases hwrite : g = true ∧ c = coid ∧ e.zustand.rang < m.ziel.rang
  · obtain ⟨rfl, rfl, hr⟩ := hwrite
    rw [if_pos ⟨rfl, rfl, hr⟩, Ablage.schreibeFort, he]
    simp [Nat.not_le.mpr hr]
  · rw [if_neg hwrite, ← he]
    rcases Ablage.schreibeFort_cases g b c m with hs | ⟨d, hd, hr, hs⟩
    · rw [hs]
    · cases g with
      | false => rfl
      | true =>
          have hne : coid ≠ c := by
            rintro rfl
            rw [he] at hd
            cases hd
            exact hwrite ⟨rfl, rfl, hr⟩
          rw [hs, Ablage.lese_set_of_ne _ _ _ hne]

theorem get_schreibeFort_of_none (h : b.get coid = none) (g : Bool) (c : String) (m : Meldung) :
    (b.schreibeFort g c m).2.get coid = none := by
  by_cases hc : coid = c
  · subst hc
    rcases Ablage.schreibeFort_cases g b coid m with hs | ⟨e, he, -, -⟩
    · rwa [hs]
    · rw [Ablage.lese, h] at he
      cases he
  · rwa [Ablage.get_schreibeFort_of_ne hc]

/-- A report on the entry of a key, in terms of the two notions behind it. -/
theorem EintragStimmt.melden (h : EintragStimmt auftraege b hist coid) {a : Aktion} {c : String}
    {g : Bool} {m : Meldung} (ha : ∀ j g', a ≠ .festschreiben j g')
    (hzustand : ∀ e, b.lese coid = some e →
      ∀ z, z = (if g = true ∧ c = coid ∧ e.zustand.rang < m.ziel.rang then m.ziel else e.zustand) →
      (z = .bestaetigt ↔ Bestaetigt auftraege coid (hist ++ [a])) ∧
        (z = .verworfen ↔ Verworfen auftraege coid (hist ++ [a]))) :
    EintragStimmt auftraege (b.schreibeFort g c m).2 (hist ++ [a]) coid := by
  have hf : Festgeschrieben auftraege coid (hist ++ [a]) ↔ Festgeschrieben auftraege coid hist := by
    rw [festgeschrieben_concat, or_iff_left]
    rintro ⟨j, g', hj, -⟩
    exact ha j g' hj
  rcases h with ⟨hnot, hnone⟩ | ⟨hold, e, he, -⟩
  · exact .inl ⟨fun hn => hnot (hf.mp hn), get_schreibeFort_of_none hnone g c m⟩
  · refine .inr ⟨hf.mpr hold, _, lese_schreibeFort he g c m, hzustand e he _ ?_⟩
    rw [apply_ite OutboxEintrag.zustand, m.auf_zustand]

theorem EintragStimmt.vermerken (h : EintragStimmt auftraege b hist coid) (i : Nat) (g : Bool) :
    EintragStimmt auftraege (b.alsAbgesendet g (auftraege i).coid).2
      (hist ++ [.vermerken i g]) coid := by
  refine h.melden (fun j g' h => by cases h) fun e he z hz => ?_
  obtain ⟨-, hb, hv⟩ := h.lese_some he
  have hb' : Bestaetigt auftraege coid (hist ++ [.vermerken i g]) ↔
      Bestaetigt auftraege coid hist := by simp [bestaetigt_concat]
  have hv' : Verworfen auftraege coid (hist ++ [.vermerken i g]) ↔
      Verworfen auftraege coid hist := by simp [verworfen_concat]
  rw [hb', hv', ← hb, ← hv, hz]
  split
  next hr => cases hs : e.zustand <;> simp_all [Meldung.ziel, Outbox.Zustand.rang]
  next => exact ⟨Iff.rfl, Iff.rfl⟩

/-- Confirming, when the entry is not discarded. -/
theorem EintragStimmt.bestaetigen (h : EintragStimmt auftraege b hist coid) (i : Nat) (g : Bool)
    (orderId : String)
    (hoffen : (auftraege i).coid = coid → ∀ e, b.lese coid = some e → e.zustand ≠ .verworfen) :
    EintragStimmt auftraege (b.alsBestaetigt g (auftraege i).coid orderId).2
      (hist ++ [.bestaetigen i g]) coid := by
  refine h.melden (fun j g' h => by cases h) fun e he z hz => ?_
  obtain ⟨hf, hb, hv⟩ := h.lese_some he
  have hv' : Verworfen auftraege coid (hist ++ [.bestaetigen i g]) ↔
      Verworfen auftraege coid hist := by simp [verworfen_concat]
  rw [bestaetigt_concat, hv', ← hb, ← hv, hz]
  by_cases hkey : g = true ∧ (auftraege i).coid = coid
  · obtain ⟨rfl, hc⟩ := hkey
    have hne := hoffen hc e he
    have hnew : ∃ j, Aktion.bestaetigen i true = .bestaetigen j true ∧
        (auftraege j).coid = coid ∧ Festgeschrieben auftraege coid hist := ⟨i, rfl, hc, hf⟩
    split
    next => exact ⟨iff_of_true rfl (.inr hnew), iff_of_false Outbox.Zustand.noConfusion hne⟩
    next hr =>
      have hz : e.zustand = .bestaetigt := by
        cases hs : e.zustand <;> simp_all [Meldung.ziel, Outbox.Zustand.rang]
      exact ⟨iff_of_true hz (.inr hnew), Iff.rfl⟩
  · rw [if_neg fun h => hkey ⟨h.1, h.2.1⟩, or_iff_left]
    · exact ⟨Iff.rfl, Iff.rfl⟩
    · rintro ⟨j, hj, hc, -⟩
      cases hj
      exact hkey ⟨rfl, hc⟩

theorem EintragStimmt.verwerfen (h : EintragStimmt auftraege b hist coid) {i : Nat}
    (habgelehnt : Abgelehnt i hist) (g : Bool) (grund : String) :
    EintragStimmt auftraege (b.alsVerworfen g (auftraege i).coid grund).2
      (hist ++ [.verwerfen i g]) coid := by
  refine h.melden (fun j g' h => by cases h) fun e he z hz => ?_
  obtain ⟨hf, hb, hv⟩ := h.lese_some he
  have hb' : Bestaetigt auftraege coid (hist ++ [.verwerfen i g]) ↔
      Bestaetigt auftraege coid hist := by simp [bestaetigt_concat]
  rw [verworfen_concat, hb', ← hb, ← hv, hz]
  by_cases hkey : g = true ∧ (auftraege i).coid = coid
  · obtain ⟨rfl, hc⟩ := hkey
    by_cases hfinal : e.zustand = .bestaetigt
    · rw [if_neg (by simp [hfinal, Meldung.ziel, Outbox.Zustand.rang]), or_iff_left]
      · exact ⟨Iff.rfl, Iff.rfl⟩
      · rintro ⟨-, -, -, -, -, hn⟩
        exact hn hfinal
    · have hnew : ∃ j, Aktion.verwerfen i true = .verwerfen j true ∧ (auftraege j).coid = coid ∧
          Abgelehnt j hist ∧ Festgeschrieben auftraege coid hist ∧ ¬e.zustand = .bestaetigt :=
        ⟨i, rfl, hc, habgelehnt, hf, hfinal⟩
      split
      next => exact ⟨iff_of_false Outbox.Zustand.noConfusion hfinal, iff_of_true rfl (.inr hnew)⟩
      next hr =>
        have hz : e.zustand = .verworfen := by
          cases hs : e.zustand <;> simp_all [Meldung.ziel, Outbox.Zustand.rang]
        exact ⟨Iff.rfl, iff_of_true hz (.inr hnew)⟩
  · rw [if_neg fun h => hkey ⟨h.1, h.2.1⟩, or_iff_left]
    · exact ⟨Iff.rfl, Iff.rfl⟩
    · rintro ⟨j, hj, hc, -⟩
      cases hj
      exact hkey ⟨rfl, hc⟩

end

/-! ## Histories -/

variable {auftraege} in
/-- On an entry that is what its history made of it, a step does no harm exactly when the
history meets the condition. -/
theorem Stimmt.unschaedlich_iff {y : Lage × List Aktion} (hy : Stimmt auftraege y) {a : Aktion}
    {x' : Lage} (h : schritt auftraege y.1 a = some x') :
    Unschaedlich auftraege y.1 a ↔ Bedingung auftraege y.2 a := by
  cases Schritt.of_schritt auftraege h with
  | @verwerfen i grund g hp =>
      cases g with
      | false => exact Iff.rfl
      | true =>
          constructor
          · intro hu habgelehnt hf hang
            rcases hy.eintrag i with ⟨hnot, -⟩ | ⟨-, e, he, hb, hv⟩
            · exact absurd hf hnot
            obtain ⟨konto, hkonto⟩ := (hy.order _).mpr hang
            by_contra hnb
            have hne : e.zustand ≠ .verworfen := fun hz =>
              hkonto (hy.ohneOrder _ e he hz konto)
            refine hkonto (hu e he ?_ konto)
            cases hs : e.zustand <;> simp_all [Outbox.Zustand.erledigt]
          · intro hcond e he hz konto
            obtain ⟨hf, hb, -⟩ := (hy.eintrag i).lese_some he
            by_contra hkonto
            have hbest := hcond (hy.abgelehnt i grund hp) hf ((hy.order _).mp ⟨konto, hkonto⟩)
            rw [hb.mpr hbest] at hz
            cases hz
  | @angenommen i orderId k hp hb =>
      constructor
      · intro hu hv
        rcases hy.eintrag i with ⟨hnot, -⟩ | ⟨-, e, he, -, hev⟩
        · exact hnot (festgeschrieben_of_verworfen hv)
        · exact hu e he (hev.mpr hv)
      · intro hnv e he hz
        exact hnv (((hy.eintrag i).lese_some he).2.2.mp hz)
  | festschreiben | vermerken | abgelehnt | duplikat | fehler | gefunden | nichtGefunden
  | bestaetigen => exact Iff.rfl

theorem Stimmt.anfang {a : Ablage} (ha : unversucht auftraege a) :
    Stimmt auftraege (anfang a, []) where
  ohneOrder _ _ _ _ _ := rfl
  eintrag i := .inl ⟨not_once_nil, ha i⟩
  order coid := by
    refine iff_of_false ?_ not_once_nil
    rintro ⟨konto, hk⟩
    exact hk rfl
  abgelehnt i grund h := by cases h
  gehalten i orderId h := by cases h

variable {auftraege} in
theorem phasen_setzePhase {x : Lage} {i j : Nat} {p q : Phase}
    (h : (x.setzePhase i p).phasen j = q) : i = j ∧ p = q ∨ x.phasen j = q := by
  by_cases hij : j = i
  · subst hij
    exact .inl ⟨rfl, by simpa [Lage.setzePhase] using h⟩
  · exact .inr (by simpa [Lage.setzePhase, Function.update_of_ne hij] using h)

section

variable {auftraege} {y : Lage × List Aktion} {a : Aktion} {x' : Lage}

/-- A step keeps the entry of every key what its history made of it. -/
theorem Stimmt.eintrag_schritt (hy : Stimmt auftraege y) (h : schritt auftraege y.1 a = some x')
    (i : Nat) : EintragStimmt auftraege x'.ablage (y.2 ++ [a]) (auftraege i).coid := by
  have hold := hy.eintrag i
  cases Schritt.of_schritt auftraege h with
  | @festschreiben j g _ => exact hold.festschreiben j g
  | @vermerken j g _ => exact hold.vermerken j g
  | @bestaetigen j orderId g hp =>
      refine hold.bestaetigen j g orderId fun hc e he hz => ?_
      exact hy.gehalten j orderId hp (hc ▸ hy.ohneOrder _ e he hz _)
  | @verwerfen j grund g hp => exact hold.verwerfen (hy.abgelehnt j grund hp) g _
  | abgelehnt | angenommen | duplikat | fehler | gefunden | nichtGefunden =>
      exact hold.still (by simp [festgeschrieben_concat]) (by simp [bestaetigt_concat])
        (by simp [verworfen_concat])

/-- The brokers hold an order under a key exactly when one was accepted. -/
theorem Stimmt.order_schritt (hy : Stimmt auftraege y) (h : schritt auftraege y.1 a = some x')
    (coid : String) :
    (∃ konto, x'.broker konto coid ≠ none) ↔ Angenommen auftraege coid (y.2 ++ [a]) := by
  have hold := hy.order coid
  rw [angenommen_concat, ← hold]
  cases Schritt.of_schritt auftraege h with
  | @angenommen i orderId k hp hb =>
      by_cases hc : (auftraege i).coid = coid
      · subst hc
        refine iff_of_true ⟨(auftraege i).userId, ?_⟩ (.inr ⟨i, orderId, k, rfl, rfl⟩)
        exact ne_of_eq_of_ne (nimmAn_self _ _ _ orderId) (Option.some_ne_none _)
      · rw [or_iff_left]
        · simp only [nimmAn_of_ne (Ne.symm hc)]
        · rintro ⟨j, o, k', hj, hc'⟩
          cases hj
          exact hc hc'
  | festschreiben | vermerken | bestaetigen | verwerfen | abgelehnt | duplikat | fehler | gefunden
  | nichtGefunden =>
      rw [or_iff_left]
      · rfl
      · rintro ⟨j, o, k', hj, -⟩
        cases hj

/-- An attempt that is about to discard was denied. -/
theorem Stimmt.abgelehnt_schritt (hy : Stimmt auftraege y)
    (h : schritt auftraege y.1 a = some x') (i : Nat) (grund : String)
    (hi : x'.phasen i = .abgelehnt grund) : Abgelehnt i (y.2 ++ [a]) := by
  have hlater : y.1.phasen i = .abgelehnt grund → Abgelehnt i (y.2 ++ [a]) :=
    fun hp => (hy.abgelehnt i grund hp).append _
  cases Schritt.of_schritt auftraege h with
  | @abgelehnt j grund' _ =>
      rcases phasen_setzePhase hi with ⟨rfl, -⟩ | hp
      · exact abgelehnt_concat.mpr (.inr ⟨_, rfl⟩)
      · exact hlater hp
  | @angenommen j orderId k _ _ =>
      rcases phasen_setzePhase hi with ⟨-, hphase⟩ | hp
      · cases k <;> cases hphase
      · exact hlater hp
  | festschreiben | vermerken | bestaetigen | verwerfen | duplikat | fehler | gefunden
  | nichtGefunden =>
      rcases phasen_setzePhase hi with ⟨-, hphase⟩ | hp
      · cases hphase
      · exact hlater hp

/-- An attempt that is about to confirm has an order at its broker. -/
theorem Stimmt.gehalten_schritt (hy : Stimmt auftraege y) (h : schritt auftraege y.1 a = some x')
    (i : Nat) (orderId : String) (hi : x'.phasen i = .angenommen orderId) :
    x'.broker (auftraege i).userId (auftraege i).coid ≠ none := by
  have hold := hy.gehalten i orderId
  cases Schritt.of_schritt auftraege h with
  | @angenommen j orderId' k _ _ =>
      rcases phasen_setzePhase hi with ⟨rfl, -⟩ | hp
      · exact ne_of_eq_of_ne (nimmAn_self _ _ _ orderId') (Option.some_ne_none _)
      · exact nimmAn_ne_none (hold hp)
  | @gefunden j orderId' _ hb =>
      rcases phasen_setzePhase hi with ⟨rfl, -⟩ | hp
      · exact ne_of_eq_of_ne hb (Option.some_ne_none _)
      · exact hold hp
  | festschreiben | vermerken | bestaetigen | verwerfen | abgelehnt | duplikat | fehler
  | nichtGefunden =>
      rcases phasen_setzePhase hi with ⟨-, hphase⟩ | hp
      · cases hphase
      · exact hold hp

theorem Stimmt.schritt (hy : Stimmt auftraege y) (h : Tor.schritt auftraege y.1 a = some x')
    (hcond : Bedingung auftraege y.2 a) : Stimmt auftraege (x', y.2 ++ [a]) where
  ohneOrder := (schritt_unschaedlich_iff auftraege hy.ohneOrder h).mpr
    ((hy.unschaedlich_iff h).mpr hcond)
  eintrag := hy.eintrag_schritt h
  order := hy.order_schritt h
  abgelehnt := hy.abgelehnt_schritt h
  gehalten := hy.gehalten_schritt h

end

/-- The histories whose steps all meet the condition, with their actions. -/
abbrev bedingt : System (Lage × List Aktion) Aktion :=
  ((absenden auftraege (unversucht auftraege)).observe fun _ a => [a]).restrict
    fun y a _ => Bedingung auftraege y.2 a

/-- In every history whose steps all meet the condition a discarded entry has no
order, and each further step keeps this exactly when it meets the condition. -/
theorem verworfen_ohne_order {y : Lage × List Aktion} (hy : (bedingt auftraege).Reach y) :
    VerworfenOhneOrder y.1 ∧
      ∀ a x', schritt auftraege y.1 a = some x' →
        (VerworfenOhneOrder x' ↔ Bedingung auftraege y.2 a) := by
  have hstimmt : Stimmt auftraege y := by
    refine hy.invariant ?_ ?_
    · rintro ⟨x, hist⟩ ⟨⟨a, ha, rfl⟩, rfl⟩
      exact Stimmt.anfang auftraege ha
    · rintro ⟨x, hist⟩ a ⟨x', hist'⟩ hI ⟨⟨hs, rfl⟩, hcond⟩
      exact hI.schritt hs hcond
  refine ⟨hstimmt.ohneOrder, fun a x' h => ?_⟩
  rw [schritt_unschaedlich_iff auftraege hstimmt.ohneOrder h, hstimmt.unschaedlich_iff h]

/-! ### A history that meets the condition -/

section

variable (coid : String) (i : Nat) (hist : List Aktion)

instance : Decidable (Festgeschrieben auftraege coid hist) :=
  @Basis.System.decidableOnce _ _ (fun _ a => by cases a <;> infer_instance) hist

instance : Decidable (Abgelehnt i hist) :=
  @Basis.System.decidableOnce _ _ (fun _ a => by
    cases a with
    | tor j antwort => cases antwort <;> infer_instance
    | _ => infer_instance) hist

instance : Decidable (Angenommen auftraege coid hist) :=
  @Basis.System.decidableOnce _ _ (fun _ a => by
    cases a with
    | tor j antwort => cases antwort <;> infer_instance
    | _ => infer_instance) hist

instance : Decidable (Bestaetigt auftraege coid hist) :=
  @Basis.System.decidableOnce _ _ (fun _ a => by
    cases a with
    | bestaetigen j g => cases g <;> infer_instance
    | _ => infer_instance) hist

instance : Decidable (Verworfen auftraege coid hist) :=
  @Basis.System.decidableOnce _ _ (fun _ a => by
    cases a with
    | verwerfen j g => cases g <;> infer_instance
    | _ => infer_instance) hist

instance (a : Aktion) : Decidable (Bedingung auftraege hist a) := by
  cases a with
  | verwerfen j g =>
      cases g with
      | true => exact inferInstanceAs (Decidable (_ → _ → _ → _))
      | false => exact instDecidableTrue
  | tor j antwort =>
      cases antwort with
      | angenommen orderId k => exact inferInstanceAs (Decidable (¬_))
      | _ => exact instDecidableTrue
  | _ => exact instDecidableTrue

end

/-- Whether each action of a list meets the condition behind the ones before it. -/
def geordnet (hist : List Aktion) : List Aktion → Bool
  | [] => true
  | a :: as => decide (Bedingung auftraege hist a) && geordnet (hist ++ [a]) as
termination_by structural as => as

/-- A list of actions that can be taken and meet the condition makes up a history. -/
theorem bedingt_of_laufe {as : List Aktion} {x x' : Lage} {hist : List Aktion}
    (hx : (bedingt auftraege).Reach (x, hist)) (h : laufe auftraege x as = some x')
    (hord : geordnet auftraege hist as = true) :
    (bedingt auftraege).Reach (x', hist ++ as) := by
  induction as generalizing x hist with
  | nil =>
      cases h
      rwa [List.append_nil]
  | cons a as ih =>
      obtain ⟨x₁, h₁, h₂⟩ := Option.bind_eq_some_iff.mp h
      obtain ⟨hcond, hrest⟩ := (Bool.and_eq_true _ _).mp hord
      have hstep : (bedingt auftraege).Reach (x₁, hist ++ [a]) :=
        .step hx ⟨⟨h₁, rfl⟩, of_decide_eq_true hcond⟩
      simpa using ih hstep h₂ hrest

/-- The same order, sent again and again. -/
def kauf : Absendung :=
  { decisionId := "d", art := "entry", coid := "k", symbol := "AAPL", seite := "buy", qty := 3
    userId := "" }

/-- An order whose answer is lost, a second attempt that finds it as a duplicate and
confirms it, and a third one that a halt denies. -/
def dreiVersuche : List Aktion :=
  [.festschreiben 0 .ganz, .vermerken 0 true, .tor 0 (.angenommen "o" false),
    .festschreiben 1 .ganz, .vermerken 1 true, .tor 1 .duplikat, .festschreiben 2 .ganz,
    .nachschlagen 1 true, .bestaetigen 1 true, .vermerken 2 true,
    .tor 2 (.abgelehnt "TRADING_HALTED"), .verwerfen 2 true]

/-- The denial does not discard the confirmed entry of the order. -/
theorem verworfen_ohne_order_kauf :
    ∃ y : Lage × List Aktion, y.2 = dreiVersuche ∧ y.1.broker "" "k" = some "o" ∧
      (y.1.ablage.lese "k").any (fun e => e.zustand == .bestaetigt) = true ∧
      VerworfenOhneOrder y.1 ∧ ∀ a x', schritt (fun _ => kauf) y.1 a = some x' →
        (VerworfenOhneOrder x' ↔ Bedingung (fun _ => kauf) y.2 a) := by
  have hrun : (laufe (fun _ => kauf) (anfang Ablage.leer) dreiVersuche).any
      (fun x => x.broker "" "k" == some "o" &&
        (x.ablage.lese "k").any fun e => e.zustand == .bestaetigt) = true := by decide
  obtain ⟨x, hx, hz⟩ := (Option.any_eq_true _ _).mp hrun
  obtain ⟨hb, he⟩ := (Bool.and_eq_true _ _).mp hz
  have hstart : (bedingt fun _ => kauf).Reach (anfang Ablage.leer, []) :=
    .start ⟨⟨_, fun _ => rfl, rfl⟩, rfl⟩
  have hreach := bedingt_of_laufe _ hstart hx
    (show geordnet (fun _ => kauf) [] dreiVersuche = true by decide)
  exact ⟨(x, dreiVersuche), rfl, eq_of_beq hb, he, verworfen_ohne_order _ hreach⟩

/-- An accepted order whose answer is lost, and a second attempt that a halt
denies: the entry is discarded and the broker holds the order. -/
theorem verworfen_mit_order :
    ¬ ∀ (auftraege : Nat → Absendung), (∀ i j, (auftraege i).coid = (auftraege j).coid) →
      ∀ x, (absenden auftraege (· = Ablage.leer)).Reach x → VerworfenOhneOrder x := by
  intro hall
  have hrun : (laufe (fun _ => kauf) (anfang Ablage.leer)
      [.festschreiben 0 .ganz, .vermerken 0 true, .tor 0 (.angenommen "o" false),
        .festschreiben 1 .ganz, .vermerken 1 true, .tor 1 (.abgelehnt "TRADING_HALTED"),
        .verwerfen 1 true]).any
      (fun x => (x.ablage.lese "k").any (fun e => e.zustand == .verworfen) &&
        x.broker "" "k" == some "o") = true := by decide
  obtain ⟨x, hx, hz⟩ := (Option.any_eq_true _ _).mp hrun
  rw [Bool.and_eq_true, Option.any_eq_true] at hz
  obtain ⟨⟨e, he, hez⟩, hb⟩ := hz
  have hreach : ((absenden (fun _ => kauf) (· = Ablage.leer)).restrict
      fun _ _ _ => True).Reach x :=
    reach_of_laufe _ (fun _ _ => trivial) (.start ⟨_, rfl, rfl⟩) hx
  have hnone := hall (fun _ => kauf) (fun _ _ => rfl) x hreach.of_restrict "k" e he
    (eq_of_beq hez) ""
  rw [eq_of_beq hb] at hnone
  cases hnone

end Tor
