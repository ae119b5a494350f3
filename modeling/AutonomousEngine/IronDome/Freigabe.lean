import AutonomousEngine.IronDome.VierAugen

/-!
# One save for each change, by two admins

A request reads a change that is not marked as applied.  Under the condition nobody else
applies the change then or takes it up before this request does, and whoever has saved it
has marked it, so it has not been saved (`Einmal`).  So no change is saved twice, and a save
that loosens the policy in force is that of an approve request, since a request that sets a
policy has compared it with one that is as loose as the policy in force
(`vierAugen_gehalten`).

Without the condition each part of the promise fails in some run (`vierAugen_verletzt`).
-/

namespace IronDome

open Basis

variable {P : Python} {B : Betrieb} {s s' : Ablage} {call : Anfrage}

/-! ## Each change is saved once -/

/-- The points of a request before its save. -/
def Punkt.vorSpeichern : Punkt → Bool
  | .altLaden _ _ _ | .auditieren _ | .speichern _ _ => true
  | _ => false

/-- A change that nobody has saved and nobody applies. -/
def Frei (p : Stand) (id : String) : Prop :=
  id ∉ p.store.gespeichert ∧ ∀ i j, p.jobs i = some j → j.point.wendetAn ≠ some id

/-- A change that a request has read is free.  One request at a time applies a change, which
is not saved before that, and a saved change is marked as applied or about to be. -/
structure Einmal (p : Stand) : Prop where
  einmal : p.store.gespeichert.Nodup
  frei : ∀ {i j id}, p.jobs i = some j → j.point.gelesen = some id → Frei p id
  allein : ∀ {i i' j j' id}, p.jobs i = some j → p.jobs i' = some j' →
    j.point.wendetAn = some id → j'.point.wendetAn = some id → i = i'
  neu : ∀ {i j id}, p.jobs i = some j → j.point.wendetAn = some id →
    j.point.vorSpeichern = true → id ∉ p.store.gespeichert
  vermerkt : ∀ id ∈ p.store.gespeichert,
    (∃ row, p.store.getPending id = some row ∧ row.applied = true) ∨
      ∃ i j approvals, p.jobs i = some j ∧ j.point = .markieren id approvals

section

variable {p : Stand} {i : ℕ} {x : Option (Job Anfrage Punkt)}

/-- A free change that no other request has read. -/
def Unbeteiligt (p : Stand) (i : ℕ) (id : String) : Prop :=
  Frei p id ∧ ∀ i' j, i' ≠ i → p.jobs i' = some j → j.point.gelesen ≠ some id

/-- A request applies the change that it applied before, or a free one that no other request
has read. -/
def Uebernimmt (p : Stand) (i : ℕ) (x : Option (Job Anfrage Punkt)) : Prop :=
  ∀ j' id, x = some j' → j'.point.wendetAn = some id →
    (∃ j, p.jobs i = some j ∧ j.point.wendetAn = some id ∧
      (j'.point.vorSpeichern = true → j.point.vorSpeichern = true)) ∨ Unbeteiligt p i id

/-- A change that a request reads is free. -/
def Liest (p : Stand) (x : Option (Job Anfrage Punkt)) : Prop :=
  ∀ j id, x = some j → j.point.gelesen = some id → Frei p id

theorem Liest.none : Liest p none := fun _ _ h => by cases h

theorem Liest.of_gelesen {j' : Job Anfrage Punkt} (h : j'.point.gelesen = .none) :
    Liest p (some j') := by
  intro j id hj hid
  obtain rfl := Option.some.inj hj
  rw [h] at hid
  cases hid

theorem wendetAn_of_gelesen {q : Punkt} {id : String} (h : q.gelesen = some id) :
    q.wendetAn = none := by
  cases q with
  | pruefen pending xUserId => rfl
  | _ => cases h

theorem Uebernimmt.none : Uebernimmt p i none := fun _ _ h => by cases h

theorem Uebernimmt.of_wendetAn {j' : Job Anfrage Punkt} (h : j'.point.wendetAn = .none) :
    Uebernimmt p i (some j') := by
  intro j id hj hid
  obtain rfl := Option.some.inj hj
  rw [h] at hid
  cases hid

theorem Uebernimmt.weiter {j j' : Job Anfrage Punkt} (hj : p.jobs i = some j)
    (hid : j'.point.wendetAn = j.point.wendetAn) (hvor : j.point.vorSpeichern = true) :
    Uebernimmt p i (some j') := by
  intro j'' id hj'' hid'
  obtain rfl := Option.some.inj hj''
  exact .inl ⟨j, hj, hid ▸ hid', fun _ => hvor⟩

theorem Einmal.allein_update (h : Einmal p) (hx : Uebernimmt p i x) {i₁ i₂ : ℕ}
    {j₁ j₂ : Job Anfrage Punkt} {id : String} (h₁ : Function.update p.jobs i x i₁ = some j₁)
    (h₂ : Function.update p.jobs i x i₂ = some j₂) (hid₁ : j₁.point.wendetAn = some id)
    (hid₂ : j₂.point.wendetAn = some id) : i₁ = i₂ := by
  have hfremd : ∀ {i' j j'}, x = some j → j.point.wendetAn = some id → i' ≠ i →
      p.jobs i' = some j' → j'.point.wendetAn ≠ some id := by
    intro i' j j' hj hid hne hj' hid'
    rcases hx j id hj hid with ⟨k, hk, hidk, -⟩ | ⟨hfrei, -⟩
    · exact hne (h.allein hj' hk hid' hidk)
    · exact hfrei.2 i' j' hj' hid'
  rcases update_jobs_eq_some.mp h₁ with ⟨rfl, hneu₁⟩ | ⟨hne₁, halt₁⟩
  · rcases update_jobs_eq_some.mp h₂ with ⟨rfl, -⟩ | ⟨hne₂, halt₂⟩
    · rfl
    · exact absurd hid₂ (hfremd hneu₁ hid₁ hne₂ halt₂)
  · rcases update_jobs_eq_some.mp h₂ with ⟨rfl, hneu₂⟩ | ⟨-, halt₂⟩
    · exact absurd hid₁ (hfremd hneu₂ hid₂ hne₁ halt₁)
    · exact h.allein halt₁ halt₂ hid₁ hid₂

/-- A change that was read stays free, since nobody takes up a change that another one has
read. -/
theorem Einmal.frei_update (h : Einmal p) (hx : Uebernimmt p i x) (hl : Liest p x) {i' : ℕ}
    {j' : Job Anfrage Punkt} {id : String} (hj' : Function.update p.jobs i x i' = some j')
    (hid : j'.point.gelesen = some id) :
    id ∉ p.store.gespeichert ∧
      ∀ i₂ j₂, Function.update p.jobs i x i₂ = some j₂ → j₂.point.wendetAn ≠ some id := by
  have hfrei : Frei p id := by
    rcases update_jobs_eq_some.mp hj' with ⟨-, hneu⟩ | ⟨-, halt⟩
    · exact hl j' id hneu hid
    · exact h.frei halt hid
  refine ⟨hfrei.1, fun i₂ j₂ h₂ hid₂ => ?_⟩
  rcases update_jobs_eq_some.mp h₂ with ⟨rfl, hneu₂⟩ | ⟨-, halt₂⟩
  · rcases hx j₂ id hneu₂ hid₂ with ⟨k, hk, hidk, -⟩ | ⟨-, hungelesen⟩
    · exact hfrei.2 i₂ k hk hidk
    · rcases update_jobs_eq_some.mp hj' with ⟨-, hneu⟩ | ⟨hne, halt⟩
      · obtain rfl := Option.some.inj (hneu.symm.trans hneu₂)
        rw [wendetAn_of_gelesen hid] at hid₂
        cases hid₂
      · exact hungelesen i' j' hne halt hid
  · exact hfrei.2 i₂ j₂ halt₂ hid₂

/-- A step of one request that saves nothing. -/
theorem Einmal.weiter (h : Einmal p) {s' : Ablage} {l : List (Done Anfrage Antwort)}
    (hw : Waechst p.store s') (hs : s'.gespeichert = p.store.gespeichert)
    (hx : Uebernimmt p i x) (hl : Liest p x)
    (hmarke : ∀ j id approvals, p.jobs i = some j → j.point = .markieren id approvals →
      ∃ row, s'.getPending id = some row ∧ row.applied = true) :
    Einmal ⟨s', Function.update p.jobs i x, l⟩ where
  einmal := by
    rw [hs]
    exact h.einmal
  frei := by
    intro i' j' id hj' hid
    rw [Frei, hs]
    exact h.frei_update hx hl hj' hid
  allein := h.allein_update hx
  neu := by
    intro i' j' id hj' hid hvor
    rw [hs]
    rcases update_jobs_eq_some.mp hj' with ⟨-, hneu⟩ | ⟨-, halt⟩
    · rcases hx j' id hneu hid with ⟨j, hj, hidj, hvorj⟩ | ⟨hfrei, -⟩
      · exact h.neu hj hidj (hvorj hvor)
      · exact hfrei.1
    · exact h.neu halt hid hvor
  vermerkt := by
    intro id hid
    rw [hs] at hid
    rcases h.vermerkt id hid with ⟨row, hrow, happlied⟩ | ⟨i', j, approvals, hj, hpunkt⟩
    · obtain ⟨row', hrow', -, -, happlied'⟩ := hw.pending id row hrow
      exact .inl ⟨row', hrow', happlied' happlied⟩
    · by_cases hi : i' = i
      · subst hi
        exact .inl (hmarke j id approvals hj hpunkt)
      · exact .inr ⟨i', j, approvals, update_jobs_eq_some.mpr (.inr ⟨hi, hj⟩), hpunkt⟩

theorem Einmal.save (h : Einmal p) {call : Anfrage} {n : ℕ} {c : Aenderung} {beleg : ℕ}
    {pending : PendingPolicyChange} {approvals : List String} {approver : String}
    (hj : p.jobs i = some ⟨call, n, .speichern c beleg⟩)
    (hc : c.anlass = .freigabe pending approvals approver) :
    Einmal ⟨p.store.saveIronDomePolicy c,
      Function.update p.jobs i (some ⟨call, n, .markieren pending.id approvals⟩), p.log⟩ := by
  have hid : (Punkt.speichern c beleg).wendetAn = some pending.id := by
    rw [Punkt.wendetAn, hc]
    rfl
  have hgespeichert : (p.store.saveIronDomePolicy c).gespeichert =
      p.store.gespeichert ++ [pending.id] := by
    rw [Ablage.saveIronDomePolicy, hc]
  have hneu : pending.id ∉ p.store.gespeichert := h.neu hj hid rfl
  have hx : Uebernimmt p i (some ⟨call, n, .markieren pending.id approvals⟩) :=
    Uebernimmt.weiter hj hid.symm rfl
  constructor
  · show (p.store.saveIronDomePolicy c).gespeichert.Nodup
    rw [hgespeichert]
    rw [← List.concat_eq_append]
    exact h.einmal.concat hneu
  · intro i' j' id hj' hid'
    obtain ⟨hungespeichert, hkeiner⟩ := h.frei_update hx (.of_gelesen rfl) hj' hid'
    refine ⟨?_, hkeiner⟩
    show id ∉ (p.store.saveIronDomePolicy c).gespeichert
    rw [hgespeichert, List.mem_append, List.mem_singleton, not_or]
    refine ⟨hungespeichert, ?_⟩
    rintro rfl
    exact hkeiner i _ (update_jobs_eq_some.mpr (.inl ⟨rfl, rfl⟩)) rfl
  · exact h.allein_update hx
  · intro i' j' id hj' hid' hvor
    show id ∉ (p.store.saveIronDomePolicy c).gespeichert
    rw [hgespeichert, List.mem_append, List.mem_singleton, not_or]
    rcases update_jobs_eq_some.mp hj' with ⟨-, hmark⟩ | ⟨hne, halt⟩
    · obtain rfl := Option.some.inj hmark
      cases hvor
    · refine ⟨h.neu halt hid' hvor, ?_⟩
      rintro rfl
      exact hne (h.allein halt hj hid' hid)
  · intro id hmem
    have hmem : id ∈ (p.store.saveIronDomePolicy c).gespeichert := hmem
    rw [hgespeichert, List.mem_append, List.mem_singleton] at hmem
    rcases hmem with hmem | rfl
    · rcases h.vermerkt id hmem with happlied | ⟨i', j, approvals', hj', hpunkt⟩
      · exact .inl happlied
      · refine .inr ⟨i', j, approvals', update_jobs_eq_some.mpr (.inr ⟨?_, hj'⟩), hpunkt⟩
        rintro rfl
        rw [hj] at hj'
        obtain rfl := Option.some.inj hj'
        cases hpunkt
    · exact .inr ⟨i, _, approvals, update_jobs_eq_some.mpr (.inl ⟨rfl, rfl⟩), rfl⟩

end

theorem wendetAn_punkt (c : Anfrage) : c.punkt.wendetAn = none := by
  cases c <;> rfl

theorem gelesen_punkt (c : Anfrage) : c.punkt.gelesen = none := by
  cases c <;> rfl

/-- A statement that leads on takes up no change, keeps the one of its request, or takes up
the change that it finds ready. -/
theorem Folge.wendetAn {q q' : Punkt} (h : Folge P B s q q') :
    q'.wendetAn = none ∨ q'.wendetAn = q.wendetAn ∧ q.vorSpeichern = true ∨
      ∃ pending xUserId, q = .pruefen pending xUserId ∧
        isReadyToApply (mitNamen pending xUserId) pending.cooloffUntil s.jetzt = true ∧
        q'.wendetAn = some pending.id := by
  cases h with
  | bereit hready => exact .inr (.inr ⟨_, _, rfl, hready, rfl⟩)
  | altLaden => exact .inr (.inl ⟨rfl, rfl⟩)
  | auditieren => exact .inr (.inl ⟨rfl, rfl⟩)
  | speichern hanlass =>
      refine .inr (.inl ⟨?_, rfl⟩)
      rw [Punkt.wendetAn, Punkt.wendetAn, hanlass]
      rfl
  | _ => exact .inl rfl

/-- A request that has read a change has just read it, and found it not applied. -/
theorem Folge.gelesen {q q' : Punkt} (h : Folge P B s q q') {id : String}
    (hid : q'.gelesen = some id) :
    ∃ xUserId row, q = .holen id xUserId ∧ s.getPending id = some row ∧ row.applied = false ∧
      mitNamen row xUserId ≠ [] := by
  cases h with
  | holen hrow hoffen =>
      rw [Punkt.gelesen] at hid
      split at hid
      next => cases hid
      next hzustimmung =>
        obtain rfl := Option.some.inj hid
        exact ⟨_, _, rfl, hrow, hoffen, hzustimmung⟩
  | _ => cases hid

/-- Only the save of an approved change is recorded as one, and it leads on. -/
theorem Zugriff.gespeichert {q : Punkt} {r : Punkt ⊕ Antwort} (h : Zugriff P B s q s' r) :
    s'.gespeichert = s.gespeichert ∨ ∃ c beleg pending approvals approver,
      q = .speichern c beleg ∧ s' = s.saveIronDomePolicy c ∧
        c.anlass = .freigabe pending approvals approver ∧
          r = .inl (.markieren pending.id approvals) := by
  cases h with
  | @speichern c beleg =>
      cases hc : c.anlass with
      | set =>
          left
          rw [Ablage.saveIronDomePolicy, hc]
      | freigabe pending approvals approver =>
          right
          refine ⟨c, beleg, pending, approvals, approver, rfl, rfl, hc, ?_⟩
          rw [nachSpeichern, hc]
  | _ => exact .inl rfl

theorem Zugriff.markiert {q : Punkt} {r : Punkt ⊕ Antwort} (h : Zugriff P B s q s' r)
    (hg : q.Gilt P B s call) {id : String} {approvals : List String}
    (hq : q = .markieren id approvals) :
    ∃ row, s'.getPending id = some row ∧ row.applied = true := by
  subst hq
  obtain ⟨row, hrow⟩ := hg
  cases h with
  | markieren =>
      refine ⟨{ row with approvals := approvals, applied := true }, ?_, rfl⟩
      rw [Ablage.markPendingApplied, getPending_mitZeile, hrow]
      · rw [Option.map_some, if_pos (getPending_eq_some hrow).2]
      · exact fun _ => rfl

/-- A step that changes no request and saves nothing. -/
theorem Einmal.store {p : Stand} (h : Einmal p) (hw : Waechst p.store s')
    (hs : s'.gespeichert = p.store.gespeichert) : Einmal { p with store := s' } where
  einmal := by
    rw [hs]
    exact h.einmal
  frei := by
    intro i j id hj hid
    rw [Frei, hs]
    exact h.frei hj hid
  allein := h.allein
  neu := by
    intro i j id hj hid hvor
    rw [hs]
    exact h.neu hj hid hvor
  vermerkt := by
    intro id hid
    rw [hs] at hid
    rcases h.vermerkt id hid with ⟨row, hrow, happlied⟩ | hmarke
    · obtain ⟨row', hrow', -, -, happlied'⟩ := hw.pending id row hrow
      exact .inl ⟨row', hrow', happlied' happlied⟩
    · exact .inr hmarke

/-- A change that is not marked and that nobody applies is free. -/
theorem Einmal.frei_of_offen {p : Stand} (h : Einmal p) {id : String} {row : PendingPolicyChange}
    (hrow : p.store.getPending id = some row) (hoffen : row.applied = false)
    (hjobs : ∀ i j, p.jobs i = some j → j.point.wendetAn ≠ some id) : Frei p id := by
  refine ⟨fun hid => ?_, hjobs⟩
  rcases h.vermerkt id hid with ⟨row', hrow', happlied⟩ | ⟨i, j, approvals, hj, hpunkt⟩
  · obtain rfl := Option.some.inj (hrow.symm.trans hrow')
    rw [hoffen] at happlied
    cases happlied
  · refine hjobs i j hj ?_
    rw [hpunkt]
    rfl

/-- A change that is found ready has been read with an approval. -/
theorem gelesen_of_ready {pending : PendingPolicyChange} {xUserId : String} {now : ℤ}
    (h : isReadyToApply (mitNamen pending xUserId) pending.cooloffUntil now = true) :
    (Punkt.pruefen pending xUserId).gelesen = some pending.id := by
  rw [Punkt.gelesen, if_neg]
  intro hnil
  rw [hnil] at h
  exact absurd (of_decide_eq_true h).1 (by decide)

theorem Einmal.schritt {p p' : Stand} {a : PoolAct Anfrage} (h : Einmal p)
    (hgilt : ∀ i j, p.jobs i = some j → j.point.Gilt P B p.store j.call)
    (hs : (system P B).step p a p') (hG : Geordnet P B p a p'.store) : Einmal p' := by
  cases hs with
  | @enter i c hi =>
      refine h.weiter (.refl p.store) rfl (.of_wendetAn (wendetAn_punkt c))
        (.of_gelesen (gelesen_punkt c)) ?_
      intro j id approvals hj
      rw [hi] at hj
      cases hj
  | @crash i =>
      refine h.weiter (.refl p.store) rfl .none .none ?_
      rintro ⟨call, n, q⟩ id approvals hj rfl
      exact absurd hj (hG.vermerkt i call n id approvals rfl)
  | idle hidle =>
      have hidle : VonSelbst _ _ := hidle
      refine h.store (VonSelbst.waechst hidle) ?_
      cases hidle
      rfl
  | @access i c n q s q' hi ha =>
      have ha : Zugriff P B _ _ _ _ := ha
      rcases ha.gespeichert with
        hgleich | ⟨d, beleg, pending, approvals, approver, rfl, rfl, hd, hr⟩
      · have hx : Uebernimmt p i (some ⟨c, n, q'⟩) := by
          rcases (ha.folge rfl).wendetAn with hnone | ⟨hid, hvor⟩ | ⟨pending, xUserId, rfl, hready, hid⟩
          · exact .of_wendetAn hnone
          · exact .weiter hi hid hvor
          · have hallein := hG.allein i c n pending xUserId rfl hi hready
            intro j id hj hjid
            obtain rfl := Option.some.inj hj
            obtain rfl : pending.id = id := Option.some.inj (hid.symm.trans hjid)
            exact .inr ⟨h.frei hi (gelesen_of_ready hready), hallein⟩
        have hl : Liest p (some ⟨c, n, q'⟩) := by
          intro j id hj hid
          obtain rfl := Option.some.inj hj
          obtain ⟨xUserId, row, rfl, hrow, hoffen, hzustimmung⟩ := (ha.folge rfl).gelesen hid
          exact h.frei_of_offen hrow hoffen (hG.danach i c n id xUserId row rfl hi hrow hzustimmung)
        refine h.weiter ha.waechst hgleich hx hl ?_
        intro j id approvals hj hpunkt
        rw [hi] at hj
        obtain rfl := Option.some.inj hj
        exact ha.markiert (hgilt i _ hi) hpunkt
      · obtain rfl := Sum.inl.inj hr
        exact h.save hi hd
  | @answer i c n q s a hi ha =>
      have ha : Zugriff P B _ _ _ _ := ha
      rcases ha.gespeichert with hgleich | ⟨d, beleg, pending, approvals, approver, -, -, -, hr⟩
      · refine h.weiter ha.waechst hgleich .none .none ?_
        intro j id approvals hj hpunkt
        rw [hi] at hj
        obtain rfl := Option.some.inj hj
        exact ha.markiert (hgilt i _ hi) hpunkt
      · cases hr

theorem einmal_of_reach {p : Stand} (h : ((system P B).restrict (guarded (Geordnet P B))).Reach p) :
    Einmal p := by
  refine h.invariant_with (J := fun p => ∀ i j, p.jobs i = some j →
    j.point.Gilt P B p.store j.call) (fun p hp i j hj => gilt_of_reach hp hj) ?_ ?_
  · rintro p ⟨⟨-, hleer⟩, hjobs, -⟩
    have hkeiner : ∀ i j, p.jobs i ≠ some j := by simp [hjobs]
    refine ⟨?_, fun hj => absurd hj (hkeiner _ _), fun hj => absurd hj (hkeiner _ _),
      fun hj => absurd hj (hkeiner _ _), ?_⟩
    · rw [hleer]
      exact List.nodup_nil
    · intro id hid
      rw [hleer] at hid
      cases hid
  · intro p a p' hgilt hp hs
    exact hp.schritt hgilt hs.1 hs.2

/-! ## Who loosens the policy in force -/

theorem not_lockernd_self (policy : Dict) : ¬Lockernd P B policy policy := by
  intro h
  obtain ⟨old, hold, h⟩ := Option.bind_eq_some_iff.mp h
  obtain ⟨new, hnew, h⟩ := Option.bind_eq_some_iff.mp h
  obtain rfl := Option.some.inj (hold.symm.trans hnew)
  have hgeklemmt := loadPolicy_geklemmt P B hold
  have hfalse := (lockert_eq_false_iff hgeklemmt hgeklemmt).mpr (.refl hgeklemmt)
  cases hfalse.symm.trans (Option.some.inj h)

/-- What does not loosen a policy does not loosen one that is as loose. -/
theorem not_lockernd_trans {policy oldPolicy effective : Dict}
    (h : ¬Lockernd P B policy oldPolicy)
    (h' : isLoosening P B (.objekt oldPolicy) (.objekt effective) = some false) :
    ¬Lockernd P B policy effective := by
  obtain ⟨q, r, hq, hr, hqr⟩ := isLoosening_eq_false P B h'
  intro hlockernd
  obtain ⟨p, hp, hlockernd⟩ := Option.bind_eq_some_iff.mp hlockernd
  obtain ⟨r', hr', hlockernd⟩ := Option.bind_eq_some_iff.mp hlockernd
  obtain rfl := Option.some.inj (hr.symm.trans hr')
  have hp' := loadPolicy_geklemmt P B hp
  have hq' := loadPolicy_geklemmt P B hq
  have hr'' := loadPolicy_geklemmt P B hr
  have hpq : lockert p q = false := by
    refine Bool.eq_false_iff.mpr fun hpq => h ?_
    rw [Lockernd, isLoosening_of_load P B hp hq, hpq]
  have hpr : Enger p r := ((lockert_eq_false_iff hp' hq').mp hpq).trans hqr
  cases ((lockert_eq_false_iff hp' hr'').mpr hpr).symm.trans (Option.some.inj hlockernd)

/-- Only a save changes the policy in force. -/
theorem Zugriff.policy {q : Punkt} {r : Punkt ⊕ Antwort} (h : Zugriff P B s q s' r) :
    s'.loadIronDomePolicyValue = s.loadIronDomePolicyValue ∨
      ∃ c beleg, q = .speichern c beleg ∧ s'.loadIronDomePolicyValue = c.effective := by
  cases h with
  | @speichern c beleg => exact .inr ⟨c, beleg, rfl, rfl⟩
  | _ => exact .inl rfl

/-- A save that loosens is approved by two admins. -/
theorem freigegeben_of_save {p : Stand} {i n : ℕ} {c : Aenderung} {beleg : ℕ}
    (hi : p.jobs i = some ⟨call, n, .speichern c beleg⟩)
    (hgilt : (Punkt.speichern c beleg).Gilt P B p.store call)
    (haktuell : c.anlass = .set → ¬Lockernd P B p.store.loadIronDomePolicyValue c.oldPolicy)
    (hlockernd : Lockernd P B p.store.loadIronDomePolicyValue c.effective) :
    Freigegeben p (.access i) := by
  obtain ⟨hanlass, haudit⟩ := hgilt
  cases hc : c.anlass with
  | set =>
      rw [hc] at hanlass
      exact absurd hlockernd (not_lockernd_trans (haktuell hc) hanlass)
  | freigabe pending approvals approver =>
      rw [hc] at hanlass haudit
      obtain ⟨hcall, ⟨row, hpending, hinitiator, hcooloff⟩, hzweiter, hzeit⟩ := hanlass
      obtain ⟨hrow, hid⟩ := getPending_eq_some hpending
      rw [hcall, ← hid] at hi
      refine .save hi hc hid.symm hrow (hinitiator ▸ hzweiter) (hcooloff ▸ hzeit) ?_
      rw [haudit, hinitiator]
      rfl

theorem freigegeben_of_lockernd {p p' : Stand} {a : PoolAct Anfrage}
    (hgilt : ∀ i j, p.jobs i = some j → j.point.Gilt P B p.store j.call)
    (hs : (system P B).step p a p') (hG : Geordnet P B p a p'.store)
    (hlockernd : Lockernd P B p.store.loadIronDomePolicyValue p'.store.loadIronDomePolicyValue) :
    Freigegeben p a := by
  have hzugriff : ∀ {i c n q s' r}, p.jobs i = some ⟨c, n, q⟩ → a = .access i →
      Zugriff P B p.store q s' r → p'.store = s' → Freigegeben p a := by
    intro i c n q s' r hi ha h hstore
    rw [hstore] at hlockernd
    rcases h.policy with hgleich | ⟨d, beleg, rfl, hneu⟩
    · rw [hgleich] at hlockernd
      exact absurd hlockernd (not_lockernd_self _)
    · rw [hneu] at hlockernd
      subst ha
      exact freigegeben_of_save hi (hgilt i _ hi) (hG.aktuell i c n d beleg rfl hi) hlockernd
  cases hs with
  | enter hi => exact absurd hlockernd (not_lockernd_self _)
  | crash => exact absurd hlockernd (not_lockernd_self _)
  | idle hidle =>
      have hidle : VonSelbst _ _ := hidle
      cases hidle
      exact absurd hlockernd (not_lockernd_self _)
  | access hi ha => exact hzugriff hi rfl ha rfl
  | answer hi ha => exact hzugriff hi rfl ha rfl

/-- In a run under the condition the policy in force is loosened only by the approve request
of a second admin, after the cool-off and with a record that names both, and each change is
saved once. -/
theorem vierAugen_gehalten {p : Stand}
    (h : ((system P B).restrict (guarded (Geordnet P B))).Reach p) :
    VierAugen P B ((system P B).restrict (guarded (Geordnet P B))) p where
  freigegeben := fun _ _ hs hlockernd =>
    freigegeben_of_lockernd (fun _ _ hj => gilt_of_reach h hj) hs.1 hs.2 hlockernd
  einmal := (einmal_of_reach h).einmal

/-! ## Requests that run alone -/

section

variable {C : Ablage → Punkt → Prop}

/-- A request to set a policy that does not loosen the one in force, up to its save. -/
theorem solo_set {p : Dict} {effective : IronDomePolicy}
    (hp : loadPolicy P B (.objekt p) = some effective)
    (hlockert : isLoosening P B (.objekt s.loadIronDomePolicyValue) (.objekt effective.asdict) =
      some false)
    (hC : ∀ s q, C s q) :
    (router P B).Solo C s (.laden p)
      { s with
        audit := s.audit ++ [⟨s.loadIronDomePolicyValue, effective.asdict, "iron_dome_admin"⟩] }
      (.inl (.speichern ⟨s.loadIronDomePolicyValue, effective.asdict, .set⟩ s.audit.length)) := by
  have hladen : Zugriff P B s (.laden p) s _ := .laden
  have hnach : nachLaden P B p s.loadIronDomePolicyValue =
      .inl (.auditieren ⟨s.loadIronDomePolicyValue, effective.asdict, .set⟩) := by
    simp only [nachLaden, hp, hlockert]
  rw [hnach] at hladen
  exact .next (hC _ _) hladen (.next (hC _ _) .auditieren .stop)

theorem solo_propose {p : Dict} {xUserId pendingId : String} {effective : IronDomePolicy}
    (hp : loadPolicy P B (.objekt p) = some effective) (hx : xUserId ≠ "")
    (hfrei : s.getPending pendingId = none)
    (hvorschlagen : C s (.vorschlagen p xUserId)) (hanlegen : ∀ row, C s (.anlegen row)) :
    (router P B).Solo C s (.vorschlagen p xUserId)
      { s with pending := s.pending ++
        [⟨pendingId, xUserId, effective.asdict, [], s.jetzt + cooloff, false⟩] }
      (.inr (.vorgeschlagen pendingId (s.jetzt + cooloff))) := by
  have hvor : Zugriff P B s (.vorschlagen p xUserId) s _ := .vorschlagen pendingId
  have hnach : nachVorschlagen P B p xUserId pendingId s.jetzt =
      .inl (.anlegen ⟨pendingId, xUserId, effective.asdict, [], s.jetzt + cooloff, false⟩) := by
    simp only [nachVorschlagen, if_neg hx, hp]
  rw [hnach] at hvor
  exact .next hvorschlagen hvor (.answer (hanlegen _) (.anlegen hfrei))

/-- An approve request up to the decision whether the change is ready. -/
theorem solo_pruefen {row : PendingPolicyChange} {xUserId : String}
    (hrow : s.getPending row.id = some row) (hx : xUserId ≠ "") (hoffen : row.applied = false)
    (hholen : C s (.holen row.id xUserId)) (hpruefen : C s (.pruefen row xUserId)) :
    (router P B).Solo C s (.holen row.id xUserId) s
      (.inl (nachPruefen row xUserId s.jetzt)) := by
  have hholt : Zugriff P B s (.holen row.id xUserId) s _ := .holen
  have hnach : nachHolen (s.getPending row.id) xUserId = .inl (.pruefen row xUserId) := by
    simp only [nachHolen, hrow, if_neg hx, hoffen]
    rfl
  rw [hnach] at hholt
  exact .next hholen hholt (.next hpruefen .pruefen .stop)

/-- An approve request of a change that is not ready. -/
theorem solo_nachtragen {row : PendingPolicyChange} {xUserId : String}
    (hrow : s.getPending row.id = some row) (hx : xUserId ≠ "") (hoffen : row.applied = false)
    (hfrueh : isReadyToApply (mitNamen row xUserId) row.cooloffUntil s.jetzt = false)
    (hC : ∀ s q, C s q) :
    (router P B).Solo C s (.holen row.id xUserId)
      (s.updatePendingApprovals row.id (mitNamen row xUserId))
      (.inr (.offen (mitNamen row xUserId))) := by
  have hsolo : (router P B).Solo C s (.holen row.id xUserId) s _ :=
    solo_pruefen hrow hx hoffen (hC _ _) (hC _ _)
  have hnach : nachPruefen row xUserId s.jetzt = .nachtragen row.id (mitNamen row xUserId) := by
    simp [nachPruefen, hfrueh]
  rw [hnach] at hsolo
  exact hsolo.trans rfl (.answer (hC _ _) .nachtragen)

/-- An approve request that applies its change, up to its save. -/
theorem solo_apply {pending : PendingPolicyChange} {approvals : List String} {xUserId : String}
    (hladen : C s (.altLaden pending approvals xUserId)) (haudit : ∀ c, C s (.auditieren c)) :
    (router P B).Solo C s (.altLaden pending approvals xUserId)
      { s with audit := s.audit ++ [⟨s.loadIronDomePolicyValue, pending.requestedPolicy,
        pending.initiator ++ "->" ++ xUserId⟩] }
      (.inl (.speichern ⟨s.loadIronDomePolicyValue, pending.requestedPolicy,
        .freigabe pending approvals xUserId⟩ s.audit.length)) :=
  .next hladen .altLaden (.next (haudit _) .auditieren .stop)

/-- The save of an approved change. -/
theorem solo_save {c : Aenderung} {beleg : ℕ} {pending : PendingPolicyChange}
    {approvals : List String} {approver : String}
    (hc : c.anlass = .freigabe pending approvals approver) (hsave : C s (.speichern c beleg)) :
    (router P B).Solo C s (.speichern c beleg) (s.saveIronDomePolicy c)
      (.inl (.markieren pending.id approvals)) := by
  have hspeichern : Zugriff P B s (.speichern c beleg) _ _ := .speichern
  have hnach : nachSpeichern c = .inl (.markieren pending.id approvals) := by
    simp only [nachSpeichern, hc]
  rw [hnach] at hspeichern
  exact .next hsave hspeichern .stop

end

theorem step_save {p : Stand} {i n : ℕ} {c : Aenderung} {beleg : ℕ}
    {pending : PendingPolicyChange} {approvals : List String} {approver : String}
    (hi : p.jobs i = some ⟨call, n, .speichern c beleg⟩)
    (hc : c.anlass = .freigabe pending approvals approver) :
    (system P B).step p (.access i) (p.after i call n (p.store.saveIronDomePolicy c)
      (.inl (.markieren pending.id approvals))) := by
  have hspeichern : Zugriff P B p.store (.speichern c beleg) _ _ := .speichern
  have hnach : nachSpeichern c = .inl (.markieren pending.id approvals) := by
    simp only [nachSpeichern, hc]
  rw [hnach] at hspeichern
  exact .access hi hspeichern

/-! ## A run under the condition -/

/-- A point that keeps the condition where no other request runs. -/
def Brav (_ : Ablage) (q : Punkt) : Prop :=
  (∀ c beleg, q = .speichern c beleg → c.anlass ≠ .set) ∧
    ∀ pending xUserId, q = .pruefen pending xUserId → xUserId ≠ pending.initiator

theorem geordnet_of_brav {q : Punkt} (h : Brav s q) {l : List (Done Anfrage Antwort)} {i n : ℕ} :
    Geordnet P B ⟨s, Function.update (fun _ => none) i (some ⟨call, n, q⟩), l⟩ (.access i) s' := by
  have hpunkt : ∀ {i'} {j : Job Anfrage Punkt},
      Function.update (fun _ => none) i (some ⟨call, n, q⟩) i' = some j → j.point = q := by
    intro i' j hj
    rcases update_jobs_eq_some.mp hj with ⟨-, hj⟩ | ⟨-, hj⟩
    · obtain rfl := Option.some.inj hj
      rfl
    · cases hj
  refine ⟨?_, ?_, ?_, ?_, ?_⟩
  · intro i' call' n' c beleg _ hj hset
    exact absurd hset (h.1 c beleg (hpunkt hj).symm)
  · intro i' call' n' pending _ hj
    exact absurd rfl (h.2 pending _ (hpunkt hj).symm)
  · intro i' call' n' pendingId xUserId row _ hj _ _ i'' j hj' hid
    obtain rfl := hpunkt hj
    rw [hpunkt hj'] at hid
    cases hid
  · intro i' call' n' pending xUserId ha _ _ i'' j hne hj'
    obtain rfl := PoolAct.access.inj ha
    have hj' : Function.update (fun _ => none) i (some ⟨call, n, q⟩) i'' = some j := hj'
    rcases update_jobs_eq_some.mp hj' with ⟨hi, -⟩ | ⟨-, hj'⟩
    · exact absurd hi hne
    · cases hj'
  · intro i' call' n' pendingId approvals ha
    cases ha

theorem geordnet_of_ne {p : Stand} {a : PoolAct Anfrage} (hzugriff : ∀ i, a ≠ .access i)
    (hcrash : ∀ i, a ≠ .crash i) : Geordnet P B p a s' :=
  ⟨fun i _ _ _ _ ha => absurd ha (hzugriff i), fun i _ _ _ ha => absurd ha (hzugriff i),
    fun i _ _ _ _ _ ha => absurd ha (hzugriff i), fun i _ _ _ _ ha => absurd ha (hzugriff i),
    fun i _ _ _ _ ha => absurd ha (hcrash i)⟩

def tagesgrenze (q : ℚ) : Dict := [("daily_drawdown_pct", .zahl (.of q))]

def mitGrenze (q : ℚ) : IronDomePolicy := { strictDefault with dailyDrawdownPct := .of q }

theorem loadPolicy_tagesgrenze : ∀ q ∈ [(20 / 100 : ℚ), 15 / 100, 10 / 100],
    loadPolicy ohneZahlen auslieferung (.objekt (tagesgrenze q)) = some (mitGrenze q) := by
  decide +kernel

def leer : Ablage := ⟨none, [], [], 0, []⟩

/-- The proposal of a daily limit of twenty percent. -/
def antrag : PendingPolicyChange :=
  ⟨"a", "alice", (mitGrenze (20 / 100)).asdict, [], cooloff, false⟩

def beantragt : Ablage := { leer with pending := [antrag] }

def nachFrist : Ablage := { beantragt with jetzt := cooloff }

/-- Nothing runs, and one proposal was made. -/
def vorgelegt (s : Ablage) : Stand :=
  ⟨s, fun _ => none,
    [⟨0, .propose (tagesgrenze (20 / 100)) "alice", 0, .vorgeschlagen "a" cooloff⟩]⟩

abbrev geordnet : System Stand (PoolAct Anfrage) :=
  (system ohneZahlen auslieferung).restrict (guarded (Geordnet ohneZahlen auslieferung))

theorem beantragt_reach : geordnet.Reach (vorgelegt beantragt) := by
  have hstart : geordnet.Reach ⟨leer, fun _ => none, []⟩ := .start ⟨⟨rfl, rfl⟩, fun _ => rfl, rfl⟩
  refine alone_reach hstart (C := Brav) ?_ (geordnet_of_ne (by simp) (by simp))
    fun s q s' hb => geordnet_of_brav hb
  exact solo_propose (loadPolicy_tagesgrenze _ (by simp)) (by decide) rfl ⟨by simp, by simp⟩
    fun row => ⟨by simp, by simp⟩

theorem nachFrist_reach : geordnet.Reach (vorgelegt nachFrist) :=
  .step beantragt_reach ⟨Machine.PoolStep.idle (VonSelbst.uhr (by decide)),
    geordnet_of_ne (by simp) (by simp)⟩

/-- Another admin finds the proposal ready after the cool-off. -/
theorem solo_bereit {C : Ablage → Punkt → Prop} {x : String} (hx : x ≠ "") (halice : x ≠ "alice")
    (hrow : s.getPending "a" = some antrag) (hzeit : s.jetzt = cooloff)
    (hholen : C s (.holen "a" x)) (hpruefen : C s (.pruefen antrag x)) :
    (router P B).Solo C s (.holen "a" x) s (.inl (.altLaden antrag [x] x)) := by
  have hsolo : (router P B).Solo C s (.holen antrag.id x) s _ :=
    solo_pruefen hrow hx rfl hholen hpruefen
  have hnamen : mitNamen antrag x = [x] := by simp [mitNamen, addApproval, antrag, halice]
  have hready : isReadyToApply [x] antrag.cooloffUntil s.jetzt = true := by
    rw [hzeit]
    rfl
  rw [nachPruefen, hnamen, if_pos hready] at hsolo
  exact hsolo

/-- The change of the proposal, by another admin. -/
def aenderung (x : String) : Aenderung :=
  ⟨[], (mitGrenze (20 / 100)).asdict, .freigabe antrag [x] x⟩

/-- The record of the change was written. -/
def belegt (x : String) : Ablage :=
  { nachFrist with audit := [⟨[], (mitGrenze (20 / 100)).asdict, "alice" ++ "->" ++ x⟩] }

/-- Another admin is about to save the change. -/
def vorSave (x : String) : Stand :=
  (vorgelegt nachFrist).after 0 (.approve "a" x) 1 (belegt x) (.inl (.speichern (aenderung x) 0))

theorem vorSave_reach : geordnet.Reach (vorSave "bob") := by
  have hbrav : ∀ q, (∀ c beleg, q = .speichern c beleg → c.anlass ≠ .set) →
      (∀ pending x, q = .pruefen pending x →
      pending = antrag ∧ x = "bob") → Brav nachFrist q := by
    intro q hspeichern hpruefen
    refine ⟨hspeichern, fun pending x hq => ?_⟩
    obtain ⟨rfl, rfl⟩ := hpruefen pending x hq
    decide
  have hbereit : (router ohneZahlen auslieferung).Solo Brav nachFrist (.holen "a" "bob") nachFrist
      (.inl (.altLaden antrag ["bob"] "bob")) :=
    solo_bereit (by decide) (by decide) rfl rfl (hbrav _ (by simp) (by simp)) (hbrav _ (by simp)
      (by simp))
  have happly : (router ohneZahlen auslieferung).Solo Brav nachFrist
      (.altLaden antrag ["bob"] "bob") _ _ :=
    solo_apply (hbrav _ (by simp) (by simp)) fun c => hbrav _ (by simp) (by simp)
  exact call_reach nachFrist_reach rfl (hbereit.trans rfl happly)
    (geordnet_of_ne (by simp) (by simp)) fun s q s' hb => geordnet_of_brav hb

theorem lockernd_zwanzig :
    Lockernd ohneZahlen auslieferung [] (mitGrenze (20 / 100)).asdict := by
  unfold Lockernd
  decide +kernel

/-- Bob approves what alice has proposed. -/
theorem bob_gibt_frei : Freigegeben (vorSave "bob") (.access 0) :=
  (vierAugen_gehalten vorSave_reach).freigegeben _ _
    ⟨step_save (Pool.jobs_after _ 0 _ 1 _ _) rfl, geordnet_of_brav ⟨by simp [aenderung], by simp⟩⟩
    lockernd_zwanzig

/-! ## Runs against the promise -/

abbrev beliebig : System Stand (PoolAct Anfrage) :=
  (system ohneZahlen auslieferung).restrict (guarded fun _ _ _ => True)

theorem beliebig_of_geordnet {p : Stand} (h : geordnet.Reach p) : beliebig.Reach p :=
  h.of_restrict.restrict_of_forall fun _ _ _ _ => trivial

/-- The proposal with bob's approval, after the cool-off. -/
def bestaetigt : Ablage :=
  { leer with pending := [{ antrag with approvals := ["bob"] }], jetzt := cooloff }

/-- Bob approves before the cool-off, and alice applies her own change after it. -/
theorem selbst_freigegeben :
    ∃ p p', (system ohneZahlen auslieferung).Reach p ∧
      (system ohneZahlen auslieferung).step p (.access 0) p' ∧
      Lockernd ohneZahlen auslieferung p.store.loadIronDomePolicyValue
        p'.store.loadIronDomePolicyValue ∧
      ∃ n q, p.jobs 0 = some ⟨.approve "a" "alice", n, q⟩ ∧
        ∀ row ∈ p.store.pending, row.initiator = "alice" := by
  have hbob : (router ohneZahlen auslieferung).Solo (fun _ _ => True) beantragt
      (.holen antrag.id "bob") { bestaetigt with jetzt := 0 } (.inr (.offen ["bob"])) :=
    solo_nachtragen rfl (by decide) rfl (by decide) fun _ _ => trivial
  have hbestaetigt := alone_reach (i := 0) (c := .approve "a" "bob")
    (beliebig_of_geordnet beantragt_reach) hbob trivial fun _ _ _ _ => trivial
  have huhr : VonSelbst { bestaetigt with jetzt := 0 } bestaetigt := .uhr (by decide)
  have hfrist := System.Reach.step hbestaetigt ⟨Machine.PoolStep.idle huhr, trivial⟩
  have hbereit : (router ohneZahlen auslieferung).Solo (fun _ _ => True) bestaetigt
      (.holen { antrag with approvals := ["bob"] }.id "alice") bestaetigt
      (.inl (.altLaden { antrag with approvals := ["bob"] } ["bob"] "alice")) :=
    solo_pruefen rfl (by decide) rfl trivial trivial
  have happly := hbereit.trans rfl (solo_apply trivial fun _ => trivial)
  have hreach := call_reach (i := 0) (c := .approve "a" "alice") hfrist rfl happly trivial
    fun _ _ _ _ => trivial
  refine ⟨_, _, hreach.of_restrict, step_save (Pool.jobs_after _ 0 _ _ _ _) rfl, lockernd_zwanzig,
    _, _, Pool.jobs_after _ 0 _ _ _ _, ?_⟩
  intro row hrow
  obtain rfl := List.mem_singleton.mp hrow
  rfl

/-- An approve request applies its change, up to its mark. -/
theorem solo_anwenden {pending : PendingPolicyChange} {approvals : List String} {x : String} :
    (router P B).Solo (fun _ _ => True) s (.altLaden pending approvals x)
      { s with
        policy := some pending.requestedPolicy
        audit := s.audit ++ [⟨s.loadIronDomePolicyValue, pending.requestedPolicy,
          pending.initiator ++ "->" ++ x⟩]
        gespeichert := s.gespeichert ++ [pending.id] }
      (.inl (.markieren pending.id approvals)) :=
  (solo_apply trivial fun _ => trivial).trans rfl (solo_save rfl trivial)

/-- Bob and carol both find the change not yet applied. -/
theorem doppelt_gespeichert :
    ∃ p, (system ohneZahlen auslieferung).Reach p ∧ p.store.gespeichert = ["a", "a"] := by
  have hbereit : ∀ x, x ≠ "" → x ≠ "alice" → (router ohneZahlen auslieferung).Solo
      (fun _ _ => True) nachFrist (.holen "a" x) nachFrist (.inl (.altLaden antrag [x] x)) :=
    fun x hx halice => solo_bereit hx halice rfl rfl trivial trivial
  have hbob := call_reach (i := 1) (c := .approve "a" "bob") (beliebig_of_geordnet nachFrist_reach)
    rfl (hbereit "bob" (by decide) (by decide)) trivial fun _ _ _ _ => trivial
  have hcarol := call_reach (i := 0) (c := .approve "a" "carol") hbob rfl
    ((hbereit "carol" (by decide) (by decide)).trans rfl
      (solo_anwenden.trans rfl (.answer trivial .markieren))) trivial fun _ _ _ _ => trivial
  have hdanach := solo_reach (i := 1) hcarol rfl solo_anwenden fun _ _ _ _ => trivial
  exact ⟨_, hdanach.of_restrict, rfl⟩

/-- One admin tightens the policy in force between the load and the save of another one. -/
theorem gesetzt_lockert :
    ∃ p p', (system ohneZahlen auslieferung).Reach p ∧
      (system ohneZahlen auslieferung).step p (.access 0) p' ∧
      Lockernd ohneZahlen auslieferung p.store.loadIronDomePolicyValue
        p'.store.loadIronDomePolicyValue ∧
      ∃ n q, p.jobs 0 = some ⟨.set (tagesgrenze (15 / 100)), n, q⟩ := by
  have hstart : beliebig.Reach ⟨leer, fun _ => none, []⟩ :=
    .start ⟨⟨rfl, rfl⟩, fun _ => rfl, rfl⟩
  have hfuenfzehn := call_reach (i := 0) (c := .set (tagesgrenze (15 / 100))) hstart rfl
    (solo_set (loadPolicy_tagesgrenze _ (by simp)) (by decide +kernel) fun _ _ => trivial) trivial
    fun _ _ _ _ => trivial
  have hzehn := call_reach (i := 1) (c := .set (tagesgrenze (10 / 100))) hfuenfzehn rfl
    ((solo_set (loadPolicy_tagesgrenze _ (by simp)) (by decide +kernel) fun _ _ => trivial).trans rfl
      (.answer trivial .speichern)) trivial fun _ _ _ _ => trivial
  refine ⟨_, _, hzehn.of_restrict, Machine.PoolStep.answer rfl Zugriff.speichern, ?_, _, _, rfl⟩
  show Lockernd ohneZahlen auslieferung (mitGrenze (10 / 100)).asdict (mitGrenze (15 / 100)).asdict
  unfold Lockernd
  decide +kernel

/-- An admin who sets a policy loosens the one in force, an initiator applies the own change,
and a change is saved twice. -/
theorem vierAugen_verletzt :
    (∃ p, (system ohneZahlen auslieferung).Reach p ∧
      ¬VierAugen ohneZahlen auslieferung (system ohneZahlen auslieferung) p ∧
      ∃ n q, p.jobs 0 = some ⟨.set (tagesgrenze (15 / 100)), n, q⟩) ∧
    (∃ p, (system ohneZahlen auslieferung).Reach p ∧
      ¬VierAugen ohneZahlen auslieferung (system ohneZahlen auslieferung) p ∧
      ∃ n q, p.jobs 0 = some ⟨.approve "a" "alice", n, q⟩) ∧
    ∃ p, (system ohneZahlen auslieferung).Reach p ∧
      ¬VierAugen ohneZahlen auslieferung (system ohneZahlen auslieferung) p ∧
      p.store.gespeichert = ["a", "a"] := by
  refine ⟨?_, ?_, ?_⟩
  · obtain ⟨p, p', hp, hs, hlockernd, n, q, hj⟩ := gesetzt_lockert
    refine ⟨p, hp, fun h => ?_, n, q, hj⟩
    cases h.freigegeben _ _ hs hlockernd with
    | save job => cases hj.symm.trans job
  · obtain ⟨p, p', hp, hs, hlockernd, n, q, hj, halice⟩ := selbst_freigegeben
    refine ⟨p, hp, fun h => ?_, n, q, hj⟩
    cases h.freigegeben _ _ hs hlockernd with
    | @save _ _ row _ _ approver _ _ job _ _ zeile zweiter =>
        have happrover : approver = "alice" := by
          have hcall := Option.some.inj (hj.symm.trans job)
          simp only [Job.mk.injEq, Anfrage.approve.injEq] at hcall
          exact hcall.1.2.symm
        exact zweiter (happrover.trans (halice row zeile).symm)
  · obtain ⟨p, hp, hdoppelt⟩ := doppelt_gespeichert
    refine ⟨p, hp, fun h => ?_, hdoppelt⟩
    have heinmal := h.einmal
    rw [hdoppelt] at heinmal
    simp at heinmal

end IronDome
