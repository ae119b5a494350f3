import AutonomousEngine.IronDome.Antrag

/-!
# Four eyes

The policy in force is to be loosened only by an approve request of a second admin,
after the cool-off, with an audit record that names both admins, and each change is to
be saved once (`VierAugen`).

Three things stand against it.  A request that sets a policy compares it with the one it
has loaded, and another save may tighten the policy in force before it saves.  A change
is ready once its list of approvals is not empty, whoever asks, so its own initiator
applies it when another admin has approved it before.  And a change counts as applied
only after its save, so two approve requests of it that overlap may both find that it is
not.

Under the condition that none of this happens (`Geordnet`) the promise is kept.
-/

namespace IronDome

open Basis

variable (P : Python) (B : Betrieb)

/-! ## The promise -/

def Lockernd (oldPolicy newPolicy : Dict) : Prop :=
  isLoosening P B (.objekt oldPolicy) (.objekt newPolicy) = some true

/-- A step is the save of an approve request by a second admin, after the cool-off, and the
record of it names both. -/
inductive Freigegeben (p : Stand) : PoolAct Anfrage → Prop where
  | save {i n row pending approvals approver c beleg}
      (job : p.jobs i = some ⟨.approve row.id approver, n, .speichern c beleg⟩)
      (anlass : c.anlass = .freigabe pending approvals approver) (id : pending.id = row.id)
      (zeile : row ∈ p.store.pending) (zweiter : approver ≠ row.initiator)
      (cooloff : row.cooloffUntil ≤ p.store.jetzt)
      (audit : p.store.audit[beleg]? =
        some ⟨c.oldPolicy, c.effective, row.initiator ++ "->" ++ approver⟩) :
      Freigegeben p (.access i)

/-- Every step of a system that loosens the policy in force is approved by two admins, and
no change has been saved twice. -/
structure VierAugen (S : System Stand (PoolAct Anfrage)) (p : Stand) : Prop where
  freigegeben : ∀ a p', S.step p a p' →
    Lockernd P B p.store.loadIronDomePolicyValue p'.store.loadIronDomePolicyValue →
      Freigegeben p a
  einmal : p.store.gespeichert.Nodup

/-! ## The condition -/

def Anlass.pendingId : Anlass → Option String
  | .set => none
  | .freigabe pending _ _ => some pending.id

/-- The change that a request is about to apply. -/
def Punkt.wendetAn : Punkt → Option String
  | .altLaden pending _ _ => some pending.id
  | .auditieren c => c.anlass.pendingId
  | .speichern c _ => c.anlass.pendingId
  | .markieren pendingId _ => some pendingId
  | _ => none

/-- The change that a request has read and brings an approval for. -/
def Punkt.gelesen : Punkt → Option String
  | .pruefen pending xUserId => if mitNamen pending xUserId = [] then none else some pending.id
  | _ => none

/-- A request that sets a policy saves only while the policy in force is not tighter than
the one it has loaded.  No initiator finds the own change ready.  Approve requests that bring
an approval for one change do not overlap: none reads the change while another one applies
it, and none finds it ready while another one has read it.  And no request dies between its
save and its mark. -/
structure Geordnet (p : Stand) (a : PoolAct Anfrage) (_ : Ablage) : Prop where
  aktuell : ∀ i call n c beleg, a = .access i → p.jobs i = some ⟨call, n, .speichern c beleg⟩ →
    c.anlass = .set → ¬Lockernd P B p.store.loadIronDomePolicyValue c.oldPolicy
  zweiter : ∀ i call n pending, a = .access i →
    p.jobs i = some ⟨call, n, .pruefen pending pending.initiator⟩ →
      isReadyToApply pending.approvals pending.cooloffUntil p.store.jetzt = false
  danach : ∀ i call n pendingId xUserId row, a = .access i →
    p.jobs i = some ⟨call, n, .holen pendingId xUserId⟩ → p.store.getPending pendingId = some row →
    mitNamen row xUserId ≠ [] → ∀ i' j, p.jobs i' = some j → j.point.wendetAn ≠ some pendingId
  allein : ∀ i call n pending xUserId, a = .access i →
    p.jobs i = some ⟨call, n, .pruefen pending xUserId⟩ →
    isReadyToApply (mitNamen pending xUserId) pending.cooloffUntil p.store.jetzt = true →
      ∀ i' j, i' ≠ i → p.jobs i' = some j → j.point.gelesen ≠ some pending.id
  vermerkt : ∀ i call n pendingId approvals, a = .crash i →
    p.jobs i ≠ some ⟨call, n, .markieren pendingId approvals⟩

/-! ## What the tables keep -/

/-- A proposal as it was read is in the table, but for its approvals. -/
def Bekannt (s : Ablage) (pending : PendingPolicyChange) : Prop :=
  ∃ row, s.getPending pending.id = some row ∧ row.initiator = pending.initiator ∧
    row.cooloffUntil = pending.cooloffUntil

theorem getPending_mitZeile (s : Ablage) (pendingId id : String)
    {f : PendingPolicyChange → PendingPolicyChange} (hid : ∀ row, (f row).id = row.id) :
    (s.mitZeile pendingId f).getPending id =
      (s.getPending id).map fun row => if row.id = pendingId then f row else row := by
  have hcomp : ((fun row : PendingPolicyChange => decide (row.id = id)) ∘
      fun row => if row.id = pendingId then f row else row) =
        fun row : PendingPolicyChange => decide (row.id = id) := by
    funext row
    rw [Function.comp_apply]
    split
    next => rw [hid]
    next => rfl
  rw [Ablage.getPending, Ablage.mitZeile, List.find?_map, hcomp]
  rfl

/-- Records and proposals stay, and time does not go back. -/
structure Waechst (s s' : Ablage) : Prop where
  audit : ∀ (k : ℕ) e, s.audit[k]? = some e → s'.audit[k]? = some e
  pending : ∀ id row, s.getPending id = some row → ∃ row', s'.getPending id = some row' ∧
    row'.initiator = row.initiator ∧ row'.cooloffUntil = row.cooloffUntil ∧
      (row.applied = true → row'.applied = true)
  jetzt : s.jetzt ≤ s'.jetzt

namespace Waechst

variable {s s' : Ablage}

theorem refl (s : Ablage) : Waechst s s :=
  ⟨fun _ _ h => h, fun _ row h => ⟨row, h, rfl, rfl, id⟩, le_rfl⟩

theorem bekannt (h : Waechst s s') {pending : PendingPolicyChange} (hb : Bekannt s pending) :
    Bekannt s' pending := by
  obtain ⟨row, hrow, hinitiator, hcooloff⟩ := hb
  obtain ⟨row', hrow', hinitiator', hcooloff', -⟩ := h.pending _ row hrow
  exact ⟨row', hrow', hinitiator'.trans hinitiator, hcooloff'.trans hcooloff⟩

theorem mitZeile (s : Ablage) (pendingId : String) {f : PendingPolicyChange → PendingPolicyChange}
    (hid : ∀ row, (f row).id = row.id) (hinitiator : ∀ row, (f row).initiator = row.initiator)
    (hcooloff : ∀ row, (f row).cooloffUntil = row.cooloffUntil)
    (happlied : ∀ row, row.applied = true → (f row).applied = true) :
    Waechst s (s.mitZeile pendingId f) := by
  refine ⟨fun _ _ h => h, ?_, le_rfl⟩
  intro id row hrow
  refine ⟨_, by rw [getPending_mitZeile s pendingId id hid, hrow]; rfl, ?_⟩
  dsimp only
  split
  next => exact ⟨hinitiator row, hcooloff row, happlied row⟩
  next => exact ⟨rfl, rfl, fun h => h⟩

end Waechst

variable {P B} in
theorem Zugriff.waechst {s s' : Ablage} {q : Punkt} {r : Punkt ⊕ Antwort}
    (h : Zugriff P B s q s' r) : Waechst s s' := by
  cases h with
  | anlegen _ =>
      refine ⟨fun _ _ h => h, fun id row hrow => ⟨row, ?_, rfl, rfl, fun h => h⟩, le_rfl⟩
      rw [Ablage.getPending] at hrow
      rw [Ablage.getPending, List.find?_append, hrow]
      rfl
  | auditieren =>
      refine ⟨fun k e h => ?_, (Waechst.refl s).pending, le_rfl⟩
      rw [List.getElem?_append_left (List.getElem?_eq_some_iff.mp h).1]
      exact h
  | speichern => exact ⟨fun _ _ h => h, (Waechst.refl s).pending, le_rfl⟩
  | markieren =>
      exact .mitZeile s _ (fun _ => rfl) (fun _ => rfl) (fun _ => rfl) fun _ _ => rfl
  | nachtragen =>
      exact .mitZeile s _ (fun _ => rfl) (fun _ => rfl) (fun _ => rfl) fun _ h => h
  | _ => exact .refl s

theorem VonSelbst.waechst {s s' : Ablage} (h : VonSelbst s s') : Waechst s s' := by
  cases h with
  | uhr hle => exact ⟨fun _ _ h => h, (Waechst.refl s).pending, hle⟩

/-! ## What holds of a request -/

/-- An approve request of a second admin, after the cool-off. -/
structure Freigebend (s : Ablage) (call : Anfrage) (pending : PendingPolicyChange)
    (approver : String) : Prop where
  call : call = .approve pending.id approver
  bekannt : Bekannt s pending
  zweiter : approver ≠ pending.initiator
  cooloff : pending.cooloffUntil ≤ s.jetzt

def Anlass.Gilt (s : Ablage) (call : Anfrage) (oldPolicy effective : Dict) : Anlass → Prop
  | .set => isLoosening P B (.objekt oldPolicy) (.objekt effective) = some false
  | .freigabe pending _ approver => Freigebend s call pending approver

def Punkt.Gilt (s : Ablage) (call : Anfrage) : Punkt → Prop
  | .holen pendingId xUserId => call = .approve pendingId xUserId
  | .pruefen pending xUserId => call = .approve pending.id xUserId ∧ Bekannt s pending
  | .altLaden pending _ xUserId => Freigebend s call pending xUserId
  | .auditieren c => c.anlass.Gilt P B s call c.oldPolicy c.effective
  | .speichern c beleg => c.anlass.Gilt P B s call c.oldPolicy c.effective ∧
      s.audit[beleg]? = some ⟨c.oldPolicy, c.effective, c.anlass.actor⟩
  | .markieren pendingId _ => ∃ row, s.getPending pendingId = some row
  | _ => True

variable {P B} {s s' : Ablage} {call : Anfrage}

theorem Freigebend.waechst {pending : PendingPolicyChange} {approver : String}
    (h : Freigebend s call pending approver) (hw : Waechst s s') :
    Freigebend s' call pending approver :=
  ⟨h.call, hw.bekannt h.bekannt, h.zweiter, h.cooloff.trans hw.jetzt⟩

theorem Anlass.Gilt.waechst {oldPolicy effective : Dict} {anlass : Anlass}
    (h : anlass.Gilt P B s call oldPolicy effective) (hw : Waechst s s') :
    anlass.Gilt P B s' call oldPolicy effective := by
  cases anlass with
  | set => exact h
  | freigabe pending approvals approver => exact Freigebend.waechst h hw

theorem Punkt.Gilt.waechst {q : Punkt} (h : q.Gilt P B s call) (hw : Waechst s s') :
    q.Gilt P B s' call := by
  cases q with
  | pruefen pending xUserId => exact ⟨h.1, hw.bekannt h.2⟩
  | altLaden pending approvals xUserId => exact Freigebend.waechst h hw
  | auditieren c => exact Anlass.Gilt.waechst h hw
  | speichern c beleg => exact ⟨h.1.waechst hw, hw.audit beleg _ h.2⟩
  | markieren pendingId approvals =>
      obtain ⟨row, hrow⟩ := h
      obtain ⟨row', hrow', -⟩ := hw.pending _ row hrow
      exact ⟨row', hrow'⟩
  | _ => exact h

theorem getPending_eq_some {pendingId : String} {row : PendingPolicyChange}
    (h : s.getPending pendingId = some row) : row ∈ s.pending ∧ row.id = pendingId :=
  ⟨List.mem_of_find?_eq_some h, by simpa using List.find?_some h⟩

/-! ## Where a statement leads -/

theorem nachLaden_eq {p oldPolicy : Dict} {q : Punkt}
    (h : nachLaden P B p oldPolicy = .inl q) :
    ∃ effective, q = .auditieren ⟨oldPolicy, effective, .set⟩ ∧
      isLoosening P B (.objekt oldPolicy) (.objekt effective) = some false := by
  unfold nachLaden at h
  split at h
  next => cases h
  next effective _ =>
    split at h
    next => cases h
    next => cases h
    next hlockert => exact ⟨effective.asdict, (Sum.inl.inj h).symm, hlockert⟩

theorem nachVorschlagen_eq {p : Dict} {xUserId pendingId : String} {now : ℤ} {q : Punkt}
    (h : nachVorschlagen P B p xUserId pendingId now = .inl q) : ∃ row, q = .anlegen row := by
  unfold nachVorschlagen at h
  split at h
  next => cases h
  next =>
    split at h
    next => cases h
    next => exact ⟨_, (Sum.inl.inj h).symm⟩

theorem nachHolen_eq {pending : Option PendingPolicyChange} {xUserId : String} {q : Punkt}
    (h : nachHolen pending xUserId = .inl q) :
    ∃ row, pending = some row ∧ row.applied = false ∧ q = .pruefen row xUserId := by
  unfold nachHolen at h
  split at h
  next => cases h
  next =>
    split at h
    next => cases h
    next row =>
      split at h
      next => cases h
      next hoffen => exact ⟨row, rfl, by simpa using hoffen, (Sum.inl.inj h).symm⟩

theorem nachSpeichern_eq {c : Aenderung} {q : Punkt} (h : nachSpeichern c = .inl q) :
    ∃ pending approvals approver, c.anlass = .freigabe pending approvals approver ∧
      q = .markieren pending.id approvals := by
  unfold nachSpeichern at h
  split at h
  next => cases h
  next pending approvals approver hanlass =>
    exact ⟨pending, approvals, approver, hanlass, (Sum.inl.inj h).symm⟩

/-- Only the initiator finds the approvals as they were. -/
theorem mitNamen_initiator (pending : PendingPolicyChange) :
    mitNamen pending pending.initiator = pending.approvals := by
  simp [mitNamen, addApproval]

theorem cooloff_of_ready {approvals : List String} {cooloffUntil now : ℤ}
    (h : isReadyToApply approvals cooloffUntil now = true) : cooloffUntil ≤ now :=
  (of_decide_eq_true h).2

/-- Where a statement leads that does not answer. -/
inductive Folge (P : Python) (B : Betrieb) (s : Ablage) : Punkt → Punkt → Prop where
  | laden {p effective} : isLoosening P B (.objekt s.loadIronDomePolicyValue)
      (.objekt effective) = some false →
      Folge P B s (.laden p) (.auditieren ⟨s.loadIronDomePolicyValue, effective, .set⟩)
  | vorschlagen {p xUserId row} : Folge P B s (.vorschlagen p xUserId) (.anlegen row)
  | holen {row xUserId} : s.getPending row.id = some row → row.applied = false →
      Folge P B s (.holen row.id xUserId) (.pruefen row xUserId)
  | bereit {pending xUserId} :
      isReadyToApply (mitNamen pending xUserId) pending.cooloffUntil s.jetzt = true →
      Folge P B s (.pruefen pending xUserId)
        (.altLaden pending (mitNamen pending xUserId) xUserId)
  | offen {pending xUserId approvals} :
      Folge P B s (.pruefen pending xUserId) (.nachtragen pending.id approvals)
  | altLaden {pending approvals xUserId} : Folge P B s (.altLaden pending approvals xUserId)
      (.auditieren ⟨s.loadIronDomePolicyValue, pending.requestedPolicy,
        .freigabe pending approvals xUserId⟩)
  | auditieren {c} : Folge P B s (.auditieren c) (.speichern c s.audit.length)
  | speichern {c beleg pending approvals approver} :
      c.anlass = .freigabe pending approvals approver →
      Folge P B s (.speichern c beleg) (.markieren pending.id approvals)

theorem Zugriff.folge {q q' : Punkt} {r : Punkt ⊕ Antwort} (h : Zugriff P B s q s' r)
    (hr : r = .inl q') : Folge P B s q q' := by
  cases h with
  | laden =>
      obtain ⟨effective, rfl, hlockert⟩ := nachLaden_eq hr
      exact .laden hlockert
  | vorschlagen pendingId =>
      obtain ⟨row, rfl⟩ := nachVorschlagen_eq hr
      exact .vorschlagen
  | holen =>
      obtain ⟨row, hrow, hoffen, rfl⟩ := nachHolen_eq hr
      obtain ⟨-, rfl⟩ := getPending_eq_some hrow
      exact .holen hrow hoffen
  | pruefen =>
      obtain rfl := Sum.inl.inj hr
      unfold nachPruefen
      split
      next hready => exact .bereit hready
      next => exact .offen
  | altLaden =>
      obtain rfl := Sum.inl.inj hr
      exact .altLaden
  | auditieren =>
      obtain rfl := Sum.inl.inj hr
      exact .auditieren
  | speichern =>
      obtain ⟨pending, approvals, approver, hanlass, rfl⟩ := nachSpeichern_eq hr
      exact .speichern hanlass
  | _ => cases hr

/-- What holds at a point holds at the next one, if no initiator finds the own change ready. -/
theorem Zugriff.gilt {q q' : Punkt} (h : Zugriff P B s q s' (.inl q')) (hg : q.Gilt P B s call)
    (hzweiter : ∀ pending, q = .pruefen pending pending.initiator →
      isReadyToApply pending.approvals pending.cooloffUntil s.jetzt = false) :
    q'.Gilt P B s' call := by
  have hw := h.waechst
  cases h.folge rfl with
  | laden hlockert => exact hlockert
  | vorschlagen => trivial
  | holen hrow _ => exact Punkt.Gilt.waechst ⟨hg, _, hrow, rfl, rfl⟩ hw
  | @bereit pending xUserId hready =>
      refine Freigebend.waechst ⟨hg.1, hg.2, ?_, cooloff_of_ready hready⟩ hw
      rintro rfl
      rw [mitNamen_initiator, hzweiter pending rfl] at hready
      cases hready
  | offen => trivial
  | altLaden => exact Freigebend.waechst hg hw
  | auditieren =>
      cases h
      exact ⟨Anlass.Gilt.waechst hg hw, List.getElem?_concat_length⟩
  | speichern hanlass =>
      have hgilt := hg.1
      rw [hanlass] at hgilt
      obtain ⟨row, hrow, -⟩ := hw.bekannt (Freigebend.bekannt hgilt)
      exact ⟨row, hrow⟩

theorem router_outline : Outline (router P B) (Geordnet P B) (fun _ _ => True)
    (fun s _ j => j.point.Gilt P B s j.call) where
  enter := by
    intro s l c _
    cases c with
    | approve pendingId xUserId => exact rfl
    | _ => trivial
  access := by
    intro p i c n q s q' hG _ hA hi ha
    refine ⟨trivial, Zugriff.gilt ha hA ?_, fun i' j _ _ hj => hj.waechst (Zugriff.waechst ha)⟩
    rintro pending rfl
    exact hG.zweiter i c n pending rfl hi
  answer := by
    intro p i c n q s a _ _ _ _ ha
    exact ⟨trivial, fun i' j _ _ hj => hj.waechst (Zugriff.waechst ha)⟩
  idle := by
    intro p s _ _ hidle
    exact ⟨trivial, fun _ j _ hj => hj.waechst (VonSelbst.waechst hidle)⟩

/-- In a run under the condition every request is where its point says. -/
theorem gilt_of_reach {p : Stand} (h : ((system P B).restrict (guarded (Geordnet P B))).Reach p)
    {i : ℕ} {j : Job Anfrage Punkt} (hj : p.jobs i = some j) : j.point.Gilt P B p.store j.call :=
  (Machine.outline_sound router_outline (fun _ _ => trivial) h).2 i j hj

end IronDome
