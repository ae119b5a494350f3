import AutonomousEngine.Hitl.Warteschlange

/-!
# Whether a rejection lasts

A rejection that removed something should be final: no `claim_approved` that
starts afterwards hands the order out.

`reject` deletes the pending entry and does not look at the approved one.  So it
is not final when an approval of the same id has got further than its read of
the pending entry: the approved entry is stored already, or the approval still
stands between its read and its write.  When every rejection that removes
something meets no such approval, it is final in every run, whatever the other
operators and workers do, and whatever the clock of the store does.

The argument is that an id that is neither pending nor approved, and that no
approval is about to write, stays so (`Ruht`): a push takes an id that was never
handed out, and an approval reads the pending entry first.
-/

namespace Hitl

open Basis

def Abgelehnt (l : List (Done Ruf Antwort)) (id : String) : Prop :=
  ∃ d ∈ l, d.call = .reject id ∧ d.answer = .bool true

@[simp] theorem abgelehnt_nil {id : String} : ¬ Abgelehnt [] id := by
  simp [Abgelehnt]

@[simp] theorem abgelehnt_append {l l' : List (Done Ruf Antwort)} {id : String} :
    Abgelehnt (l ++ l') id ↔ Abgelehnt l id ∨ Abgelehnt l' id := by
  simp [Abgelehnt, or_and_right, exists_or]

@[simp] theorem abgelehnt_singleton {d : Done Ruf Antwort} {id : String} :
    Abgelehnt [d] id ↔ d.call = .reject id ∧ d.answer = .bool true := by
  simp [Abgelehnt]

theorem Abgelehnt.of_take {l : List (Done Ruf Antwort)} {n : Nat} {id : String}
    (h : Abgelehnt (l.take n) id) : Abgelehnt l id := by
  obtain ⟨d, hd, h⟩ := h
  exact ⟨d, List.mem_of_mem_take hd, h⟩

/-- An id that was handed out and is neither pending nor approved. -/
structure Ruht (s : Ablage) (id : String) : Prop where
  pending : s.pending id = none
  approved : s.approved id = none
  vergeben : id ∈ s.vergeben

/-! ## The commands -/

/-- What a command does to the ids handed out and to the pending and the approved
entries. -/
structure Wirkung (s : Ablage) (q : Punkt) (s' : Ablage) : Prop where
  vergeben : s.vergeben ⊆ s'.vergeben
  pending : ∀ id e, s'.pending id = some e → s.pending id = some e ∨
    ∃ a, q = .pushPending a ∧ id ∉ s.vergeben ∧ id ∈ s'.vergeben ∧ e.wert = .json (a.payload id)
  approved : ∀ id e, s'.approved id = some e → s.approved id = some e ∨
    ∃ p, q = .approveSetzen id p ∧ e.wert = .json p

theorem update_none_eq_some {α : Type} {m : Familie α} {k k' : String} {e : Eintrag α}
    (h : Function.update m k none k' = some e) : m k' = some e := by
  by_cases hk : k' = k
  · simp [hk] at h
  · simpa [hk] using h

theorem Zugriff.wirkung {px : Int} {s s' : Ablage} {q : Punkt} {r : Punkt ⊕ Antwort}
    (h : Zugriff px s q s' r) : Wirkung s q s' := by
  cases h with
  | pushErsetzen =>
      exact ⟨subset_rfl, fun _ _ h => .inl (update_none_eq_some h), fun _ _ h => .inl h⟩
  | @pushPending a i hi =>
      refine ⟨Set.subset_insert i s.vergeben, fun id e he => ?_, fun _ _ h => .inl h⟩
      by_cases hid : id = i
      · subst hid
        refine .inr ⟨a, rfl, hi, Set.mem_insert id s.vergeben, ?_⟩
        obtain rfl : setze s.jetzt (s.pending id) (.json (a.payload id)) px = e := by
          simpa [Ablage.mitPending] using he
        rfl
      · exact .inl (by simpa [Ablage.mitPending, hid] using he)
  | @approveSetzen i p =>
      refine ⟨subset_rfl, fun _ _ h => .inl h, fun id e he => ?_⟩
      by_cases hid : id = i
      · subst hid
        refine .inr ⟨p, rfl, ?_⟩
        obtain rfl : setze s.jetzt (s.approved id) (.json p) (approvedWindowSeconds * 1000) = e := by
          simpa [Ablage.mitApproved] using he
        rfl
      · exact .inl (by simpa [Ablage.mitApproved, hid] using he)
  | approveLoeschen =>
      exact ⟨subset_rfl, fun _ _ h => .inl (update_none_eq_some h), fun _ _ h => .inl h⟩
  | @rejectLoeschen id idx =>
      cases idx with
      | none => exact ⟨subset_rfl, fun _ _ h => .inl (update_none_eq_some h), fun _ _ h => .inl h⟩
      | some key =>
          exact ⟨subset_rfl, fun _ _ h => .inl (update_none_eq_some h), fun _ _ h => .inl h⟩
  | claimVerwerfen =>
      exact ⟨subset_rfl, fun _ _ h => .inl h, fun _ _ h => .inl (update_none_eq_some h)⟩
  | claimEntnehmen =>
      exact ⟨subset_rfl, fun _ _ h => .inl h, fun _ _ h => .inl (update_none_eq_some h)⟩
  | _ => exact ⟨subset_rfl, fun _ _ h => .inl h, fun _ _ h => .inl h⟩

/-- An id at rest stays so unless an approval of it writes. -/
theorem Ruht.zugriff {px : Int} {s s' : Ablage} {q : Punkt} {r : Punkt ⊕ Antwort} {id : String}
    (hr : Ruht s id) (h : Zugriff px s q s' r) (hq : ∀ p, q ≠ .approveSetzen id p) :
    Ruht s' id := by
  obtain ⟨hv, hp, ha⟩ := h.wirkung
  refine ⟨Option.eq_none_iff_forall_ne_some.mpr fun e he => ?_,
    Option.eq_none_iff_forall_ne_some.mpr fun e he => ?_, hv hr.vergeben⟩
  · rcases hp id e he with h | ⟨a, -, hn, -⟩
    · simp [hr.pending] at h
    · exact hn hr.vergeben
  · rcases ha id e he with h | ⟨p, h, -⟩
    · simp [hr.approved] at h
    · exact hq p h

/-- A rejection leaves an id at rest that is not approved. -/
theorem ruht_verworfen {s : Ablage} {id : String} (idx : Option String)
    (ha : s.approved id = none) (hv : id ∈ s.vergeben) : Ruht (s.verworfen id idx) id := by
  cases idx with
  | none => exact ⟨by simp [Ablage.verworfen, Ablage.ohnePending], ha, hv⟩
  | some key =>
      exact ⟨by simp [Ablage.verworfen, Ablage.ohneIdx, Ablage.ohnePending], ha, hv⟩

/-- What is stored is under an id that was handed out, and under its own. -/
structure Ordentlich (s : Ablage) : Prop where
  pending : ∀ id e, s.pending id = some e →
    id ∈ s.vergeben ∧ ∀ p, e.wert = .json p → p.approvalId = id
  approved : ∀ id e, s.approved id = some e →
    id ∈ s.vergeben ∧ ∀ p, e.wert = .json p → p.approvalId = id

theorem Ordentlich.zugriff {px : Int} {s s' : Ablage} {q : Punkt} {r : Punkt ⊕ Antwort}
    (ho : Ordentlich s) (h : Zugriff px s q s' r)
    (hq : ∀ id p, q = .approveSetzen id p → p.approvalId = id ∧ id ∈ s.vergeben) :
    Ordentlich s' := by
  obtain ⟨hv, hp, ha⟩ := h.wirkung
  refine ⟨fun id e he => ?_, fun id e he => ?_⟩
  · rcases hp id e he with h | ⟨a, -, -, hin, hw⟩
    · exact ⟨hv (ho.pending id e h).1, (ho.pending id e h).2⟩
    · refine ⟨hin, fun p hp => ?_⟩
      obtain rfl : a.payload id = p := by simpa [hw] using hp
      rfl
  · rcases ha id e he with h | ⟨p, h, hw⟩
    · exact ⟨hv (ho.approved id e h).1, (ho.approved id e h).2⟩
    · refine ⟨hv (hq id p h).2, fun p' hp' => ?_⟩
      obtain rfl : p = p' := by simpa [hw] using hp'
      exact (hq id p h).1

theorem lies_eq_some {α : Type} {jetzt : Int} {o : Option (Eintrag α)} {w : α}
    (h : lies jetzt o = some w) : ∃ e, o = some e ∧ e.wert = w := by
  cases o with
  | none => simp [lies] at h
  | some e =>
      refine ⟨e, rfl, ?_⟩
      simp only [lies, Option.ite_none_right_eq_some, Option.some.injEq] at h
      exact h.2

theorem lies_of_lebt {α : Type} {jetzt : Int} {e : Eintrag α} (h : e.lebt jetzt = true) :
    lies jetzt (some e) = some e.wert := by
  rw [lies, if_pos h]

theorem lies_isSome_iff {α : Type} {jetzt : Int} {o : Option (Eintrag α)} :
    (lies jetzt o).isSome ↔ ∃ e, o = some e ∧ e.lebt jetzt = true := by
  cases o with
  | none => simp [lies]
  | some e => simp [lies]

theorem Geraeumt.of_eq_some {α : Type} {jetzt : Int} {m m' : Familie α} {k : String}
    {e : Eintrag α} (h : Geraeumt jetzt m m') (he : m' k = some e) : m k = some e := by
  rcases h k with h | ⟨h, -⟩
  · rwa [← h]
  · simp [h] at he

theorem Geraeumt.of_eq_none {α : Type} {jetzt : Int} {m m' : Familie α} {k : String}
    (h : Geraeumt jetzt m m') (hk : m k = none) : m' k = none := by
  rcases h k with h | ⟨h, -⟩
  · rwa [h]
  · exact h

/-! ## The points of the calls -/

def Punkt.Von : Punkt → Ruf → Prop
  | .start ruf, c => c = ruf
  | .pushIdx a, c | .pushErsetzen a _, c | .pushPending a, c | .pushIndex a _, c => c = .push a
  | .approveLesen id, c | .approveSetzen id _, c | .approveLoeschen id _, c => c = .approve id
  | .rejectLesen id, c | .rejectLoeschen id _, c => c = .reject id
  | .claimKeys, c | .claimLesen .., c | .claimVerwerfen .., c | .claimMarkieren .., c
  | .claimEntnehmen .., c => c = .claimApproved
  | .ackLoeschen id, c => c = .ackInflight id
  | .pendingIdx _, c | .pendingLesen _, c => ∃ symbol userId, c = .hasPending symbol userId

/-- No key still to come and no result was rejected before the call. -/
def Frei (l : List (Done Ruf Antwort)) (n : Nat) (keys : List String) (results : List Payload) :
    Prop :=
  (∀ key ∈ keys, ¬Abgelehnt (l.take n) key) ∧ ∀ p ∈ results, ¬Abgelehnt (l.take n) p.approvalId

def Punkt.Gilt (s : Ablage) (l : List (Done Ruf Antwort)) (n : Nat) : Punkt → Prop
  | .approveSetzen id p => (p.approvalId = id ∧ id ∈ s.vergeben) ∧ ¬Abgelehnt l id
  | .rejectLoeschen id idx => idx.isSome = true → id ∈ s.vergeben
  | .claimLesen key keys results => Frei l n (key :: keys) results
  | .claimVerwerfen key keys results => Frei l n (key :: keys) results
  | .claimMarkieren key p keys results => p.approvalId = key ∧ Frei l n (key :: keys) results
  | .claimEntnehmen key p keys results => p.approvalId = key ∧ Frei l n (key :: keys) results
  | _ => True

/-- What holds of a running call. -/
structure Zusicherung (s : Ablage) (l : List (Done Ruf Antwort)) (j : Job Ruf Punkt) : Prop where
  since : j.since ≤ l.length
  ruf : j.point.Von j.call
  punkt : j.point.Gilt s l j.since

/-- The rejected ids are at rest, and no claim that followed held one. -/
structure Stand (s : Ablage) (l : List (Done Ruf Antwort)) : Prop where
  ordentlich : Ordentlich s
  ruht : ∀ id, Abgelehnt l id → Ruht s id
  since : ∀ d ∈ l, d.since ≤ l.length
  gehalten : ∀ d ∈ l, ∀ ps, d.answer = .saetze ps → ∀ p ∈ ps,
    ¬Abgelehnt (l.take d.since) p.approvalId

/-- What the other calls do to a running one: ids are handed out, and calls
finish, among them no rejection of an id it is about to approve. -/
theorem Zusicherung.bleibt {s s' : Ablage} {l l' : List (Done Ruf Antwort)} {j : Job Ruf Punkt}
    (h : Zusicherung s l j) (hv : s.vergeben ⊆ s'.vergeben)
    (hq : ∀ id p, j.point = .approveSetzen id p → ¬Abgelehnt l' id) :
    Zusicherung s' (l ++ l') j := by
  obtain ⟨hs, hc, hg⟩ := h
  obtain ⟨c, n, q⟩ := j
  have htake : (l ++ l').take n = l.take n := List.take_append_of_le_length hs
  refine ⟨le_trans hs (by simp), hc, ?_⟩
  cases q with
  | approveSetzen id p =>
      exact ⟨⟨hg.1.1, hv hg.1.2⟩, by simpa using ⟨hg.2, hq id p rfl⟩⟩
  | rejectLoeschen id idx => exact fun hi => hv (hg hi)
  | claimLesen => simpa only [Punkt.Gilt, Frei, htake] using hg
  | claimVerwerfen => simpa only [Punkt.Gilt, Frei, htake] using hg
  | claimMarkieren => simpa only [Punkt.Gilt, Frei, htake] using hg
  | claimEntnehmen => simpa only [Punkt.Gilt, Frei, htake] using hg
  | _ => trivial

/-! ## One command -/

section Schritt

variable {px : Int} {s s' : Ablage} {l : List (Done Ruf Antwort)} {n : Nat} {c : Ruf} {q : Punkt}

/-- What holds after a command: at the next point, or of the answer. -/
def Nachher (s s' : Ablage) (l : List (Done Ruf Antwort)) (n : Nat) (c : Ruf) (q : Punkt) :
    Punkt ⊕ Antwort → Prop
  | .inl q' => q'.Von c ∧ q'.Gilt s' l n
  | .inr a => (∀ ps, a = .saetze ps → Frei l n [] ps) ∧
      ∀ id, c = .reject id → a = .bool true → ∃ idx, q = .rejectLoeschen id idx ∧
        s' = s.verworfen id idx ∧ ((s.pending id).isSome ∨ (idx.bind s.idx).isSome)

/-- The loop of `claim_approved` goes on with what is left. -/
theorem nachher_claimWeiter {keys : List String} {results : List Payload}
    (hc : c = .claimApproved) (h : Frei l n keys results) :
    Nachher s s' l n c q (claimWeiter results keys) := by
  cases keys with
  | nil =>
      refine ⟨fun ps hps => ?_, fun id hid => ?_⟩
      · obtain rfl : results = ps := by simpa using hps
        exact h
      · simp [hc] at hid
  | cons key keys => exact ⟨hc, h⟩

theorem Payload.aid_eq {p : Payload} {key : String} (h : p.approvalId = key) : p.aid key = key := by
  simp [Payload.aid, h]

theorem nachher_pushIdx (a : Auftrag) (existing : Option String) :
    Nachher s s' l n (.push a) q (.inl (nachPushIdx a existing)) := by
  cases existing with
  | none => exact ⟨rfl, trivial⟩
  | some existing =>
      by_cases he : existing = ""
      · simp [nachPushIdx, he, Nachher, Punkt.Von, Punkt.Gilt]
      · simp [nachPushIdx, he, Nachher, Punkt.Von, Punkt.Gilt]

/-- An approval that found its order may write it, unless the order is rejected:
then it would not have found it. -/
theorem nachher_approveLesen (hs : Stand s l) (id : String) :
    Nachher s s l n (.approve id) q (nachApproveLesen id (lies s.jetzt (s.pending id))) := by
  cases hb : lies s.jetzt (s.pending id) with
  | none => simp [nachApproveLesen, Nachher]
  | some b =>
      cases b with
      | text t =>
          by_cases ht : t = ""
          · simp [nachApproveLesen, ht, Nachher]
          · simp [nachApproveLesen, ht, Nachher]
      | json p =>
          obtain ⟨e, he, hw⟩ := lies_eq_some hb
          obtain ⟨hv, hp⟩ := hs.ordentlich.pending id e he
          refine ⟨rfl, ⟨hp p hw, hv⟩, fun hab => ?_⟩
          simp [(hs.ruht id hab).pending] at he

/-- A claim that read an approved order knows its id. -/
theorem nachher_claimLesen (hs : Stand s l) (hc : c = .claimApproved) {key : String}
    {keys : List String} {results : List Payload} (hg : Frei l n (key :: keys) results) :
    Nachher s s l n c q
      (.inl (nachClaimLesen key keys results (lies s.jetzt (s.approved key)))) := by
  refine ⟨?_, ?_⟩
  · cases lies s.jetzt (s.approved key) with
    | none => exact hc
    | some b => cases b <;> exact hc
  · cases hb : lies s.jetzt (s.approved key) with
    | none => exact hg
    | some b =>
        cases b with
        | text t => exact hg
        | json p =>
            obtain ⟨e, he, hw⟩ := lies_eq_some hb
            exact ⟨(hs.ordentlich.approved key e he).2 p hw, hg⟩

/-- Every command leads to what holds after it. -/
theorem Zugriff.nachher {r : Punkt ⊕ Antwort} (h : Zugriff px s q s' r) (hs : Stand s l)
    (hz : Zusicherung s l ⟨c, n, q⟩) : Nachher s s' l n c q r := by
  obtain ⟨hn, hc, hg⟩ := hz
  cases h with
  | @ohneRedis ruf =>
      obtain rfl : c = ruf := hc
      cases c <;> simp [Ruf.ohneRedis, Nachher, Frei]
  | @mitRedis ruf =>
      obtain rfl : c = ruf := hc
      cases c with
      | ackInflight id =>
          by_cases hid : id = ""
          · simp [Ruf.mitRedis, hid, Nachher]
          · simp [Ruf.mitRedis, hid, Nachher, Punkt.Von, Punkt.Gilt]
      | _ => simp [Ruf.mitRedis, Nachher, Punkt.Von, Punkt.Gilt]
  | @pushIdx a =>
      obtain rfl : c = .push a := hc
      exact nachher_pushIdx a _
  | pushErsetzen => exact ⟨hc, trivial⟩
  | pushPending => exact ⟨hc, trivial⟩
  | @pushIndex a =>
      obtain rfl : c = .push a := hc
      simp [Nachher]
  | @approveLesen id =>
      obtain rfl : c = .approve id := hc
      exact nachher_approveLesen hs id
  | approveSetzen => exact ⟨hc, trivial⟩
  | @approveLoeschen id =>
      obtain rfl : c = .approve id := hc
      simp [Nachher]
  | @rejectLesen id =>
      refine ⟨hc, fun hi => ?_⟩
      cases hb : lies s.jetzt (s.pending id) with
      | none => simp [hb, rejectIdx] at hi
      | some b =>
          obtain ⟨e, he, -⟩ := lies_eq_some hb
          exact (hs.ordentlich.pending id e he).1
  | @rejectLoeschen i idx b hb =>
      obtain rfl : c = .reject i := hc
      refine ⟨by simp, fun id hid ha => ?_⟩
      obtain rfl : i = id := by simpa using hid
      exact ⟨idx, rfl, rfl, hb.2 (by simpa using ha)⟩
  | @claimKeys keys _ hkeys =>
      refine nachher_claimWeiter hc ⟨fun key hk hab => ?_, by simp⟩
      obtain ⟨b, hb⟩ := Option.isSome_iff_exists.mp ((hkeys key).mp hk)
      obtain ⟨e, he, -⟩ := lies_eq_some hb
      simp [(hs.ruht key hab.of_take).approved] at he
  | @claimLesen key keys results =>
      exact nachher_claimLesen hs hc hg
  | @claimVerwerfen key keys results =>
      exact nachher_claimWeiter hc ⟨fun k hk => hg.1 k (List.mem_cons_of_mem key hk), hg.2⟩
  | claimMarkieren => exact ⟨hc, hg⟩
  | @claimEntnehmen key p keys results =>
      obtain ⟨hp, hk, hr⟩ := hg
      refine nachher_claimWeiter hc ⟨fun k hk' => hk k (List.mem_cons_of_mem key hk'),
        fun p' hp' => ?_⟩
      rcases List.mem_append.mp hp' with h | h
      · exact hr p' h
      · obtain rfl : p' = p.gepinnt key := by simpa using h
        simpa [Payload.gepinnt, Payload.aid_eq hp] using hk key List.mem_cons_self
  | @ackLoeschen id =>
      obtain rfl : c = .ackInflight id := hc
      simp [Nachher]
  | @pendingIdx key =>
      obtain ⟨symbol, userId, rfl⟩ := hc
      cases lies s.jetzt (s.idx key) with
      | none => simp [nachPendingIdx, Nachher]
      | some id =>
          by_cases hid : id = ""
          · simp [nachPendingIdx, hid, Nachher]
          · simp [nachPendingIdx, hid, Nachher, Punkt.Von, Punkt.Gilt]
  | pendingLesen =>
      obtain ⟨symbol, userId, rfl⟩ := hc
      simp [Nachher]

end Schritt

/-! ## All runs -/

/-- When a rejection is about to remove something, its id is not approved, and no
approval of it is about to write. -/
def KeineFreigabe (p : Pool Ablage Ruf Punkt Antwort) (a : PoolAct Ruf) (_ : Ablage) : Prop :=
  ∀ i c n id idx, a = .access i → p.jobs i = some ⟨c, n, .rejectLoeschen id idx⟩ →
    (p.store.pending id).isSome ∨ (idx.bind p.store.idx).isSome →
    p.store.approved id = none ∧
      ∀ i' j, p.jobs i' = some j → ∀ payload, j.point ≠ .approveSetzen id payload

/-- The points and the store of a run under the condition. -/
theorem queue_outline (px : Int) (uhr : Int → Int → Prop) :
    Outline (queue px uhr) KeineFreigabe Stand Zusicherung where
  enter c _ := ⟨le_rfl, rfl, trivial⟩
  access := by
    intro p i c n q s q' _ hs hz _ ha
    obtain ⟨hvon, hgilt⟩ := Zugriff.nachher ha hs hz
    have hv : p.store.vergeben ⊆ s.vergeben := (Zugriff.wirkung ha).vergeben
    refine ⟨⟨hs.ordentlich.zugriff ha ?_, fun id hab => ?_, hs.since, hs.gehalten⟩,
      ⟨hz.since, hvon, hgilt⟩, fun i' j _ _ hj => ?_⟩
    · rintro id payload rfl
      exact hz.punkt.1
    · refine (hs.ruht id hab).zugriff ha ?_
      rintro payload rfl
      exact hz.punkt.2 hab
    · have hb : Zusicherung s (p.log ++ []) j := hj.bleibt hv (by simp)
      simpa using hb
  answer := by
    intro p i c n q s a hG hs hz hi ha
    obtain ⟨hfrei, habl⟩ := Zugriff.nachher ha hs hz
    have hv : p.store.vergeben ⊆ s.vergeben := (Zugriff.wirkung ha).vergeben
    have hneu : ∀ id, Abgelehnt [⟨i, c, n, a⟩] id → Ruht s id ∧
        ∀ i' j, p.jobs i' = some j → ∀ payload, j.point ≠ .approveSetzen id payload := by
      intro id hab
      obtain ⟨hc, ha'⟩ := abgelehnt_singleton.mp hab
      obtain ⟨idx, rfl, rfl, hda⟩ := habl id hc ha'
      obtain ⟨happ, hkein⟩ := hG i c n id idx rfl hi hda
      have hin : id ∈ p.store.vergeben := by
        rcases hda with hp | hx
        · obtain ⟨e, he⟩ := Option.isSome_iff_exists.mp hp
          exact (hs.ordentlich.pending id e he).1
        · cases idx with
          | none => simp at hx
          | some key => exact hz.punkt rfl
      exact ⟨ruht_verworfen idx happ hin, hkein⟩
    refine ⟨⟨hs.ordentlich.zugriff ha ?_, fun id hab => ?_, ?_, ?_⟩, fun i' j _ hj hjz => ?_⟩
    · rintro id payload rfl
      exact hz.punkt.1
    · rcases abgelehnt_append.mp hab with hab | hab
      · refine (hs.ruht id hab).zugriff ha ?_
        rintro payload rfl
        exact hz.punkt.2 hab
      · exact (hneu id hab).1
    · intro d hd
      rcases List.mem_append.mp hd with hd | hd
      · exact le_trans (hs.since d hd) (by simp)
      · obtain rfl : d = ⟨i, c, n, a⟩ := by simpa using hd
        exact le_trans hz.since (by simp)
    · intro d hd ps hps payload hp
      rcases List.mem_append.mp hd with hd | hd
      · rw [List.take_append_of_le_length (hs.since d hd)]
        exact hs.gehalten d hd ps hps payload hp
      · obtain rfl : d = ⟨i, c, n, a⟩ := by simpa using hd
        rw [List.take_append_of_le_length hz.since]
        exact (hfrei ps hps).2 payload hp
    · exact hjz.bleibt hv fun id payload hq hab => (hneu id hab).2 i' j hj payload hq
  idle := by
    intro p s' _ hs hi
    refine ⟨⟨⟨fun id e he => ?_, fun id e he => ?_⟩, fun id hab => ?_, hs.since, hs.gehalten⟩,
      fun _ j _ hj => ?_⟩
    · rw [hi.vergeben]
      exact hs.ordentlich.pending id e (hi.pending.of_eq_some he)
    · rw [hi.vergeben]
      exact hs.ordentlich.approved id e (hi.approved.of_eq_some he)
    · obtain ⟨hp, ha, hv⟩ := hs.ruht id hab
      exact ⟨hi.pending.of_eq_none hp, hi.approved.of_eq_none ha, hi.vergeben ▸ hv⟩
    · have hb : Zusicherung s' (p.log ++ []) j := hj.bleibt hi.vergeben.ge (by simp)
      simpa using hb

/-- No claim that started after a rejection answered true hands its id out. -/
def Endgueltig (l : List (Done Ruf Antwort)) : Prop :=
  ∀ m d id, l[m]? = some d → d.call = .reject id → d.answer = .bool true →
    ∀ d' ∈ l, d'.call = .claimApproved → m < d'.since →
      ∀ ps, d'.answer = .saetze ps → ∀ payload ∈ ps, payload.approvalId ≠ id

/-- When no rejection that removes something meets an approval of its id, every
rejection is final. -/
theorem ablehnung_endgueltig (px : Int) (uhr : Int → Int → Prop)
    {p : Pool Ablage Ruf Punkt Antwort}
    (h : ((system px uhr).restrict (guarded KeineFreigabe)).Reach p) : Endgueltig p.log := by
  have hstand : Stand p.store p.log := by
    refine ((queue px uhr).outline_sound (queue_outline px uhr) (fun s hs => ?_) h).1
    refine ⟨⟨fun id e he => ?_, fun id e he => ?_⟩, by simp, by simp, by simp⟩
    · simp [hs.pending] at he
    · simp [hs.approved] at he
  rintro m d id hm hc ha d' hd' - hlt ps hps payload hp rfl
  refine hstand.gehalten d' hd' ps hps payload hp ⟨d, ?_, hc, ha⟩
  exact List.mem_iff_getElem?.mpr ⟨m, by rw [List.getElem?_take_of_lt hlt]; exact hm⟩

/-! ## A run under the condition, and one that is not -/

section Beispiel

def auftrag : Auftrag where
  userId := "global"
  symbol := "AAPL"
  action := "BUY"
  qty := 10
  price := 200
  conviction := 1
  targetWeight := 1 / 10
  eventJson := ""

def leer : Ablage where
  pending _ := none
  idx _ := none
  approved _ := none
  inflight _ := none
  jetzt := 0
  vergeben := ∅

/-- The store after the order was queued. -/
def eingereiht : Ablage :=
  (leer.mitPending "a1" (.json (auftrag.payload "a1")) 900000).mitIdx "global:AAPL" "a1" 900000

def anfang : Pool Ablage Ruf Punkt Antwort := ⟨leer, fun _ => none, []⟩

theorem anfang_start (px : Int) (uhr : Int → Int → Prop) : (system px uhr).start anfang :=
  ⟨⟨fun _ => rfl, fun _ => rfl, fun _ => rfl, fun _ => rfl⟩, fun _ => rfl, rfl⟩

theorem eingereiht_pending : lies eingereiht.jetzt (eingereiht.pending "a1") =
    some (.json (auftrag.payload "a1")) := by
  simp [eingereiht, Ablage.mitIdx, Ablage.mitPending, lies, setze, Eintrag.lebt, leer]

variable {uhr : Int → Int → Prop} {C : Ablage → Punkt → Prop}

theorem solo_push (hC : ∀ s q, (∀ id, s.approved id = none) → C s q) :
    (queue 900000 uhr).Solo C leer (.start (.push auftrag)) eingereiht
      (.inr (.kennung (some "a1"))) :=
  .next (hC _ _ fun _ => rfl) .mitRedis <|
    .next (hC _ _ fun _ => rfl) .pushIdx <|
      .next (hC _ _ fun _ => rfl) (.pushPending (by simp [leer])) <|
        .answer (hC _ _ fun _ => rfl) .pushIndex

/-- A rejection as far as its read of the pending entry. -/
theorem solo_rejectLesen (hC : ∀ s q, (∀ id, s.approved id = none) → C s q) :
    (queue 900000 uhr).Solo C eingereiht (.start (.reject "a1")) eingereiht
      (.inl (.rejectLoeschen "a1" (some "global:AAPL"))) := by
  have hidx : rejectIdx (lies eingereiht.jetzt (eingereiht.pending "a1")) =
      some "global:AAPL" := by
    rw [eingereiht_pending]
    rfl
  have hlesen : Zugriff 900000 eingereiht (.rejectLesen "a1") eingereiht
      (.inl (.rejectLoeschen "a1" (some "global:AAPL"))) := hidx ▸ .rejectLesen
  exact .next (hC _ _ fun _ => rfl) .mitRedis (.next (hC _ _ fun _ => rfl) hlesen .stop)

/-- The rest of it removes the pending entry. -/
theorem solo_rejectLoeschen {s : Ablage} (hp : s.pending "a1" = eingereiht.pending "a1")
    (hC : ∀ q, C s q) :
    (queue 900000 uhr).Solo C s (.rejectLoeschen "a1" (some "global:AAPL"))
      (s.verworfen "a1" (some "global:AAPL")) (.inr (.bool true)) := by
  refine .answer (hC _) (.rejectLoeschen ⟨fun _ => rfl, fun _ => .inl ?_⟩)
  rw [hp]
  rfl

/-- A claim that finds nothing approved. -/
theorem solo_claim_leer {s : Ablage} (ha : ∀ id, s.approved id = none) (hC : ∀ q, C s q) :
    (queue 900000 uhr).Solo C s (.start .claimApproved) s (.inr (.saetze [])) := by
  have hkeys : Zugriff 900000 s .claimKeys s (claimWeiter [] []) :=
    .claimKeys List.nodup_nil (by simp [ha, lies])
  exact .next (hC _) .mitRedis (.answer (hC _) hkeys)

/-- One client queues the order, rejects it and claims. -/
theorem ablehnung_endgueltig_allein :
    ∃ p, ((system 900000 (· ≤ ·)).restrict (guarded KeineFreigabe)).Reach p ∧
      p.log = [⟨0, .push auftrag, 0, .kennung (some "a1")⟩, ⟨0, .reject "a1", 1, .bool true⟩,
        ⟨0, .claimApproved, 2, .saetze []⟩] ∧ Endgueltig p.log := by
  let C : Ablage → Punkt → Prop := fun s _ => ∀ id, s.approved id = none
  have henter : ∀ p c s, KeineFreigabe p (.enter 0 c) s := by
    rintro p c s i _ _ _ _ ⟨⟩
  have hG : ∀ c l s q s', C s q →
      KeineFreigabe ⟨s, Function.update (fun _ => none) 0 (some ⟨c, List.length l, q⟩), l⟩
        (.access 0) s' := by
    rintro c l s q s' hs _ c' n' id idx ⟨⟩ hj _
    obtain ⟨rfl, rfl, rfl⟩ : c = c' ∧ l.length = n' ∧ q = .rejectLoeschen id idx := by
      simpa using hj
    refine ⟨hs id, fun i' j hj' payload => ?_⟩
    by_cases hi : i' = 0
    · obtain rfl : ⟨c, l.length, .rejectLoeschen id idx⟩ = j := by simpa [hi] using hj'
      simp
    · simp [hi] at hj'
  have hpush := alone_reach (M := queue 900000 (· ≤ ·)) (C := C)
    (.start (anfang_start 900000 (· ≤ ·))) (solo_push fun _ _ h => h) (henter _ _ _) (hG _ _)
  have hreject := alone_reach hpush
    ((solo_rejectLesen fun _ _ h => h).trans rfl (solo_rejectLoeschen rfl fun _ _ => rfl))
    (henter _ _ _) (hG _ _)
  have hclaim := alone_reach hreject (solo_claim_leer (fun _ => rfl) fun _ _ => rfl)
    (henter _ _ _) (hG _ _)
  exact ⟨_, hclaim, rfl, ablehnung_endgueltig 900000 (· ≤ ·) hclaim⟩

/-- An approval as far as its read of the pending entry. -/
theorem solo_approveLesen :
    (queue 900000 uhr).Solo (fun _ _ => True) eingereiht (.start (.approve "a1")) eingereiht
      (.inl (.approveSetzen "a1" (auftrag.payload "a1"))) := by
  have hnach : nachApproveLesen "a1" (lies eingereiht.jetzt (eingereiht.pending "a1")) =
      .inl (.approveSetzen "a1" (auftrag.payload "a1")) := by
    rw [eingereiht_pending]
    rfl
  have hlesen : Zugriff 900000 eingereiht (.approveLesen "a1") eingereiht
      (.inl (.approveSetzen "a1" (auftrag.payload "a1"))) := hnach ▸ .approveLesen
  exact .next trivial .mitRedis (.next trivial hlesen .stop)

/-- The store after the write of the approval and the rejection. -/
def freigegeben : Ablage :=
  (eingereiht.mitApproved "a1" (.json (auftrag.payload "a1"))).verworfen "a1" (some "global:AAPL")

/-- The only approved entry, and it is alive. -/
theorem freigegeben_approved (id : String) : lies freigegeben.jetzt (freigegeben.approved id) =
    if id = "a1" then some (.json (auftrag.payload "a1")) else none := by
  by_cases hid : id = "a1"
  · subst hid
    simp [freigegeben, Ablage.verworfen, Ablage.ohneIdx, Ablage.ohnePending, Ablage.mitApproved,
      eingereiht, Ablage.mitIdx, Ablage.mitPending, lies, setze, Eintrag.lebt, leer,
      approvedWindowSeconds]
  · simp [freigegeben, Ablage.verworfen, Ablage.ohneIdx, Ablage.ohnePending, Ablage.mitApproved,
      eingereiht, Ablage.mitIdx, Ablage.mitPending, lies, leer, hid]

theorem solo_claim_freigegeben :
    ∃ s, (queue 900000 uhr).Solo (fun _ _ => True) freigegeben (.start .claimApproved) s
      (.inr (.saetze [auftrag.payload "a1"])) := by
  have hnach : nachClaimLesen "a1" [] [] (lies freigegeben.jetzt (freigegeben.approved "a1")) =
      .claimMarkieren "a1" (auftrag.payload "a1") [] [] := by
    rw [freigegeben_approved]
    rfl
  have hkeys : Zugriff 900000 freigegeben .claimKeys freigegeben (claimWeiter [] ["a1"]) :=
    .claimKeys (by simp) fun id => by
      by_cases hid : id = "a1" <;> simp [freigegeben_approved, hid]
  have hlesen : Zugriff 900000 freigegeben (.claimLesen "a1" [] []) freigegeben
      (.inl (.claimMarkieren "a1" (auftrag.payload "a1") [] [])) := hnach ▸ .claimLesen
  exact ⟨_, .next trivial .mitRedis <| .next trivial hkeys <| .next trivial hlesen <|
    .next trivial .claimMarkieren <| .answer trivial .claimEntnehmen⟩

/-- An operator has read the pending order and approves it, another one rejects
it, and the worker claims it afterwards. -/
theorem ablehnung_nicht_endgueltig :
    ∃ p, (system 900000 (· ≤ ·)).Reach p ∧ ¬Endgueltig p.log := by
  have hpush := alone_reach (M := queue 900000 (· ≤ ·)) (G := fun _ _ _ => True) (i := 0)
    (.start (anfang_start 900000 (· ≤ ·))) (solo_push (C := fun _ _ => True) fun _ _ _ => trivial)
    trivial fun _ _ _ _ => trivial
  have happrove := call_reach (i := 1) hpush rfl solo_approveLesen trivial
    fun _ _ _ _ => trivial
  have hreject := call_reach (i := 2) happrove rfl (solo_rejectLesen fun _ _ _ => trivial)
    trivial fun _ _ _ _ => trivial
  have hsetzen := solo_reach (C := fun _ _ => True) (i := 1) hreject rfl
    (.next trivial .approveSetzen .stop) fun _ _ _ _ => trivial
  have hloeschen := solo_reach (C := fun _ _ => True) (i := 2) hsetzen rfl
    (solo_rejectLoeschen rfl fun _ => trivial) fun _ _ _ _ => trivial
  obtain ⟨s, hs⟩ := solo_claim_freigegeben
  have hclaim := call_reach (i := 3) hloeschen rfl hs trivial fun _ _ _ _ => trivial
  refine ⟨_, hclaim.of_restrict, fun h => ?_⟩
  exact h 1 ⟨2, .reject "a1", 1, .bool true⟩ "a1" rfl rfl rfl
    ⟨3, .claimApproved, 2, .saetze [auftrag.payload "a1"]⟩ (by simp [Pool.after]) rfl (by decide) _ rfl
    (auftrag.payload "a1") (by simp) rfl

end Beispiel

end Hitl
