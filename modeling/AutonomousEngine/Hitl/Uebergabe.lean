import AutonomousEngine.Hitl.Ablehnung

/-!
# An approved order on its way to the broker

`approve` stores an order under `hitl:approved:` before it deletes the pending
entry, and `claim_approved` stores it under `hitl:inflight:` before it deletes the
approved one.  So a process that dies between two commands leaves it twice and
never not at all: an id that was approved is approved or in flight until somebody
calls `ack_inflight` for it, and what a claim hands out is marked under the id it
carries (`freigabe_nicht_verloren`).

That is about one worker, and about times within which no entry expires.  The
approved entries may be of anybody: what is no JSON is thrown away, and what
carries no id or another one is marked under the id that is handed out.
-/

namespace Hitl

open Basis

/-! ## The worker and what it owes -/

/-- The pending entries are those of `push`, which carry their own id. -/
def Bestand (s : Ablage) : Prop :=
  ∀ id f p, s.pending id = some f → f.wert = .json p → p.approvalId = id

/-- Only one client calls, and no entry that is approved or in flight expires. -/
structure EinArbeiter (p : Pool Ablage Ruf Punkt Antwort) (act : PoolAct Ruf) (s' : Ablage) :
    Prop where
  einer : ∀ i c, act = .enter i c → i = 0
  approved : act = .idle → ∀ id, (lies p.store.jetzt (p.store.approved id)).isSome →
    (lies s'.jetzt (s'.approved id)).isSome
  inflight : act = .idle → ∀ id, (lies p.store.jetzt (p.store.inflight id)).isSome →
    (lies s'.jetzt (s'.inflight id)).isSome

/-- The calls of `ack_inflight`, each with the number of the calls finished before. -/
def quittungen (p : Pool Ablage Ruf Punkt Antwort) : PoolAct Ruf → List (Nat × String)
  | .enter _ (.ackInflight id) => [(p.log.length, id)]
  | _ => []

/-- The runs of one worker that dies anywhere. -/
def arbeiter (px : Int) (uhr : Int → Int → Prop) :
    System (Pool Ablage Ruf Punkt Antwort × List (Nat × String)) (PoolAct Ruf) :=
  (((queue px uhr).pool Bestand).restrict (guarded EinArbeiter)).observe quittungen

/-- `approve` of the id returned a payload. -/
def Freigegeben (d : Done Ruf Antwort) (id : String) : Prop :=
  d.call = .approve id ∧ ∃ p, d.answer = .satz (some p)

/-- `claim_approved` returned a payload with the id. -/
def Ausgehaendigt (d : Done Ruf Antwort) (id : String) : Prop :=
  ∃ ps, d.answer = .saetze ps ∧ ∃ p ∈ ps, p.approvalId = id

/-- A finished call is of a kind, and `ack_inflight` of the id was not called after
it. -/
def Unquittiert (art : Done Ruf Antwort → String → Prop) (l : List (Done Ruf Antwort))
    (quittiert : List (Nat × String)) (id : String) : Prop :=
  ∃ m d, l[m]? = some d ∧ art d id ∧ ∀ k, (k, id) ∈ quittiert → k ≤ m

def Markiert (s : Ablage) (id : String) : Prop := (lies s.jetzt (s.inflight id)).isSome

/-- An order is approved under its id, or in flight. -/
def Vorhanden (s : Ablage) (id : String) : Prop :=
  (∃ p, lies s.jetzt (s.approved id) = some (.json p) ∧ p.aid id = id) ∨ Markiert s id

/-- What the worker owes: the orders that were approved and the markers of those it
handed out. -/
structure Verwahrt (s : Ablage) (l : List (Done Ruf Antwort)) (quittiert : List (Nat × String)) :
    Prop where
  freigabe : ∀ id, Unquittiert Freigegeben l quittiert id → Vorhanden s id
  ausgabe : ∀ id, Unquittiert Ausgehaendigt l quittiert id → Markiert s id

section

variable {art : Done Ruf Antwort → String → Prop} {s s' : Ablage} {l : List (Done Ruf Antwort)}
  {quittiert : List (Nat × String)} {d : Done Ruf Antwort} {id : String}

/-- Another finished call is owed something for, or it is as before. -/
theorem Unquittiert.of_append (h : Unquittiert art (l ++ [d]) quittiert id) :
    Unquittiert art l quittiert id ∨ art d id := by
  obtain ⟨m, d', hm, hart, hq⟩ := h
  by_cases hlt : m < l.length
  · rw [List.getElem?_append_left hlt] at hm
    exact .inl ⟨m, d', hm, hart, hq⟩
  · rw [List.getElem?_append_right (by omega)] at hm
    obtain rfl : d' = d := by simpa using List.mem_of_getElem? hm
    exact .inr hart

/-- The call of `ack_inflight` settles the id and no other one. -/
theorem unquittiert_quittung {id' : String} :
    Unquittiert art l (quittiert ++ [(l.length, id')]) id →
      id ≠ id' ∧ Unquittiert art l quittiert id := by
  rintro ⟨m, d', hm, hart, hq⟩
  have hlt : m < l.length := (List.getElem?_eq_some_iff.mp hm).1
  refine ⟨?_, m, d', hm, hart, fun k hk => hq k (List.mem_append_left _ hk)⟩
  rintro rfl
  have hle := hq l.length (by simp)
  omega

/-- What is owed is kept while the entries are. -/
theorem Verwahrt.mono (h : Verwahrt s l quittiert)
    (hv : ∀ id, Vorhanden s id → Vorhanden s' id) (hm : ∀ id, Markiert s id → Markiert s' id) :
    Verwahrt s' l quittiert where
  freigabe := fun id ho => hv id (h.freigabe id ho)
  ausgabe := fun id ho => hm id (h.ausgabe id ho)

/-- A call that answers owes what it returns. -/
theorem Verwahrt.append (h : Verwahrt s l quittiert)
    (hf : ∀ id, Freigegeben d id → Vorhanden s id) (ha : ∀ id, Ausgehaendigt d id → Markiert s id) :
    Verwahrt s (l ++ [d]) quittiert where
  freigabe := by
    intro id ho
    rcases ho.of_append with ho | hart
    · exact h.freigabe id ho
    · exact hf id hart
  ausgabe := by
    intro id ho
    rcases ho.of_append with ho | hart
    · exact h.ausgabe id ho
    · exact ha id hart

end

/-! ## What the commands do to what is approved and in flight -/

section

variable {s : Ablage} {id id' : String} {p : Payload}

theorem lies_mitApproved_self (b : Blob) :
    lies s.jetzt ((s.mitApproved id b).approved id) = some b := by
  have hfrist : s.jetzt ≤ s.jetzt + 600000 := by omega
  simp [Ablage.mitApproved, lies, setze, Eintrag.lebt, approvedWindowSeconds, hfrist]

theorem markiert_mitInflight_self (b : Blob) : Markiert (s.mitInflight id b) id := by
  have hfrist : s.jetzt ≤ s.jetzt + 86400000 := by omega
  simp [Markiert, Ablage.mitInflight, lies, setze, Eintrag.lebt, inflightTtlSeconds, hfrist]

theorem Markiert.mitInflight (h : Markiert s id) (id' : String) (b : Blob) :
    Markiert (s.mitInflight id' b) id := by
  by_cases hid : id = id'
  · subst hid
    exact markiert_mitInflight_self b
  · simpa [Markiert, Ablage.mitInflight, hid] using h

theorem Markiert.ohneInflight (h : Markiert s id) (hne : id ≠ id') :
    Markiert (s.ohneInflight id') id := by
  simpa [Markiert, Ablage.ohneInflight, hne] using h

theorem Vorhanden.mitApproved (h : Vorhanden s id) (hp : p.approvalId = id') :
    Vorhanden (s.mitApproved id' (.json p)) id := by
  by_cases hid : id = id'
  · subst hid
    exact .inl ⟨p, lies_mitApproved_self (.json p), Payload.aid_eq hp⟩
  · rcases h with ⟨p', hlies, haid⟩ | h
    · refine .inl ⟨p', ?_, haid⟩
      simpa [Ablage.mitApproved, hid] using hlies
    · exact .inr h

theorem Vorhanden.mitInflight (h : Vorhanden s id) (id' : String) (b : Blob) :
    Vorhanden (s.mitInflight id' b) id := by
  rcases h with h | h
  · exact .inl h
  · exact .inr (h.mitInflight id' b)

theorem Vorhanden.ohneInflight (h : Vorhanden s id) (hne : id ≠ id') :
    Vorhanden (s.ohneInflight id') id := by
  rcases h with h | h
  · exact .inl h
  · exact .inr (h.ohneInflight hne)

/-- An approved entry that is deleted is no order that is owed, or its order is in
flight. -/
theorem Vorhanden.ohneApproved (h : Vorhanden s id)
    (hmarkiert : ∀ p, lies s.jetzt (s.approved id') = some (.json p) → Markiert s (p.aid id')) :
    Vorhanden (s.ohneApproved id') id := by
  rcases h with ⟨p, hlies, haid⟩ | h
  · by_cases hid : id = id'
    · subst hid
      refine .inr ?_
      have hm := hmarkiert p hlies
      rw [haid] at hm
      exact hm
    · refine .inl ⟨p, ?_, haid⟩
      simpa [Ablage.ohneApproved, hid] using hlies
  · exact .inr h

end

/-! ## The points of the worker -/

/-- A claim has these keys to go and these results: the keys are approved, and the
results are marked. -/
structure ClaimStand (s : Ablage) (keys : List String) (results : List Payload) : Prop where
  nodup : keys.Nodup
  approved : ∀ key ∈ keys, (lies s.jetzt (s.approved key)).isSome
  results : ∀ p ∈ results, Markiert s p.approvalId

def Punkt.Sicher (s : Ablage) (l : List (Done Ruf Antwort)) (quittiert : List (Nat × String)) :
    Punkt → Prop
  | .start (.ackInflight id) | .ackLoeschen id =>
      ¬Unquittiert Freigegeben l quittiert id ∧ ¬Unquittiert Ausgehaendigt l quittiert id
  | .approveSetzen id p => p.approvalId = id
  | .approveLoeschen id p => p.approvalId = id ∧ lies s.jetzt (s.approved id) = some (.json p)
  | .claimLesen key keys results => ClaimStand s (key :: keys) results
  | .claimVerwerfen key keys results => ClaimStand s (key :: keys) results ∧
      ∀ p, lies s.jetzt (s.approved key) ≠ some (.json p)
  | .claimMarkieren key p keys results => ClaimStand s (key :: keys) results ∧
      lies s.jetzt (s.approved key) = some (.json p)
  | .claimEntnehmen key p keys results => ClaimStand s (key :: keys) results ∧
      lies s.jetzt (s.approved key) = some (.json p) ∧ Markiert s (p.aid key)
  | _ => True

/-- What holds after a command: at the next point, or of the answer. -/
def Danach (s : Ablage) (l : List (Done Ruf Antwort)) (quittiert : List (Nat × String)) (c : Ruf)
    (n : Nat) : Punkt ⊕ Antwort → Prop
  | .inl q => q.Von c ∧ q.Sicher s l quittiert
  | .inr a => (∀ id, Freigegeben ⟨0, c, n, a⟩ id → Vorhanden s id) ∧
      ∀ id, Ausgehaendigt ⟨0, c, n, a⟩ id → Markiert s id

section

variable {px : Int} {s s' : Ablage} {l : List (Done Ruf Antwort)} {quittiert : List (Nat × String)}
  {c : Ruf} {n : Nat} {key : String} {keys : List String} {results : List Payload}

/-- An answer that returns no payload owes nothing. -/
theorem danach_leer {a : Antwort} (hsatz : ∀ p, a ≠ .satz (some p))
    (hsaetze : ∀ ps, a = .saetze ps → ps = []) : Danach s l quittiert c n (.inr a) := by
  constructor
  · rintro id ⟨-, p, ha⟩
    exact absurd ha (hsatz p)
  · rintro id ⟨ps, ha, p, hp, -⟩
    rw [hsaetze ps ha] at hp
    cases hp

theorem danach_claimWeiter (hc : c = .claimApproved) (h : ClaimStand s keys results) :
    Danach s l quittiert c n (claimWeiter results keys) := by
  cases keys with
  | nil =>
      constructor
      · rintro id ⟨-, p, ha⟩
        cases ha
      · rintro id ⟨ps, ha, p, hp, rfl⟩
        obtain rfl : results = ps := by simpa using ha
        exact h.results p hp
  | cons key keys => exact ⟨hc, h⟩

/-- A claim is done with a key. -/
theorem ClaimStand.fertig (h : ClaimStand s (key :: keys) results)
    {results' : List Payload} (hr : ∀ p ∈ results', Markiert s p.approvalId) :
    ClaimStand (s.ohneApproved key) keys results' where
  nodup := h.nodup.of_cons
  approved := by
    intro k hk
    have hne : k ≠ key := by
      rintro rfl
      exact (List.nodup_cons.mp h.nodup).1 hk
    simpa [Ablage.ohneApproved, hne] using h.approved k (List.mem_cons_of_mem key hk)
  results := hr

theorem danach_pushIdx (a : Auftrag) (existing : Option String) :
    Danach s l quittiert (.push a) n (.inl (nachPushIdx a existing)) := by
  cases existing with
  | none => exact ⟨rfl, trivial⟩
  | some existing =>
      rw [nachPushIdx]
      split
      next => exact ⟨rfl, trivial⟩
      next => exact ⟨rfl, trivial⟩

theorem danach_approveLesen (hb : Bestand s) (id : String) :
    Danach s l quittiert (.approve id) n (nachApproveLesen id (lies s.jetzt (s.pending id))) := by
  cases hlies : lies s.jetzt (s.pending id) with
  | none => exact danach_leer (by simp) (by simp)
  | some b =>
      obtain ⟨f, hf, hw⟩ := lies_eq_some hlies
      cases b with
      | json p => exact ⟨rfl, hb id f p hf hw⟩
      | text t =>
          rw [nachApproveLesen]
          split
          next => exact danach_leer (by simp) (by simp)
          next => exact danach_leer (by simp) (by simp)

theorem danach_claimLesen (hc : c = .claimApproved) (h : ClaimStand s (key :: keys) results) :
    Danach s l quittiert c n
      (.inl (nachClaimLesen key keys results (lies s.jetzt (s.approved key)))) := by
  cases hlies : lies s.jetzt (s.approved key) with
  | none => exact ⟨hc, h, fun p hp => by simp [hlies] at hp⟩
  | some b =>
      cases b with
      | json p => exact ⟨hc, h, hlies⟩
      | text t => exact ⟨hc, h, fun p hp => by simp [hlies] at hp⟩

theorem danach_pendingIdx {symbol userId : String} (o : Option String) :
    Danach s l quittiert (.hasPending symbol userId) n (nachPendingIdx o) := by
  cases o with
  | none => exact danach_leer nofun nofun
  | some id =>
      rw [nachPendingIdx]
      split
      next => exact danach_leer nofun nofun
      next => exact ⟨⟨symbol, userId, rfl⟩, trivial⟩

theorem danach_ohneRedis (ruf : Ruf) : Danach s l quittiert c n (.inr ruf.ohneRedis) := by
  cases ruf with
  | claimApproved =>
      refine danach_leer nofun fun ps hps => ?_
      cases hps
      rfl
  | _ => exact danach_leer nofun nofun

/-- One command of the worker keeps what it owes. -/
theorem Zugriff.verwahrt {q : Punkt} {r : Punkt ⊕ Antwort} (h : Zugriff px s q s' r)
    (n : Nat) (hb : Bestand s) (hv : Verwahrt s l quittiert) (hc : q.Von c)
    (hq : q.Sicher s l quittiert) :
    Verwahrt s' l quittiert ∧ Danach s' l quittiert c n r := by
  cases h with
  | @ohneRedis ruf => exact ⟨hv, danach_ohneRedis ruf⟩
  | @mitRedis ruf =>
      obtain rfl : c = ruf := hc
      refine ⟨hv, ?_⟩
      cases c with
      | ackInflight id =>
          rw [Ruf.mitRedis]
          split
          next => exact danach_leer (by simp) (by simp)
          next => exact ⟨rfl, hq⟩
      | hasPending symbol userId => exact ⟨⟨symbol, userId, rfl⟩, trivial⟩
      | _ => exact ⟨rfl, trivial⟩
  | @pushIdx a =>
      obtain rfl : c = .push a := hc
      exact ⟨hv, danach_pushIdx a _⟩
  | pushErsetzen => exact ⟨hv.mono (fun _ h => h) fun _ h => h, hc, trivial⟩
  | pushPending => exact ⟨hv.mono (fun _ h => h) fun _ h => h, hc, trivial⟩
  | pushIndex => exact ⟨hv.mono (fun _ h => h) fun _ h => h, danach_leer (by simp) (by simp)⟩
  | @approveLesen id =>
      obtain rfl : c = .approve id := hc
      exact ⟨hv, danach_approveLesen hb id⟩
  | @approveSetzen id p =>
      refine ⟨hv.mono (fun i h => h.mitApproved hq) fun _ h => h, hc, hq, ?_⟩
      exact lies_mitApproved_self (.json p)
  | @approveLoeschen id p =>
      obtain ⟨hid, hlies⟩ := hq
      obtain rfl : c = .approve id := hc
      refine ⟨hv.mono (fun _ h => h) fun _ h => h, ?_, ?_⟩
      · rintro i ⟨hi, -⟩
        obtain rfl : id = i := by simpa using hi
        exact .inl ⟨p, hlies, Payload.aid_eq hid⟩
      · rintro i ⟨ps, ha, -⟩
        cases ha
  | rejectLesen => exact ⟨hv, hc, trivial⟩
  | @rejectLoeschen id idx b =>
      cases idx with
      | none => exact ⟨hv.mono (fun _ h => h) fun _ h => h, danach_leer (by simp) (by simp)⟩
      | some k => exact ⟨hv.mono (fun _ h => h) fun _ h => h, danach_leer (by simp) (by simp)⟩
  | @claimKeys keys hnodup hkeys =>
      exact ⟨hv, danach_claimWeiter hc ⟨hnodup, fun k hk => (hkeys k).mp hk, (by simp)⟩⟩
  | claimLesen => exact ⟨hv, danach_claimLesen hc hq⟩
  | @claimVerwerfen key keys results =>
      obtain ⟨hstand, hkein⟩ := hq
      refine ⟨hv.mono (fun i h => h.ohneApproved fun p hp => absurd hp (hkein p)) fun _ h => h, ?_⟩
      exact danach_claimWeiter hc (hstand.fertig hstand.results)
  | @claimMarkieren key p keys results =>
      obtain ⟨⟨hnodup, happ, hres⟩, hlies⟩ := hq
      refine ⟨hv.mono (fun i h => h.mitInflight _ _) fun i h => h.mitInflight _ _, hc, ?_, hlies,
        markiert_mitInflight_self _⟩
      exact ⟨hnodup, happ, fun p' hp' => (hres p' hp').mitInflight _ _⟩
  | @claimEntnehmen key p keys results =>
      obtain ⟨hstand, hlies, hm⟩ := hq
      refine ⟨hv.mono (fun i h => h.ohneApproved fun p' hp' => ?_) fun _ h => h, ?_⟩
      · obtain rfl : p = p' := by simpa [hlies] using hp'
        exact hm
      · refine danach_claimWeiter hc (hstand.fertig fun p' hp' => ?_)
        rcases List.mem_append.mp hp' with hp' | hp'
        · exact hstand.results p' hp'
        · obtain rfl : p' = p.gepinnt key := by simpa using hp'
          exact hm
  | @ackLoeschen id =>
      obtain ⟨hf, ha⟩ := hq
      refine ⟨⟨fun i ho => ?_, fun i ho => ?_⟩, danach_leer (by simp) (by simp)⟩
      · refine (hv.freigabe i ho).ohneInflight ?_
        rintro rfl
        exact hf ho
      · refine (hv.ausgabe i ho).ohneInflight ?_
        rintro rfl
        exact ha ho
  | @pendingIdx k =>
      obtain ⟨symbol, userId, rfl⟩ := hc
      exact ⟨hv, danach_pendingIdx _⟩
  | pendingLesen => exact ⟨hv, danach_leer (by simp) (by simp)⟩

end

/-! ## All runs -/

section

variable {px : Int} {uhr : Int → Int → Prop} {s s' : Ablage}

/-- What stays alive is read as before. -/
theorem Geraeumt.lies_eq {α : Type} {jetzt jetzt' : Int} {m m' : Familie α} {k : String}
    (h : Geraeumt jetzt' m m') (hlebt : (lies jetzt (m k)).isSome)
    (hlebt' : (lies jetzt' (m' k)).isSome) : lies jetzt' (m' k) = lies jetzt (m k) := by
  obtain ⟨e, he, hl⟩ := lies_isSome_iff.mp hlebt
  obtain ⟨e', he', hl'⟩ := lies_isSome_iff.mp hlebt'
  obtain rfl : e = e' := by simpa [he] using h.of_eq_some he'
  rw [he, he', lies_of_lebt hl, lies_of_lebt hl']

/-- Time in which nothing expires that is approved or in flight. -/
structure Ruhig (s s' : Ablage) : Prop where
  approved : ∀ id, (lies s.jetzt (s.approved id)).isSome →
    lies s'.jetzt (s'.approved id) = lies s.jetzt (s.approved id)
  inflight : ∀ id, Markiert s id → Markiert s' id

theorem ruhig_of_idle {p : Pool Ablage Ruf Punkt Antwort} (hG : EinArbeiter p .idle s')
    (hv : Vergeht uhr p.store s') : Ruhig p.store s' where
  approved := fun id h => hv.approved.lies_eq h (hG.approved rfl id h)
  inflight := fun id h => hG.inflight rfl id h

theorem Ruhig.json (h : Ruhig s s') {id : String} {p : Payload}
    (hlies : lies s.jetzt (s.approved id) = some (.json p)) :
    lies s'.jetzt (s'.approved id) = some (.json p) := by
  rw [h.approved id (Option.isSome_of_eq_some hlies), hlies]

theorem Ruhig.vorhanden (h : Ruhig s s') {id : String} (hv : Vorhanden s id) :
    Vorhanden s' id := by
  rcases hv with ⟨p, hlies, haid⟩ | hm
  · exact .inl ⟨p, h.json hlies, haid⟩
  · exact .inr (h.inflight id hm)

theorem Ruhig.claimStand (h : Ruhig s s') {keys : List String} {results : List Payload}
    (hs : ClaimStand s keys results) : ClaimStand s' keys results where
  nodup := hs.nodup
  approved := by
    intro k hk
    rw [h.approved k (hs.approved k hk)]
    exact hs.approved k hk
  results := fun p hp => h.inflight _ (hs.results p hp)

/-- Such time leaves the worker where it is. -/
theorem Ruhig.sicher (h : Ruhig s s') {l : List (Done Ruf Antwort)}
    {quittiert : List (Nat × String)} {q : Punkt} (hq : q.Sicher s l quittiert) :
    q.Sicher s' l quittiert := by
  cases q with
  | approveLoeschen id p => exact ⟨hq.1, h.json hq.2⟩
  | claimLesen key keys results => exact h.claimStand hq
  | claimVerwerfen key keys results =>
      obtain ⟨hstand, hkein⟩ := hq
      refine ⟨h.claimStand hstand, fun p hp => hkein p ?_⟩
      rw [← h.approved key (hstand.approved key List.mem_cons_self)]
      exact hp
  | claimMarkieren key p keys results => exact ⟨h.claimStand hq.1, h.json hq.2⟩
  | claimEntnehmen key p keys results =>
      exact ⟨h.claimStand hq.1, h.json hq.2.1, h.inflight _ hq.2.2⟩
  | start ruf => cases ruf <;> exact hq
  | _ => exact hq

/-- The state of a run of one worker: it owes what it has, and its running call is at
a point that is safe. -/
structure Arbeit (x : Pool Ablage Ruf Punkt Antwort × List (Nat × String)) : Prop where
  einer : ∀ i, i ≠ 0 → x.1.jobs i = none
  bestand : Bestand x.1.store
  verwahrt : Verwahrt x.1.store x.1.log x.2
  punkt : ∀ j, x.1.jobs 0 = some j → j.point.Von j.call ∧ j.point.Sicher x.1.store x.1.log x.2

theorem Bestand.zugriff {q : Punkt} {r : Punkt ⊕ Antwort} (hb : Bestand s)
    (h : Zugriff px s q s' r) : Bestand s' := by
  intro id f p hf hw
  rcases h.wirkung.pending id f hf with halt | ⟨a, -, -, -, hneu⟩
  · exact hb id f p halt hw
  · obtain rfl : a.payload id = p := by simpa [hneu] using hw
    rfl

/-- A new call of the worker: `ack_inflight` settles its id. -/
theorem Arbeit.enter {p : Pool Ablage Ruf Punkt Antwort} {quittiert : List (Nat × String)}
    (h : Arbeit (p, quittiert)) (c : Ruf) :
    Arbeit ({ p with jobs := Function.update p.jobs 0 (some ⟨c, p.log.length, .start c⟩) },
      quittiert ++ quittungen p (.enter 0 c)) := by
  obtain ⟨heiner, hb, hv, -⟩ := h
  have hquittung : ∀ art id, Unquittiert art p.log (quittiert ++ quittungen p (.enter 0 c)) id →
      c ≠ .ackInflight id ∧ Unquittiert art p.log quittiert id := by
    intro art id ho
    cases c with
    | ackInflight i =>
        obtain ⟨hne, ho⟩ := unquittiert_quittung ho
        refine ⟨fun heq => hne ?_, ho⟩
        simpa using heq.symm
    | _ =>
        rw [quittungen, List.append_nil] at ho
        · exact ⟨nofun, ho⟩
        · nofun
  refine ⟨fun i hi => ?_, hb, ⟨fun id ho => ?_, fun id ho => ?_⟩, fun j hj => ?_⟩
  · exact (Function.update_of_ne hi ..).trans (heiner i hi)
  · exact hv.freigabe id (hquittung _ id ho).2
  · exact hv.ausgabe id (hquittung _ id ho).2
  · obtain rfl : ⟨c, p.log.length, .start c⟩ = j := by simpa using hj
    refine ⟨rfl, ?_⟩
    cases c with
    | ackInflight id =>
        exact ⟨fun ho => (hquittung _ id ho).1 rfl, fun ho => (hquittung _ id ho).1 rfl⟩
    | _ => trivial

/-- Every step of a run of one worker. -/
theorem Arbeit.step {x x' : Pool Ablage Ruf Punkt Antwort × List (Nat × String)}
    {act : PoolAct Ruf} (h : Arbeit x) (hs : (arbeiter px uhr).step x act x') : Arbeit x' := by
  obtain ⟨p, quittiert⟩ := x
  obtain ⟨p', quittiert'⟩ := x'
  obtain ⟨⟨hstep, hG⟩, hq⟩ := hs
  obtain rfl : quittiert' = quittiert ++ quittungen p act := hq
  have heiner (i : Nat) (j : Job Ruf Punkt) (hi : p.jobs i = some j) : i = 0 := by
    by_contra hne
    rw [h.einer i hne] at hi
    cases hi
  cases hstep with
  | @enter i c hi =>
      obtain rfl : i = 0 := hG.einer i c rfl
      exact h.enter c
  | @access i c n q s q' hi hz =>
      obtain rfl := heiner i _ hi
      obtain ⟨hvon, hsicher⟩ := h.punkt _ hi
      obtain ⟨hv, hvon', hsicher'⟩ := hz.verwahrt n h.bestand h.verwahrt hvon hsicher
      rw [quittungen, List.append_nil]
      · refine ⟨fun i hne => ?_, h.bestand.zugriff hz, hv, fun j hj => ?_⟩
        · exact (Function.update_of_ne hne ..).trans (h.einer i hne)
        · obtain rfl : ⟨c, n, q'⟩ = j := by simpa using hj
          exact ⟨hvon', hsicher'⟩
      · nofun
  | @answer i c n q s a hi hz =>
      obtain rfl := heiner i _ hi
      obtain ⟨hvon, hsicher⟩ := h.punkt _ hi
      obtain ⟨hv, hf, ha⟩ := hz.verwahrt n h.bestand h.verwahrt hvon hsicher
      rw [quittungen, List.append_nil]
      · refine ⟨fun i hne => ?_, h.bestand.zugriff hz, hv.append hf ha, fun j hj => ?_⟩
        · exact (Function.update_of_ne hne ..).trans (h.einer i hne)
        · simp at hj
      · nofun
  | @crash i =>
      rw [quittungen, List.append_nil]
      · refine ⟨fun i' hne => ?_, h.bestand, h.verwahrt, fun j hj => ?_⟩
        · by_cases hi : i' = i
          · simp [hi]
          · exact (Function.update_of_ne hi ..).trans (h.einer i' hne)
        · rcases update_jobs_eq_some.mp hj with ⟨-, hj⟩ | ⟨-, hj⟩
          · cases hj
          · exact h.punkt j hj
      · nofun
  | idle hz =>
      have hruhig := ruhig_of_idle hG hz
      rw [quittungen, List.append_nil]
      · refine ⟨h.einer, fun id f payload hf hw => ?_,
          h.verwahrt.mono (fun id => hruhig.vorhanden) hruhig.inflight, fun j hj => ?_⟩
        · exact h.bestand id f payload (hz.pending.of_eq_some hf) hw
        · exact ⟨(h.punkt j hj).1, hruhig.sicher (h.punkt j hj).2⟩
      · nofun

theorem arbeit_reach {x : Pool Ablage Ruf Punkt Antwort × List (Nat × String)}
    (h : (arbeiter px uhr).Reach x) : Arbeit x := by
  refine h.invariant (fun x hx => ?_) fun x act x' hI hs => hI.step hs
  obtain ⟨p, quittiert⟩ := x
  obtain ⟨⟨hb, hjobs, hlog⟩, rfl⟩ := hx
  have hlog : p.log = [] := hlog
  refine ⟨fun i _ => hjobs i, hb, ⟨?_, ?_⟩, fun j hj => ?_⟩
  · rintro id ⟨m, d, hm, -⟩
    simp [hlog] at hm
  · rintro id ⟨m, d, hm, -⟩
    simp [hlog] at hm
  · rw [hjobs 0] at hj
    cases hj

end

/-- In every run of one worker that may die anywhere, while nothing expires that is
approved or in flight: an id that was approved is approved or in flight until
`ack_inflight` of it is called, and a payload that was handed out is marked under the
id it carries until then. -/
theorem freigabe_nicht_verloren (px : Int) (uhr : Int → Int → Prop)
    {p : Pool Ablage Ruf Punkt Antwort} {quittiert : List (Nat × String)}
    (h : (arbeiter px uhr).Reach (p, quittiert)) {m : Nat} {d : Done Ruf Antwort}
    (hd : p.log[m]? = some d) :
    (∀ id payload, d.call = .approve id → d.answer = .satz (some payload) →
      (∀ k, (k, id) ∈ quittiert → k ≤ m) →
        (lies p.store.jetzt (p.store.approved id)).isSome ∨
          (lies p.store.jetzt (p.store.inflight id)).isSome) ∧
      ∀ ps, d.answer = .saetze ps → ∀ payload ∈ ps,
        (∀ k, (k, payload.approvalId) ∈ quittiert → k ≤ m) →
          (lies p.store.jetzt (p.store.inflight payload.approvalId)).isSome := by
  obtain ⟨-, -, hv, -⟩ := arbeit_reach h
  refine ⟨fun id payload hc ha hq => ?_, fun ps ha payload hp hq => ?_⟩
  · rcases hv.freigabe id ⟨m, d, hd, ⟨hc, payload, ha⟩, hq⟩ with ⟨p', hlies, -⟩ | hm
    · exact .inl (Option.isSome_of_eq_some hlies)
    · exact .inr hm
  · exact hv.ausgabe _ ⟨m, d, hd, ⟨ps, ha, payload, hp, rfl⟩, hq⟩

section Beispiel

theorem bestand_leer : Bestand leer := by
  intro id f p hf
  cases hf

/-- An order is queued, approved and claimed, and nobody has acknowledged it. -/
theorem freigabe_nicht_verloren_entnommen :
    ∃ p, (arbeiter 900000 (· ≤ ·)).Reach (p, []) ∧
      p.log = [⟨0, .push auftrag, 0, .kennung (some "a1")⟩,
        ⟨0, .approve "a1", 1, .satz (some (auftrag.payload "a1"))⟩,
        ⟨0, .claimApproved, 2, .saetze [auftrag.payload "a1"]⟩] ∧
      ((lies p.store.jetzt (p.store.approved "a1")).isSome ∨
        (lies p.store.jetzt (p.store.inflight "a1")).isSome) ∧
      (lies p.store.jetzt (p.store.inflight "a1")).isSome := by
  let G : Pool Ablage Ruf Punkt Antwort → PoolAct Ruf → Ablage → Prop :=
    fun p act s' => EinArbeiter p act s' ∧ quittungen p act = []
  have henter (p s) (c : Ruf) (hc : quittungen p (.enter 0 c) = []) : G p (.enter 0 c) s :=
    ⟨⟨fun i c' h => by simpa using (PoolAct.enter.inj h).1.symm, nofun, nofun⟩, hc⟩
  have haccess (p s) : G p (.access 0) s := ⟨⟨nofun, nofun, nofun⟩, rfl⟩
  have hstart : (((queue 900000 (· ≤ ·)).pool Bestand).restrict (guarded G)).Reach
      ⟨leer, fun _ => none, []⟩ := .start ⟨bestand_leer, fun _ => rfl, rfl⟩
  have hpush := alone_reach hstart
    (solo_push (C := fun _ _ => True) fun _ _ _ => trivial) (henter _ _ _ rfl)
    fun _ _ _ _ => haccess _ _
  have happrove := alone_reach hpush
    (solo_approveLesen.trans rfl
      (.next trivial .approveSetzen (.answer trivial .approveLoeschen)))
    (henter _ _ _ rfl) fun _ _ _ _ => haccess _ _
  obtain ⟨s, hs⟩ : ∃ s, (queue 900000 (· ≤ ·)).Solo (fun _ _ => True) freigegeben
      (.start .claimApproved) s (.inr (.saetze [auftrag.payload "a1"])) := solo_claim_freigegeben
  have hclaim := alone_reach happrove hs (henter _ _ _ rfl) fun _ _ _ _ => haccess _ _
  have hreach : (arbeiter 900000 (· ≤ ·)).Reach (_, []) :=
    (hclaim.restrict_restrict (G := guarded EinArbeiter)).observe_nil
  exact ⟨_, hreach, rfl,
    (freigabe_nicht_verloren 900000 (· ≤ ·) hreach (m := 1) rfl).1 "a1" _ rfl rfl nofun,
    (freigabe_nicht_verloren 900000 (· ≤ ·) hreach (m := 2) rfl).2 _ rfl _ List.mem_cons_self nofun⟩

end Beispiel

end Hitl
