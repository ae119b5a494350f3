import AutonomousEngine.Basis.Text
import AutonomousEngine.Hitl.Ablehnung

/-!
# At most one order of a pair waits

`push` supersedes the order that waits for its user and symbol, "so the queue
never holds two live approvals", and `has_pending` asks the index whether one
waits.  The index and the entry are two keys.  `push` writes the entry first and
the index after it, and three calls delete both at once.

Between the two writes of a push its order waits and `has_pending` denies it.
Beyond that the calls of others are in the way: two pushes write two entries, a
push that was superseded points the index back at its dead entry, and a deletion
takes the index of another order along.  A call has a key in use from its first
read to its last write (`Punkt.kennt`).  While no call starts to use the key of a
push that is under way, and no push starts on a key in use (`Geordnet`), the queue
holds at most one order of a pair, and `has_pending` is right about it exactly when
no push of the pair stands between its writes (`freigabe_einzig`).
-/

namespace Hitl

open Basis

/-! ## What waits -/

/-- An unexpired order of a user and a symbol waits under the id. -/
def Wartet (s : Ablage) (id userId symbol : String) : Prop :=
  ∃ p, lies s.jetzt (s.pending id) = some (.json p) ∧ p.userId = userId ∧ p.symbol = symbol

/-- `has_pending`, answered at one moment. -/
def Ablage.hasPending (s : Ablage) (symbol userId : String) : Bool :=
  match lies s.jetzt (s.idx (idxKey userId symbol)) with
  | none => false
  | some id => if id = "" then false else (lies s.jetzt (s.pending id)).isSome

/-- The key of the index that an order is found under. -/
def Auftrag.key (a : Auftrag) : String := idxKey a.userId a.symbol

/-- No other user and symbol have the key of this order. -/
def Auftrag.Eindeutig (a : Auftrag) : Prop :=
  ∀ userId symbol, idxKey userId symbol = a.key → a.userId = userId ∧ a.symbol = symbol

theorem toList_idxKey (userId symbol : String) :
    (idxKey userId symbol).toList = userId.toList ++ ':' :: symbol.toList := by
  simp [idxKey]

/-- That is so when neither has a colon in it. -/
theorem eindeutig_iff (a : Auftrag) :
    a.Eindeutig ↔ ':' ∉ a.userId.toList ∧ ':' ∉ a.symbol.toList := by
  constructor
  · intro h
    constructor
    · intro hmem
      obtain ⟨x, y, hxy⟩ := List.append_of_mem hmem
      have hkey :
          idxKey (String.ofList x) (String.ofList (y ++ ':' :: a.symbol.toList)) = a.key := by
        apply String.toList_injective
        rw [Auftrag.key, toList_idxKey, toList_idxKey, hxy]
        simp
      obtain ⟨hu, -⟩ := h _ _ hkey
      rw [hu] at hxy
      simp at hxy
    · intro hmem
      obtain ⟨x, y, hxy⟩ := List.append_of_mem hmem
      have hkey :
          idxKey (String.ofList (a.userId.toList ++ ':' :: x)) (String.ofList y) = a.key := by
        apply String.toList_injective
        rw [Auftrag.key, toList_idxKey, toList_idxKey, hxy]
        simp
      obtain ⟨-, hs⟩ := h _ _ hkey
      have hlaenge := congrArg List.length hxy
      simp only [hs, String.toList_ofList, List.length_append, List.length_cons] at hlaenge
      omega
  · rintro ⟨hu, hs⟩ userId symbol hkey
    have hlist : userId.toList ++ ':' :: symbol.toList =
        a.userId.toList ++ ':' :: a.symbol.toList := by
      rw [← toList_idxKey, ← toList_idxKey, hkey, Auftrag.key]
    have hanzahl : (userId.toList ++ ':' :: symbol.toList).count ':' = 1 := by
      rw [hlist]
      simp [List.count_append, List.count_eq_zero.mpr hu, List.count_eq_zero.mpr hs]
    have hu' : ':' ∉ userId.toList := by
      rw [← List.count_eq_zero]
      simp only [List.count_append, List.count_cons_self] at hanzahl
      omega
    obtain ⟨h₁, h₂⟩ := append_cons_inj_of_notMem_left hu' hu hlist
    exact ⟨String.toList_injective h₁.symm, String.toList_injective h₂.symm⟩

/-! ## What the commands do to entries and index -/

/-- The entry and the index that a point deletes. -/
def Punkt.loescht : Punkt → Option (String × Option String)
  | .pushErsetzen a existing => some (existing, some a.key)
  | .approveLoeschen id p => some (id, some (idxKey p.userId p.symbol))
  | .rejectLoeschen id idx => some (id, idx)
  | _ => none

def ohneKey (m : Familie String) : Option String → Familie String
  | none => m
  | some k => Function.update m k none

/-- The same entries, index, clock and ids. -/
structure Gleich (s s' : Ablage) : Prop where
  pending : s'.pending = s.pending
  idx : s'.idx = s.idx
  jetzt : s'.jetzt = s.jetzt
  vergeben : s'.vergeben = s.vergeben

/-- A point at which a push has written its entry and not its index. -/
def Punkt.Offen : Punkt ⊕ Antwort → Prop
  | .inl (.pushIndex _ _) => True
  | _ => False

/-- What a command does to the entries that wait and to the index. -/
inductive Eintraege (px : Int) (s : Ablage) : Punkt → Ablage → Punkt ⊕ Antwort → Prop where
  | gleich {q s' r} : Gleich s s' → ¬Punkt.Offen (.inl q) → ¬Punkt.Offen r → Eintraege px s q s' r
  | weg {q s' r id k} : q.loescht = some (id, k) →
      Gleich { s with pending := Function.update s.pending id none, idx := ohneKey s.idx k } s' →
      ¬Punkt.Offen (.inl q) → ¬Punkt.Offen r → Eintraege px s q s' r
  | satz {a id} : id ∉ s.vergeben → Eintraege px s (.pushPending a)
      (s.mitPending id (.json (a.payload id)) px) (.inl (.pushIndex a id))
  | verweis {a id} : Eintraege px s (.pushIndex a id) (s.mitIdx a.key id px)
      (.inr (.kennung (some id)))

theorem not_offen_mitRedis (ruf : Ruf) : ¬Punkt.Offen ruf.mitRedis := by
  cases ruf with
  | ackInflight i =>
      rw [Ruf.mitRedis]
      split <;> exact id
  | _ => exact id

theorem not_offen_nachPushIdx (a : Auftrag) (o : Option String) :
    ¬Punkt.Offen (.inl (nachPushIdx a o)) := by
  cases o with
  | none => exact id
  | some existing =>
      rw [nachPushIdx]
      split <;> exact id

theorem not_offen_nachApproveLesen (i : String) (o : Option Blob) :
    ¬Punkt.Offen (nachApproveLesen i o) := by
  cases o with
  | none => exact id
  | some b =>
      cases b with
      | json p => exact id
      | text t =>
          rw [nachApproveLesen]
          split <;> exact id

theorem not_offen_claimWeiter (results : List Payload) (keys : List String) :
    ¬Punkt.Offen (claimWeiter results keys) := by
  cases keys <;> exact id

theorem not_offen_nachClaimLesen (key : String) (keys : List String) (results : List Payload)
    (o : Option Blob) : ¬Punkt.Offen (.inl (nachClaimLesen key keys results o)) := by
  cases o with
  | none => exact id
  | some b => cases b <;> exact id

theorem not_offen_nachPendingIdx (o : Option String) : ¬Punkt.Offen (nachPendingIdx o) := by
  cases o with
  | none => exact id
  | some i =>
      rw [nachPendingIdx]
      split <;> exact id

theorem Gleich.rfl {s : Ablage} : Gleich s s := ⟨.refl _, .refl _, .refl _, .refl _⟩

theorem Zugriff.eintraege {px : Int} {s s' : Ablage} {q : Punkt} {r : Punkt ⊕ Antwort}
    (h : Zugriff px s q s' r) : Eintraege px s q s' r := by
  cases h with
  | ohneRedis => exact .gleich .rfl id id
  | @mitRedis ruf => exact .gleich .rfl id (not_offen_mitRedis ruf)
  | @pushIdx a => exact .gleich .rfl id (not_offen_nachPushIdx a _)
  | pushErsetzen => exact .weg (.refl _) .rfl id id
  | pushPending h => exact .satz h
  | pushIndex => exact .verweis
  | @approveLesen i => exact .gleich .rfl id (not_offen_nachApproveLesen i _)
  | approveSetzen => exact .gleich ⟨.refl _, .refl _, .refl _, .refl _⟩ id id
  | approveLoeschen => exact .weg (.refl _) .rfl id id
  | rejectLesen => exact .gleich .rfl id id
  | @rejectLoeschen i idx =>
      cases idx with
      | none => exact .weg (.refl _) .rfl id id
      | some k => exact .weg (.refl _) .rfl id id
  | claimKeys => exact .gleich .rfl id (not_offen_claimWeiter [] _)
  | @claimLesen key keys results =>
      exact .gleich .rfl id (not_offen_nachClaimLesen key keys results _)
  | @claimVerwerfen key keys results =>
      exact .gleich ⟨.refl _, .refl _, .refl _, .refl _⟩ id (not_offen_claimWeiter results keys)
  | claimMarkieren => exact .gleich ⟨.refl _, .refl _, .refl _, .refl _⟩ id id
  | @claimEntnehmen key p keys results =>
      exact .gleich ⟨.refl _, .refl _, .refl _, .refl _⟩ id (not_offen_claimWeiter _ keys)
  | ackLoeschen => exact .gleich ⟨.refl _, .refl _, .refl _, .refl _⟩ id id
  | @pendingIdx key => exact .gleich .rfl id (not_offen_nachPendingIdx _)
  | pendingLesen => exact .gleich .rfl id id

/-! ## Entries and index agree -/

/-- The entry of a push that has not written its index: no index names it, and the
index that is about to be written outlives it. -/
structure OffenerSatz (px : Int) (s : Ablage) (a : Auftrag) (id : String) : Prop where
  vergeben : id ∈ s.vergeben
  idx : ∀ k e, s.idx k = some e → e.wert ≠ id
  satz : ∀ f, s.pending id = some f → f.wert = .json (a.payload id)
  frist : ∀ f t, s.pending id = some f → f.lebt t = true → px = 0 ∨ t ≤ s.jetzt + px

/-- What the entries and the index have to do with each other, when the ids in
`offen` are those of pushes that have not written their index. -/
structure Register (px : Int) (offen : String → Prop) (s : Ablage) : Prop where
  leer : "" ∈ s.vergeben
  satz : ∀ id f, s.pending id = some f →
    id ∈ s.vergeben ∧ id ≠ "" ∧ ∃ a : Auftrag, f.wert = .json (a.payload id) ∧ a.Eindeutig
  idx : ∀ k e, s.idx k = some e → e.wert ∈ s.vergeben ∧ (px = 0 → e.frist = none)
  key : ∀ k e f (a : Auftrag), s.idx k = some e → s.pending e.wert = some f →
    f.wert = .json (a.payload e.wert) → a.key = k
  frist : ∀ k e f t, s.idx k = some e → s.pending e.wert = some f → s.jetzt ≤ t →
    f.lebt t = true → e.lebt t = true
  verweis : ∀ id f, s.pending id = some f → f.lebt s.jetzt = true →
    offen id ∨ ∃ k e, s.idx k = some e ∧ e.wert = id
  einzig : ∀ id id' f f' (a a' : Auftrag), s.pending id = some f → f.lebt s.jetzt = true →
    f.wert = .json (a.payload id) → s.pending id' = some f' → f'.lebt s.jetzt = true →
    f'.wert = .json (a'.payload id') → a.key = a'.key → id = id'

/-- The index is deleted or overwritten only while it names no unexpired entry, or
this one. -/
def IndexFrei (s : Ablage) (k id : String) : Prop :=
  ∀ e, s.idx k = some e → (lies s.jetzt (s.pending e.wert)).isSome → e.wert = id

section

variable {px : Int} {s s' : Ablage} {offen offen' : String → Prop} {a : Auftrag} {id : String}

/-- Of the open pushes only those matter whose entry is alive. -/
theorem Register.mono (h : Register px offen s)
    (hm : ∀ id f, s.pending id = some f → f.lebt s.jetzt = true → offen id → offen' id) :
    Register px offen' s where
  leer := h.leer
  satz := h.satz
  idx := h.idx
  key := h.key
  frist := h.frist
  verweis := by
    intro id f hf hl
    rcases h.verweis id f hf hl with ho | hv
    · exact .inl (hm id f hf hl ho)
    · exact .inr hv
  einzig := h.einzig

theorem Register.gleich (h : Register px offen s) (hg : Gleich s s') : Register px offen s' := by
  obtain ⟨hp, hi, hj, hv⟩ := hg
  refine ⟨hv ▸ h.leer, ?_, ?_, ?_, ?_, ?_, ?_⟩
  · rw [hp, hv]
    exact h.satz
  · rw [hi, hv]
    exact h.idx
  · rw [hp, hi]
    exact h.key
  · rw [hp, hi, hj]
    exact h.frist
  · rw [hp, hi, hj]
    exact h.verweis
  · rw [hp, hj]
    exact h.einzig

theorem OffenerSatz.gleich (h : OffenerSatz px s a id) (hg : Gleich s s') :
    OffenerSatz px s' a id := by
  obtain ⟨hp, hi, hj, hv⟩ := hg
  refine ⟨hv ▸ h.vergeben, ?_, ?_, ?_⟩
  · rw [hi]
    exact h.idx
  · rw [hp]
    exact h.satz
  · rw [hp, hj]
    exact h.frist

/-! ### Deleting -/

/-- The store without an entry and without the index of a key. -/
def Ablage.ohne (s : Ablage) (id : String) (k : Option String) : Ablage :=
  { s with pending := Function.update s.pending id none, idx := ohneKey s.idx k }

theorem ohneKey_eq_some {m : Familie String} {k : Option String} {k' : String}
    {e : Eintrag String} :
    ohneKey m k k' = some e ↔ m k' = some e ∧ k ≠ some k' := by
  cases k with
  | none => simp [ohneKey]
  | some k =>
      by_cases hk : k' = k
      · subst hk
        simp [ohneKey]
      · have hne : k ≠ k' := fun h => hk h.symm
        simp [ohneKey, hk, hne]

theorem update_none_eq_some_iff {m : Familie Blob} {i i' : String} {f : Eintrag Blob} :
    Function.update m i none i' = some f ↔ i' ≠ i ∧ m i' = some f := by
  by_cases hi : i' = i
  · subst hi
    simp
  · simp [hi]

/-- A deletion that takes no index of another entry along. -/
theorem Register.ohne (h : Register px offen s) {k : Option String}
    (hfrei : ∀ k', k = some k' → IndexFrei s k' id) : Register px offen (s.ohne id k) where
  leer := h.leer
  satz := by
    intro i f hf
    exact h.satz i f (update_none_eq_some_iff.mp hf).2
  idx := by
    intro k' e he
    exact h.idx k' e (ohneKey_eq_some.mp he).1
  key := by
    intro k' e f b he hf
    exact h.key k' e f b (ohneKey_eq_some.mp he).1 (update_none_eq_some_iff.mp hf).2
  frist := by
    intro k' e f t he hf
    exact h.frist k' e f t (ohneKey_eq_some.mp he).1 (update_none_eq_some_iff.mp hf).2
  verweis := by
    intro i f hf hl
    obtain ⟨hne, hf⟩ := update_none_eq_some_iff.mp hf
    rcases h.verweis i f hf hl with ho | ⟨k', e, he, hw⟩
    · exact .inl ho
    · refine .inr ⟨k', e, ohneKey_eq_some.mpr ⟨he, fun hk => ?_⟩, hw⟩
      refine hne (hw ▸ hfrei k' hk e he ?_)
      rw [hw]
      exact lies_isSome_iff.mpr ⟨f, hf, hl⟩
  einzig := by
    intro i i' f f' b b' hf hl hw hf' hl' hw'
    exact h.einzig i i' f f' b b' (update_none_eq_some_iff.mp hf).2 hl hw
      (update_none_eq_some_iff.mp hf').2 hl' hw'

theorem OffenerSatz.ohne (h : OffenerSatz px s a id) (i : String) (k : Option String) :
    OffenerSatz px (s.ohne i k) a id where
  vergeben := h.vergeben
  idx := by
    intro k' e he
    exact h.idx k' e (ohneKey_eq_some.mp he).1
  satz := by
    intro f hf
    exact h.satz f (update_none_eq_some_iff.mp hf).2
  frist := by
    intro f t hf
    exact h.frist f t (update_none_eq_some_iff.mp hf).2

/-! ### Writing the entry -/

theorem payload_inj {a b : Auftrag} {f : Eintrag Blob} (ha : f.wert = .json (a.payload id))
    (hb : f.wert = .json (b.payload id)) : a = b := by
  have heq : a.payload id = b.payload id := Blob.json.inj (ha.symm.trans hb)
  cases a
  cases b
  simpa [Auftrag.payload] using heq

/-- What expires later lives longer. -/
theorem setze_lebt {α : Type} {jetzt t : Int} {alt : Option (Eintrag α)} (w : α)
    (halt : px = 0 → ∀ e, alt = some e → e.frist = none) (ht : px = 0 ∨ t ≤ jetzt + px) :
    (setze jetzt alt w px).lebt t = true := by
  by_cases hpx : px = 0
  · cases alt with
    | none => simp [setze, hpx, Eintrag.lebt]
    | some e => simp [setze, hpx, Eintrag.lebt, halt hpx e rfl]
  · have hle : t ≤ jetzt + px := ht.resolve_left hpx
    simp [setze, hpx, Eintrag.lebt, hle]

theorem setze_frist_none {α : Type} {jetzt : Int} {alt : Option (Eintrag α)} (w : α)
    (hpx : px = 0) (halt : ∀ e, alt = some e → e.frist = none) :
    (setze jetzt alt w px).frist = none := by
  cases alt with
  | none => simp [setze, hpx]
  | some e => simp [setze, hpx, halt e rfl]

theorem mitPending_eq_some {b : Blob} {i : String} {f : Eintrag Blob} :
    (s.mitPending id b px).pending i = some f ↔
      i = id ∧ f = setze s.jetzt (s.pending id) b px ∨ i ≠ id ∧ s.pending i = some f := by
  by_cases hi : i = id
  · subst hi
    simp [Ablage.mitPending, eq_comm]
  · simp [Ablage.mitPending, hi]

/-- A push writes its entry while no order of its pair waits. -/
theorem Register.mitPending (h : Register px offen s) (hid : id ∉ s.vergeben)
    (ha : a.Eindeutig) (hkein : ∀ i, ¬Wartet s i a.userId a.symbol) :
    Register px (fun i => offen i ∨ i = id) (s.mitPending id (.json (a.payload id)) px) where
  leer := .inr h.leer
  satz := by
    intro i f hf
    rcases mitPending_eq_some.mp hf with ⟨rfl, rfl⟩ | ⟨-, hf⟩
    · exact ⟨.inl rfl, fun hleer => hid (hleer ▸ h.leer), a, rfl, ha⟩
    · obtain ⟨hv, hrest⟩ := h.satz i f hf
      exact ⟨.inr hv, hrest⟩
  idx := by
    intro k e he
    obtain ⟨hv, hfrist⟩ := h.idx k e he
    exact ⟨.inr hv, hfrist⟩
  key := by
    intro k e f b he hf
    rcases mitPending_eq_some.mp hf with ⟨hw, -⟩ | ⟨-, hf⟩
    · exact absurd (hw ▸ (h.idx k e he).1) hid
    · exact h.key k e f b he hf
  frist := by
    intro k e f t he hf
    rcases mitPending_eq_some.mp hf with ⟨hw, -⟩ | ⟨-, hf⟩
    · exact absurd (hw ▸ (h.idx k e he).1) hid
    · exact h.frist k e f t he hf
  verweis := by
    intro i f hf hl
    rcases mitPending_eq_some.mp hf with ⟨rfl, -⟩ | ⟨-, hf⟩
    · exact .inl (.inr rfl)
    · rcases h.verweis i f hf hl with ho | hv
      · exact .inl (.inl ho)
      · exact .inr hv
  einzig := by
    have hfremd : ∀ i f (b b' : Auftrag), s.pending i = some f → f.lebt s.jetzt = true →
        f.wert = .json (b.payload i) →
        (setze s.jetzt (s.pending id) (.json (a.payload id)) px).wert = .json (b'.payload id) →
        b.key = b'.key → False := by
      intro i f b b' hf hl hw hw' hk
      obtain rfl : a = b' := payload_inj (f := setze s.jetzt (s.pending id) _ px) rfl hw'
      obtain ⟨hu, hs⟩ := ha b.userId b.symbol hk
      refine hkein i ⟨b.payload i, ?_, hu.symm, hs.symm⟩
      rw [hf, lies_of_lebt hl, hw]
    intro i i' f f' b b' hf hl hw hf' hl' hw' hk
    rcases mitPending_eq_some.mp hf with ⟨rfl, rfl⟩ | ⟨-, halt⟩
    · rcases mitPending_eq_some.mp hf' with ⟨rfl, -⟩ | ⟨-, halt'⟩
      · rfl
      · exact (hfremd i' f' b' b halt' hl' hw' hw hk.symm).elim
    · rcases mitPending_eq_some.mp hf' with ⟨rfl, rfl⟩ | ⟨-, halt'⟩
      · exact (hfremd i f b b' halt hl hw hw' hk).elim
      · exact h.einzig i i' f f' b b' halt hl hw halt' hl' hw' hk

/-- The push that wrote it is open. -/
theorem OffenerSatz.neu (h : Register px offen s) (hid : id ∉ s.vergeben) :
    OffenerSatz px (s.mitPending id (.json (a.payload id)) px) a id where
  vergeben := .inl rfl
  idx := by
    intro k e he hw
    exact hid (hw ▸ (h.idx k e he).1)
  satz := by
    intro f hf
    rcases mitPending_eq_some.mp hf with ⟨-, rfl⟩ | ⟨hne, -⟩
    · rfl
    · exact absurd rfl hne
  frist := by
    intro f t hf hl
    rcases mitPending_eq_some.mp hf with ⟨-, rfl⟩ | ⟨hne, -⟩
    · by_cases hpx : px = 0
      · exact .inl hpx
      · refine .inr ?_
        show t ≤ s.jetzt + px
        simpa [setze, hpx, Eintrag.lebt] using hl
    · exact absurd rfl hne

theorem OffenerSatz.mitPending (h : OffenerSatz px s a id) {i : String} (hi : i ∉ s.vergeben)
    (b : Blob) : OffenerSatz px (s.mitPending i b px) a id where
  vergeben := .inr h.vergeben
  idx := h.idx
  satz := by
    intro f hf
    rcases mitPending_eq_some.mp hf with ⟨heq, -⟩ | ⟨-, hf⟩
    · exact absurd (heq ▸ h.vergeben) hi
    · exact h.satz f hf
  frist := by
    intro f t hf
    rcases mitPending_eq_some.mp hf with ⟨heq, -⟩ | ⟨-, hf⟩
    · exact absurd (heq ▸ h.vergeben) hi
    · exact h.frist f t hf

/-! ### Writing the index -/

theorem mitIdx_eq_some {k k' w : String} {e : Eintrag String} :
    (s.mitIdx k w px).idx k' = some e ↔
      k' = k ∧ e = setze s.jetzt (s.idx k) w px ∨ k' ≠ k ∧ s.idx k' = some e := by
  by_cases hk : k' = k
  · subst hk
    simp [Ablage.mitIdx, eq_comm]
  · simp [Ablage.mitIdx, hk]

/-- A push writes its index over one that names no other entry that is alive. -/
theorem Register.mitIdx (h : Register px offen s) (ho : OffenerSatz px s a id)
    (hfrei : IndexFrei s a.key id) :
    Register px (fun i => offen i ∧ i ≠ id) (s.mitIdx a.key id px) where
  leer := h.leer
  satz := h.satz
  idx := by
    intro k e he
    rcases mitIdx_eq_some.mp he with ⟨-, rfl⟩ | ⟨-, he⟩
    · exact ⟨ho.vergeben, fun hpx =>
        setze_frist_none id hpx fun e he => (h.idx a.key e he).2 hpx⟩
    · exact h.idx k e he
  key := by
    intro k e f b he hf hw
    rcases mitIdx_eq_some.mp he with ⟨rfl, rfl⟩ | ⟨-, he⟩
    · obtain rfl : a = b := payload_inj (ho.satz f hf) hw
      rfl
    · exact h.key k e f b he hf hw
  frist := by
    intro k e f t he hf hjetzt hl
    rcases mitIdx_eq_some.mp he with ⟨rfl, rfl⟩ | ⟨-, he⟩
    · exact setze_lebt id (fun hpx e he => (h.idx a.key e he).2 hpx) (ho.frist f t hf hl)
    · exact h.frist k e f t he hf hjetzt hl
  verweis := by
    intro i f hf hl
    by_cases hi : i = id
    · subst hi
      exact .inr ⟨a.key, _, mitIdx_eq_some.mpr (.inl ⟨rfl, rfl⟩), rfl⟩
    · rcases h.verweis i f hf hl with hoffen | ⟨k, e, he, hw⟩
      · exact .inl ⟨hoffen, hi⟩
      · refine .inr ⟨k, e, mitIdx_eq_some.mpr (.inr ⟨fun hk => ?_, he⟩), hw⟩
        subst hk
        refine hi (hw ▸ hfrei e he ?_)
        rw [hw]
        exact lies_isSome_iff.mpr ⟨f, hf, hl⟩
  einzig := h.einzig

theorem OffenerSatz.mitIdx (h : OffenerSatz px s a id) (k : String) {i : String} (hi : i ≠ id) :
    OffenerSatz px (s.mitIdx k i px) a id where
  vergeben := h.vergeben
  idx := by
    intro k' e he
    rcases mitIdx_eq_some.mp he with ⟨-, rfl⟩ | ⟨-, he⟩
    · exact hi
    · exact h.idx k' e he
  satz := h.satz
  frist := h.frist

/-! ### Time -/

theorem lebt_mono {α : Type} {e : Eintrag α} {t t' : Int} (h : e.lebt t' = true) (hle : t ≤ t') :
    e.lebt t = true := by
  cases hf : e.frist with
  | none => simp [Eintrag.lebt, hf]
  | some d =>
      simp only [Eintrag.lebt, hf, decide_eq_true_eq] at h ⊢
      omega

/-- Time takes an index only after its entry. -/
theorem Register.vergeht (h : Register px offen s) (hv : Vergeht (· ≤ ·) s s') :
    Register px offen s' where
  leer := hv.vergeben ▸ h.leer
  satz := by
    rw [hv.vergeben]
    intro i f hf
    exact h.satz i f (hv.pending.of_eq_some hf)
  idx := by
    rw [hv.vergeben]
    intro k e he
    exact h.idx k e (hv.idx.of_eq_some he)
  key := by
    intro k e f b he hf
    exact h.key k e f b (hv.idx.of_eq_some he) (hv.pending.of_eq_some hf)
  frist := by
    intro k e f t he hf hjetzt
    exact h.frist k e f t (hv.idx.of_eq_some he) (hv.pending.of_eq_some hf)
      (le_trans hv.jetzt hjetzt)
  verweis := by
    intro i f hf hl
    have hpending := hv.pending.of_eq_some hf
    rcases h.verweis i f hpending (lebt_mono hl hv.jetzt) with ho | ⟨k, e, he, hw⟩
    · exact .inl ho
    · refine .inr ⟨k, e, ?_, hw⟩
      have hlebt : e.lebt s'.jetzt = true :=
        h.frist k e f s'.jetzt he (by rw [hw]; exact hpending) hv.jetzt hl
      rcases hv.idx k with hgleich | ⟨-, htot⟩
      · rw [hgleich, he]
      · rw [he, lies_of_lebt hlebt] at htot
        cases htot
  einzig := by
    intro i i' f f' b b' hf hl hw hf' hl' hw'
    exact h.einzig i i' f f' b b' (hv.pending.of_eq_some hf) (lebt_mono hl hv.jetzt) hw
      (hv.pending.of_eq_some hf') (lebt_mono hl' hv.jetzt) hw'

theorem OffenerSatz.vergeht (h : OffenerSatz px s a id) (hv : Vergeht (· ≤ ·) s s') :
    OffenerSatz px s' a id where
  vergeben := hv.vergeben ▸ h.vergeben
  idx := by
    intro k e he
    exact h.idx k e (hv.idx.of_eq_some he)
  satz := by
    intro f hf
    exact h.satz f (hv.pending.of_eq_some hf)
  frist := by
    intro f t hf hl
    have hjetzt : s.jetzt ≤ s'.jetzt := hv.jetzt
    have halt := h.frist f t (hv.pending.of_eq_some hf) hl
    omega

end

/-! ## A key in use -/

/-- The key of the index that a call has in use, and the entry it has read or
written under it. -/
def Punkt.kennt : Punkt → Option (String × Option String)
  | .pushErsetzen a existing => some (a.key, some existing)
  | .pushPending a => some (a.key, none)
  | .pushIndex a id => some (a.key, some id)
  | .approveSetzen id p => some (idxKey p.userId p.symbol, some id)
  | .approveLoeschen id p => some (idxKey p.userId p.symbol, some id)
  | .rejectLoeschen id idx => idx.map fun k => (k, some id)
  | _ => none

/-- The key that a call has in use after the read it is about to make. -/
def Punkt.beginnt (s : Ablage) : Punkt → Option String
  | .pushIdx a => some a.key
  | .approveLesen id => rejectIdx (lies s.jetzt (s.pending id))
  | .rejectLesen id => rejectIdx (lies s.jetzt (s.pending id))
  | _ => none

/-- The order of a push that has got as far as the index. -/
def Punkt.auftrag : Punkt → Option Auftrag
  | .pushIdx a => some a
  | .pushErsetzen a _ => some a
  | .pushPending a => some a
  | .pushIndex a _ => some a
  | _ => none

/-- No order lives under a key, except under the id. -/
def Nur (s : Ablage) (k : String) (o : Option String) : Prop :=
  ∀ id f (a : Auftrag), s.pending id = some f → f.lebt s.jetzt = true →
    f.wert = .json (a.payload id) → a.key = k → o = some id

section

variable {px : Int} {s s' : Ablage} {offen : String → Prop} {a : Auftrag} {id k : String}
  {o : Option String}

/-- What waits is the order of a push. -/
theorem Register.auftrag {userId symbol : String} (h : Register px offen s)
    (hw : Wartet s id userId symbol) : ∃ (a : Auftrag) (f : Eintrag Blob),
      s.pending id = some f ∧ f.lebt s.jetzt = true ∧ f.wert = .json (a.payload id) ∧
        a.key = idxKey userId symbol := by
  obtain ⟨payload, hlies, hu, hs⟩ := hw
  obtain ⟨f, hf, hl⟩ := lies_isSome_iff.mp (Option.isSome_of_eq_some hlies)
  obtain ⟨-, -, a, hwert, -⟩ := h.satz id f hf
  rw [hf, lies_of_lebt hl, hwert] at hlies
  obtain rfl : a.payload id = payload := by simpa using hlies
  refine ⟨a, f, hf, hl, hwert, ?_⟩
  rw [Auftrag.key, ← hu, ← hs]
  rfl

theorem Nur.gleich (h : Nur s k o) (hg : Gleich s s') : Nur s' k o := by
  obtain ⟨hp, -, hj, -⟩ := hg
  unfold Nur
  rw [hp, hj]
  exact h

theorem Nur.ohne (h : Nur s k o) (i : String) (k' : Option String) : Nur (s.ohne i k') k o :=
  fun id f a hf => h id f a (update_none_eq_some_iff.mp hf).2

/-- Deleting the entry leaves none. -/
theorem Nur.ohne_selbst (h : Nur s k (some id)) (k' : Option String) :
    Nur (s.ohne id k') k none := by
  intro i f a hf hl hw hk
  obtain ⟨hne, hf⟩ := update_none_eq_some_iff.mp hf
  exact absurd (Option.some.inj (h i f a hf hl hw hk)).symm hne

/-- An order of another key is written. -/
theorem Nur.mitPending (h : Nur s k o) (hk : a.key ≠ k) :
    Nur (s.mitPending id (.json (a.payload id)) px) k o := by
  intro i f b hf hl hw hb
  rcases mitPending_eq_some.mp hf with ⟨rfl, rfl⟩ | ⟨-, hf⟩
  · obtain rfl : a = b := payload_inj (f := setze s.jetzt (s.pending i) _ px) rfl hw
    exact absurd hb hk
  · exact h i f b hf hl hw hb

/-- An order of this key is written where there is none. -/
theorem Nur.mitPending_selbst (h : Nur s k none) (id : String) :
    Nur (s.mitPending id (.json (a.payload id)) px) k (some id) := by
  intro i f b hf hl hw hb
  rcases mitPending_eq_some.mp hf with ⟨rfl, -⟩ | ⟨-, hf⟩
  · rfl
  · cases h i f b hf hl hw hb

theorem Nur.vergeht (h : Nur s k o) (hv : Vergeht (· ≤ ·) s s') : Nur s' k o :=
  fun id f a hf hl => h id f a (hv.pending.of_eq_some hf) (lebt_mono hl hv.jetzt)

/-- The index of the key names no other order that lives. -/
theorem Nur.indexFrei (h : Nur s k (some id)) (hr : Register px offen s) : IndexFrei s k id := by
  intro e he hsome
  obtain ⟨f, hf, hl⟩ := lies_isSome_iff.mp hsome
  obtain ⟨-, -, a, hwert, -⟩ := hr.satz e.wert f hf
  exact (Option.some.inj (h e.wert f a hf hl hwert (hr.key k e f a he hf hwert))).symm

/-- What no order lives under, nobody waits under. -/
theorem Nur.wartet_nicht (h : Nur s a.key none) (hr : Register px offen s) (id : String) :
    ¬Wartet s id a.userId a.symbol := by
  intro hw
  obtain ⟨b, f, hf, hl, hwert, hkey⟩ := hr.auftrag hw
  cases h id f b hf hl hwert hkey

/-- The only order that may live where no push is open is the one the index names. -/
theorem Register.nur_idx (hr : Register px offen s)
    (hoffen : ∀ id f (a : Auftrag), s.pending id = some f → f.wert = .json (a.payload id) →
      a.key = k → ¬offen id) : Nur s k (lies s.jetzt (s.idx k)) := by
  intro id f a hf hl hw hk
  rcases hr.verweis id f hf hl with ho | ⟨k', e, he, rfl⟩
  · exact absurd ho (hoffen id f a hf hw hk)
  · obtain rfl : k = k' := hk.symm.trans (hr.key k' e f a he hf hw)
    rw [he, lies_of_lebt (hr.frist k e f s.jetzt he hf le_rfl hl)]

/-- No order lives under the empty id. -/
theorem Register.nur_leer (hr : Register px offen s) (h : Nur s k (some "")) : Nur s k none := by
  intro id f a hf hl hw hk
  obtain rfl := Option.some.inj (h id f a hf hl hw hk)
  exact absurd rfl (hr.satz "" f hf).2.1

/-- The order that was read is the only one of its pair. -/
theorem Register.nur_satz (hr : Register px offen s)
    (hk : rejectIdx (lies s.jetzt (s.pending id)) = some k) : Nur s k (some id) := by
  cases hlies : lies s.jetzt (s.pending id) with
  | none => simp [hlies, rejectIdx] at hk
  | some b =>
      obtain ⟨f, hf, hl⟩ := lies_isSome_iff.mp (Option.isSome_of_eq_some hlies)
      obtain ⟨-, -, a, hwert, -⟩ := hr.satz id f hf
      rw [hf, lies_of_lebt hl, hwert] at hk
      obtain rfl : a.key = k := by simpa [rejectIdx, Auftrag.payload, Auftrag.key] using hk
      intro i f' b' hf' hl' hw' hkey
      rw [hr.einzig i id f' f b' a hf' hl' hw' hf hl hwert hkey]

end

/-- The commands after which a call has a key in use. -/
inductive Nutzung (px : Int) (s : Ablage) : Punkt → Ablage → Punkt → Prop where
  | belegt {a existing} : lies s.jetzt (s.idx a.key) = some existing →
      Nutzung px s (.pushIdx a) s (.pushErsetzen a existing)
  | frei {a} : (∀ id, lies s.jetzt (s.idx a.key) = some id → id = "") →
      Nutzung px s (.pushIdx a) s (.pushPending a)
  | ersetzt {a existing} : Nutzung px s (.pushErsetzen a existing)
      (s.ohne existing (some a.key)) (.pushPending a)
  | geschrieben {a id} : Nutzung px s (.pushPending a)
      (s.mitPending id (.json (a.payload id)) px) (.pushIndex a id)
  | geholt {id p} : lies s.jetzt (s.pending id) = some (.json p) →
      Nutzung px s (.approveLesen id) s (.approveSetzen id p)
  | freigegeben {id p} : Nutzung px s (.approveSetzen id p) (s.mitApproved id (.json p))
      (.approveLoeschen id p)
  | gesehen {id k} : rejectIdx (lies s.jetzt (s.pending id)) = some k →
      Nutzung px s (.rejectLesen id) s (.rejectLoeschen id (some k))

theorem kennt_mitRedis {ruf : Ruf} {q : Punkt} (h : ruf.mitRedis = .inl q) : q.kennt = none := by
  cases ruf with
  | ackInflight i =>
      rw [Ruf.mitRedis] at h
      split at h <;> cases h
      rfl
  | _ =>
      cases h
      rfl

theorem kennt_claimWeiter {results : List Payload} {keys : List String} {q : Punkt}
    (h : claimWeiter results keys = .inl q) : q.kennt = none := by
  cases keys with
  | nil => cases h
  | cons key keys =>
      cases h
      rfl

/-- Every command is one of these, or uses no key after it. -/
theorem Zugriff.nutzung {px : Int} {s s' : Ablage} {q q' : Punkt}
    (h : Zugriff px s q s' (.inl q')) (hk : q'.kennt ≠ none) : Nutzung px s q s' q' := by
  generalize hr : (Sum.inl q' : Punkt ⊕ Antwort) = r at h
  cases h with
  | mitRedis => exact absurd (kennt_mitRedis hr.symm) hk
  | @pushIdx a =>
      cases hidx : lies s.jetzt (s.idx (idxKey a.userId a.symbol)) with
      | none =>
          rw [hidx] at hr
          cases hr
          exact .frei fun id hid => by simp [Auftrag.key, hidx] at hid
      | some existing =>
          rw [hidx, nachPushIdx] at hr
          split at hr
          next hleer =>
            cases hr
            exact .frei fun id hid => (Option.some.inj (hidx.symm.trans hid)).symm.trans hleer
          next =>
            cases hr
            exact .belegt hidx
  | pushErsetzen =>
      cases hr
      exact .ersetzt
  | pushPending =>
      cases hr
      exact .geschrieben
  | @approveLesen id =>
      cases hlies : lies s.jetzt (s.pending id) with
      | none => simp [hlies, nachApproveLesen] at hr
      | some b =>
          cases b with
          | json p =>
              rw [hlies] at hr
              cases hr
              exact .geholt hlies
          | text t =>
              rw [hlies, nachApproveLesen] at hr
              split at hr <;> cases hr
  | approveSetzen =>
      cases hr
      exact .freigegeben
  | @rejectLesen id =>
      cases hr
      cases hidx : rejectIdx (lies s.jetzt (s.pending id)) with
      | none => exact absurd (by rw [hidx]; rfl) hk
      | some k => exact .gesehen hidx
  | claimKeys => exact absurd (kennt_claimWeiter hr.symm) hk
  | @claimLesen key keys results =>
      cases hr
      refine absurd ?_ hk
      cases lies s.jetzt (s.approved key) with
      | none => rfl
      | some b => cases b <;> rfl
  | claimVerwerfen => exact absurd (kennt_claimWeiter hr.symm) hk
  | claimMarkieren =>
      cases hr
      exact absurd rfl hk
  | claimEntnehmen => exact absurd (kennt_claimWeiter hr.symm) hk
  | pendingIdx =>
      refine absurd ?_ hk
      unfold nachPendingIdx at hr
      split at hr
      · cases hr
      · split at hr <;> cases hr
        rfl
  | _ => cases hr

/-- The call has the key in use already, or has just begun. -/
theorem Nutzung.key {px : Int} {s s' : Ablage} {q q' : Punkt} (h : Nutzung px s q s' q') :
    q'.auftrag = q.auftrag ∧ ∃ k o, q'.kennt = some (k, o) ∧
      (q.beginnt s = some k ∨ ∃ o', q.kennt = some (k, o')) := by
  cases h with
  | belegt => exact ⟨rfl, _, _, rfl, .inl rfl⟩
  | frei => exact ⟨rfl, _, _, rfl, .inl rfl⟩
  | ersetzt => exact ⟨rfl, _, _, rfl, .inr ⟨_, rfl⟩⟩
  | geschrieben => exact ⟨rfl, _, _, rfl, .inr ⟨_, rfl⟩⟩
  | @geholt id p hlies =>
      refine ⟨rfl, _, _, rfl, .inl ?_⟩
      rw [Punkt.beginnt, hlies]
      rfl
  | freigegeben => exact ⟨rfl, _, _, rfl, .inr ⟨_, rfl⟩⟩
  | gesehen hk => exact ⟨rfl, _, _, rfl, .inl hk⟩

/-- What a call has read or written is all that lives under its key. -/
theorem Nutzung.nur {px : Int} {s s' : Ablage} {q q' : Punkt} {offen : String → Prop}
    {k : String} {o : Option String} (h : Nutzung px s q s' q') (hr : Register px offen s)
    (halt : ∀ k o, q.kennt = some (k, o) → Nur s k o)
    (hoffen : ∀ a, q = .pushIdx a → ∀ id f (b : Auftrag), s.pending id = some f →
      f.wert = .json (b.payload id) → b.key = a.key → ¬offen id)
    (hk : q'.kennt = some (k, o)) : Nur s' k o := by
  cases h with
  | @belegt a existing hidx =>
      obtain ⟨rfl, rfl⟩ : a.key = k ∧ some existing = o := by simpa [Punkt.kennt] using hk
      rw [← hidx]
      exact hr.nur_idx (hoffen a rfl)
  | @frei a hidx =>
      obtain ⟨rfl, rfl⟩ : a.key = k ∧ none = o := by simpa [Punkt.kennt] using hk
      have hnur := hr.nur_idx (hoffen a rfl)
      cases hlies : lies s.jetzt (s.idx a.key) with
      | none => rwa [hlies] at hnur
      | some id =>
          obtain rfl := hidx id hlies
          rw [hlies] at hnur
          exact hr.nur_leer hnur
  | @ersetzt a existing =>
      obtain ⟨rfl, rfl⟩ : a.key = k ∧ none = o := by simpa [Punkt.kennt] using hk
      exact (halt _ _ rfl).ohne_selbst _
  | @geschrieben a id =>
      obtain ⟨rfl, rfl⟩ : a.key = k ∧ some id = o := by simpa [Punkt.kennt] using hk
      exact (halt _ _ rfl).mitPending_selbst id
  | @geholt id p hlies =>
      obtain ⟨rfl, rfl⟩ : idxKey p.userId p.symbol = k ∧ some id = o := by
        simpa [Punkt.kennt] using hk
      exact hr.nur_satz (by rw [hlies]; rfl)
  | freigegeben => exact halt _ _ hk
  | @gesehen id k' hidx =>
      obtain ⟨rfl, rfl⟩ : k' = k ∧ some id = o := by simpa [Punkt.kennt] using hk
      exact hr.nur_satz hidx

/-- The commands of the others add no order to a key that no push of theirs has in
use. -/
theorem Nur.fremd {px : Int} {s s' : Ablage} {q : Punkt} {r : Punkt ⊕ Antwort} {k : String}
    {o : Option String} (h : Nur s k o) (hz : Zugriff px s q s' r)
    (hk : ∀ a, q = .pushPending a → a.key ≠ k) : Nur s' k o := by
  cases hz.eintraege with
  | gleich hg => exact h.gleich hg
  | weg _ hg => exact (h.ohne _ _).gleich hg
  | satz => exact h.mitPending (hk _ rfl)
  | verweis => exact h

/-! ## All runs -/

/-- A push that has written its entry under the id and not its index. -/
def OffenerPush (jobs : Nat → Option (Job Ruf Punkt)) (a : Auftrag) (id : String) : Prop :=
  ∃ i c n, jobs i = some ⟨c, n, .pushIndex a id⟩

/-- No call is in the way of a push.  A push begins while no other call has its key
in use, and no call begins on a key that a push has in use; no other user and symbol
have the key of a push; and no process dies between the writes of a push, unless the
entry is gone. -/
structure Geordnet (p : Pool Ablage Ruf Punkt Antwort) (act : PoolAct Ruf) (_ : Ablage) :
    Prop where
  getrennt : ∀ i c n q k, act = .access i → p.jobs i = some ⟨c, n, q⟩ →
    q.beginnt p.store = some k → ∀ i' c' n' q' o, i' ≠ i → p.jobs i' = some ⟨c', n', q'⟩ →
      q'.kennt = some (k, o) → q.auftrag = none ∧ q'.auftrag = none
  eindeutig : ∀ i c n a, act = .access i → p.jobs i = some ⟨c, n, .pushIdx a⟩ → a.Eindeutig
  stirbt : ∀ i c n a id, act = .crash i → p.jobs i = some ⟨c, n, .pushIndex a id⟩ →
    lies p.store.jetzt (p.store.pending id) = none

/-- Each call knows what lives under the key it has in use, and shares it with no
push. -/
structure Genutzt (p : Pool Ablage Ruf Punkt Antwort) : Prop where
  nur : ∀ i c n q k o, p.jobs i = some ⟨c, n, q⟩ → q.kennt = some (k, o) → Nur p.store k o
  eindeutig : ∀ i c n q a, p.jobs i = some ⟨c, n, q⟩ → q.kennt ≠ none → q.auftrag = some a →
    a.Eindeutig
  getrennt : ∀ i i' c c' n n' q q' k o o', i ≠ i' → p.jobs i = some ⟨c, n, q⟩ →
    p.jobs i' = some ⟨c', n', q'⟩ → q.kennt = some (k, o) → q'.kennt = some (k, o') →
      q.auftrag = none

/-- Entries and index agree, and the open pushes are known. -/
structure Gefuehrt (px : Int) (p : Pool Ablage Ruf Punkt Antwort) : Prop where
  register : Register px (fun id => ∃ a, OffenerPush p.jobs a id) p.store
  offen : ∀ i c n a id, p.jobs i = some ⟨c, n, .pushIndex a id⟩ → OffenerSatz px p.store a id
  einzeln : ∀ i i' c c' n n' a a' id, p.jobs i = some ⟨c, n, .pushIndex a id⟩ →
    p.jobs i' = some ⟨c', n', .pushIndex a' id⟩ → i = i'

/-- What a command finds that writes an entry or an index, or deletes one. -/
structure Unbehindert (s : Ablage) (q : Punkt) : Prop where
  satz : ∀ a, q = .pushPending a → a.Eindeutig ∧ ∀ id, ¬Wartet s id a.userId a.symbol
  verweis : ∀ a id, q = .pushIndex a id → IndexFrei s a.key id
  loescht : ∀ id k, q.loescht = some (id, some k) → IndexFrei s k id

section

variable {px : Int} {p : Pool Ablage Ruf Punkt Antwort} {s : Ablage} {i n : Nat} {c : Ruf}
  {q : Punkt}

/-- A client goes on to a point that is not open, and the store keeps the entries
and the index of the other clients. -/
theorem Gefuehrt.weiter {l : List (Done Ruf Antwort)} {x : Option (Job Ruf Punkt)}
    (h : Gefuehrt px p) (hx : ∀ c n a id, x ≠ some ⟨c, n, .pushIndex a id⟩)
    (hregister : Register px (fun id => ∃ a, OffenerPush (Function.update p.jobs i x) a id) s)
    (hoffen : ∀ i' c n a id, i' ≠ i → p.jobs i' = some ⟨c, n, .pushIndex a id⟩ →
      OffenerSatz px s a id) :
    Gefuehrt px ⟨s, Function.update p.jobs i x, l⟩ where
  register := hregister
  offen := by
    intro i' c n a id hj
    rcases update_jobs_eq_some.mp hj with ⟨-, heq⟩ | ⟨hne, hj⟩
    · exact absurd heq (hx c n a id)
    · exact hoffen i' c n a id hne hj
  einzeln := by
    intro i₁ i₂ c₁ c₂ n₁ n₂ a₁ a₂ id h₁ h₂
    rcases update_jobs_eq_some.mp h₁ with ⟨-, heq⟩ | ⟨-, h₁⟩
    · exact absurd heq (hx _ _ _ _)
    · rcases update_jobs_eq_some.mp h₂ with ⟨-, heq⟩ | ⟨-, h₂⟩
      · exact absurd heq (hx _ _ _ _)
      · exact h.einzeln i₁ i₂ c₁ c₂ n₁ n₂ a₁ a₂ id h₁ h₂

/-- An open push stays open while another client goes on. -/
theorem OffenerPush.update {a : Auftrag} {id : String} {x : Option (Job Ruf Punkt)}
    (h : OffenerPush p.jobs a id) (hi : ∀ c n, p.jobs i ≠ some ⟨c, n, .pushIndex a id⟩) :
    OffenerPush (Function.update p.jobs i x) a id := by
  obtain ⟨i', c', n', hj⟩ := h
  have hne : i' ≠ i := by
    intro heq
    exact hi c' n' (heq ▸ hj)
  exact ⟨i', c', n', by rw [Function.update_of_ne hne]; exact hj⟩

/-- The job of a client that goes on to a point or an answer. -/
def danach (c : Ruf) (n : Nat) : Punkt ⊕ Antwort → Option (Job Ruf Punkt)
  | .inl q => some ⟨c, n, q⟩
  | .inr _ => none

/-- A call that knows what lives under its key finds the index free. -/
theorem Genutzt.frei {offen : String → Prop} (h : Genutzt p) (hr : Register px offen p.store)
    (hi : p.jobs i = some ⟨c, n, q⟩) : Unbehindert p.store q where
  satz := by
    rintro a rfl
    exact ⟨h.eindeutig i c n _ a hi nofun rfl, (h.nur i c n _ _ _ hi rfl).wartet_nicht hr⟩
  verweis := by
    rintro a id rfl
    exact (h.nur i c n _ _ _ hi rfl).indexFrei hr
  loescht := by
    intro id k hq
    have hkennt : q.kennt = some (k, some id) := by
      cases q with
      | pushErsetzen a existing =>
          obtain ⟨rfl, rfl⟩ : existing = id ∧ a.key = k := by simpa [Punkt.loescht] using hq
          rfl
      | approveLoeschen id' p =>
          obtain ⟨rfl, rfl⟩ : id' = id ∧ idxKey p.userId p.symbol = k := by
            simpa [Punkt.loescht] using hq
          rfl
      | rejectLoeschen id' idx =>
          obtain ⟨rfl, rfl⟩ : id' = id ∧ idx = some k := by simpa [Punkt.loescht] using hq
          rfl
      | _ => cases hq
    exact (h.nur i c n q k _ hi hkennt).indexFrei hr

/-- A client stops or answers, and the store keeps what the others know. -/
theorem Genutzt.ohne {l : List (Done Ruf Antwort)} {x : Option (Job Ruf Punkt)} (h : Genutzt p)
    (hx : ∀ c n q, x = some ⟨c, n, q⟩ → q.kennt = none)
    (hnur : ∀ i' c n q k o, i' ≠ i → p.jobs i' = some ⟨c, n, q⟩ → q.kennt = some (k, o) →
      Nur s k o) :
    Genutzt ⟨s, Function.update p.jobs i x, l⟩ where
  nur := by
    intro i' c n q k o hj hk
    rcases update_jobs_eq_some.mp hj with ⟨-, rfl⟩ | ⟨hne, hj⟩
    · simp [hx c n q rfl] at hk
    · exact hnur i' c n q k o hne hj hk
  eindeutig := by
    intro i' c n q a hj hk
    rcases update_jobs_eq_some.mp hj with ⟨-, rfl⟩ | ⟨-, hj⟩
    · exact absurd (hx c n q rfl) hk
    · exact h.eindeutig i' c n q a hj hk
  getrennt := by
    intro i₁ i₂ c₁ c₂ n₁ n₂ q₁ q₂ k o o' hne h₁ h₂ hk₁ hk₂
    rcases update_jobs_eq_some.mp h₁ with ⟨-, rfl⟩ | ⟨-, h₁⟩
    · simp [hx _ _ _ rfl] at hk₁
    · rcases update_jobs_eq_some.mp h₂ with ⟨-, rfl⟩ | ⟨-, h₂⟩
      · simp [hx _ _ _ rfl] at hk₂
      · exact h.getrennt i₁ i₂ c₁ c₂ n₁ n₂ q₁ q₂ k o o' hne h₁ h₂ hk₁ hk₂

/-- One command of a client keeps what the others know. -/
theorem Genutzt.nur_fremd {r : Punkt ⊕ Antwort} (h : Genutzt p)
    (hi : p.jobs i = some ⟨c, n, q⟩) (hz : Zugriff px p.store q s r) {i' n' : Nat} {c' : Ruf}
    {q' : Punkt} {k : String} {o : Option String} (hne : i' ≠ i)
    (hj : p.jobs i' = some ⟨c', n', q'⟩) (hk : q'.kennt = some (k, o)) : Nur s k o := by
  refine (h.nur i' c' n' q' k o hj hk).fremd hz ?_
  rintro a rfl rfl
  cases h.getrennt i i' c c' n n' _ q' a.key none o hne.symm hi hj rfl hk

/-- One command of a client that has a key in use after it. -/
theorem Genutzt.zugriff {l : List (Done Ruf Antwort)} {q' : Punkt} (h : Genutzt p)
    (hg : Gefuehrt px p) (hG : Geordnet p (.access i) s) (hi : p.jobs i = some ⟨c, n, q⟩)
    (hz : Zugriff px p.store q s (.inl q')) (hn : Nutzung px p.store q s q') :
    Genutzt ⟨s, Function.update p.jobs i (some ⟨c, n, q'⟩), l⟩ := by
  obtain ⟨hauftrag, k, o, hk, hvor⟩ := hn.key
  -- the key was in use before, or no call is in the way
  have hfrei : ∀ i' c' n' q₂ o', i' ≠ i → p.jobs i' = some ⟨c', n', q₂⟩ →
      q₂.kennt = some (k, o') → q.auftrag = none ∧ q₂.auftrag = none := by
    intro i' c' n' q₂ o' hne hj hk'
    rcases hvor with hbeginnt | ⟨o₁, hk₁⟩
    · exact hG.getrennt i c n q k rfl hi hbeginnt i' c' n' q₂ o' hne hj hk'
    · exact ⟨h.getrennt i i' c c' n n' q q₂ k o₁ o' hne.symm hi hj hk₁ hk',
        h.getrennt i' i c' c n' n q₂ q k o' o₁ hne hj hi hk' hk₁⟩
  refine ⟨?_, ?_, ?_⟩
  · intro i' c' n' q₂ k' o' hj hk'
    rcases update_jobs_eq_some.mp hj with ⟨-, heq⟩ | ⟨hne, hj⟩
    · cases heq
      refine hn.nur hg.register (fun k o => h.nur i c n q k o hi) ?_ hk'
      rintro a rfl id f b hf hw hkey ⟨b', i₂, c₂, n₂, hj₂⟩
      obtain rfl : b' = b := payload_inj ((hg.offen i₂ c₂ n₂ b' id hj₂).satz f hf) hw
      have hne : i₂ ≠ i := by
        rintro rfl
        cases hi.symm.trans hj₂
      cases (hG.getrennt i c n _ a.key rfl hi rfl i₂ c₂ n₂ _ (some id) hne hj₂
        (by rw [Punkt.kennt, hkey])).1
    · exact h.nur_fremd hi hz hne hj hk'
  · intro i' c' n' q₂ a hj hk' ha
    rcases update_jobs_eq_some.mp hj with ⟨-, heq⟩ | ⟨-, hj⟩
    · cases heq
      rw [hauftrag] at ha
      cases hq : q.kennt with
      | some x => exact h.eindeutig i c n q a hi (by simp [hq]) ha
      | none =>
          -- a push that has just begun
          cases hn with
          | belegt => exact hG.eindeutig i c n a rfl (Option.some.inj ha ▸ hi)
          | frei => exact hG.eindeutig i c n a rfl (Option.some.inj ha ▸ hi)
          | ersetzt => cases hq
          | geschrieben => cases hq
          | geholt => cases ha
          | freigegeben => cases ha
          | gesehen => cases ha
    · exact h.eindeutig i' c' n' q₂ a hj hk' ha
  · intro i₁ i₂ c₁ c₂ n₁ n₂ q₁ q₂ k' o₁ o₂ hne h₁ h₂ hk₁ hk₂
    rcases update_jobs_eq_some.mp h₁ with ⟨rfl, heq⟩ | ⟨hne₁, hj₁⟩
    · cases heq
      obtain ⟨rfl, -⟩ : k = k' ∧ o = o₁ := by simpa [hk] using hk₁
      rcases update_jobs_eq_some.mp h₂ with ⟨rfl, -⟩ | ⟨hne₂, hj₂⟩
      · exact absurd rfl hne
      · rw [hauftrag]
        exact (hfrei i₂ c₂ n₂ q₂ o₂ hne₂ hj₂ hk₂).1
    · rcases update_jobs_eq_some.mp h₂ with ⟨rfl, heq⟩ | ⟨-, hj₂⟩
      · cases heq
        obtain ⟨rfl, -⟩ : k = k' ∧ o = o₂ := by simpa [hk] using hk₂
        exact (hfrei i₁ c₁ n₁ q₁ o₁ hne₁ hj₁ hk₁).2
      · exact h.getrennt i₁ i₂ c₁ c₂ n₁ n₂ q₁ q₂ k' o₁ o₂ hne hj₁ hj₂ hk₁ hk₂

/-- Every step of a run under the condition keeps what the calls know. -/
theorem Genutzt.step {act : PoolAct Ruf} {p' : Pool Ablage Ruf Punkt Antwort} (h : Genutzt p)
    (hg : Gefuehrt px p) (hs : (queue px (· ≤ ·)).PoolStep p act p')
    (hG : Geordnet p act p'.store) : Genutzt p' := by
  cases hs with
  | @enter i c hi =>
      refine h.ohne (fun c' n q heq => ?_) fun i' c n q k o _ hj hk => h.nur i' c n q k o hj hk
      cases heq
      rfl
  | @access i c n q s q' hi hz =>
      by_cases hk : q'.kennt = none
      · refine h.ohne (fun c' n q heq => ?_) fun i' c n q k o hne hj hk' =>
          h.nur_fremd hi hz hne hj hk'
        cases heq
        exact hk
      · exact h.zugriff hg hG hi hz (hz.nutzung hk)
  | answer hi hz =>
      refine h.ohne (fun _ _ _ heq => ?_) fun i' c n q k o hne hj hk' =>
        h.nur_fremd hi hz hne hj hk'
      cases heq
  | crash =>
      refine h.ohne (fun _ _ _ heq => ?_) fun i' c n q k o _ hj hk => h.nur i' c n q k o hj hk
      cases heq
  | idle hv =>
      exact ⟨fun i c n q k o hj hk => (h.nur i c n q k o hj hk).vergeht hv, h.eindeutig,
        h.getrennt⟩

theorem Gefuehrt.zugriff {l : List (Done Ruf Antwort)} {r : Punkt ⊕ Antwort}
    (h : Gefuehrt px p) (hG : Unbehindert p.store q) (hi : p.jobs i = some ⟨c, n, q⟩)
    (hz : Zugriff px p.store q s r) :
    Gefuehrt px ⟨s, Function.update p.jobs i (danach c n r), l⟩ := by
  have hzu {r : Punkt ⊕ Antwort} (hr : ¬Punkt.Offen r) (c' n' a id) :
      danach c n r ≠ some ⟨c', n', .pushIndex a id⟩ := by
    intro heq
    cases r with
    | inr _ => cases heq
    | inl q' =>
        obtain ⟨-, -, rfl⟩ : c = c' ∧ n = n' ∧ q' = .pushIndex a id := by simpa [danach] using heq
        exact hr trivial
  have hbleibt {x : Option (Job Ruf Punkt)} (hq : ¬Punkt.Offen (.inl q)) :
      Register px (fun id => ∃ a, OffenerPush (Function.update p.jobs i x) a id) p.store := by
    refine h.register.mono fun id f _ _ ⟨a, ha⟩ => ⟨a, ha.update fun c' n' heq => ?_⟩
    obtain ⟨-, -, rfl⟩ : c = c' ∧ n = n' ∧ q = .pushIndex a id := by simpa [hi] using heq
    exact hq trivial
  cases hz.eintraege with
  | gleich hg hq hr =>
      exact h.weiter (hzu hr) ((hbleibt hq).gleich hg)
        fun i' c n a id _ hj => (h.offen i' c n a id hj).gleich hg
  | @weg _ _ _ id k hloescht hg hq hr =>
      have hfrei : ∀ k', k = some k' → IndexFrei p.store k' id := by
        rintro k' rfl
        exact hG.loescht id k' hloescht
      exact h.weiter (hzu hr) (((hbleibt hq).ohne hfrei).gleich hg)
        fun i' c n a id' _ hj => ((h.offen i' c n a id' hj).ohne id k).gleich hg
  | @satz a id hid =>
      obtain ⟨ha, hkein⟩ := hG.satz a rfl
      have hneu : Function.update p.jobs i (some ⟨c, n, .pushIndex a id⟩) i =
          some ⟨c, n, .pushIndex a id⟩ := Function.update_self ..
      have hfremd : ∀ i' c' n' b, p.jobs i' ≠ some ⟨c', n', .pushIndex b id⟩ :=
        fun i' c' n' b hj => hid (h.offen i' c' n' b id hj).vergeben
      refine ⟨?_, ?_, ?_⟩
      · have hbisher : Register px
            (fun id' => ∃ b, OffenerPush
              (Function.update p.jobs i (some ⟨c, n, .pushIndex a id⟩)) b id') p.store :=
          hbleibt fun h => h
        refine (hbisher.mitPending hid ha hkein).mono fun id' f _ _ ho => ?_
        rcases ho with ho | rfl
        · exact ho
        · exact ⟨a, i, c, n, hneu⟩
      · intro i' c' n' b id' hj
        rcases update_jobs_eq_some.mp hj with ⟨-, heq⟩ | ⟨-, hj⟩
        · cases heq
          exact .neu h.register hid
        · exact (h.offen i' c' n' b id' hj).mitPending hid _
      · intro i₁ i₂ c₁ c₂ n₁ n₂ a₁ a₂ id' h₁ h₂
        rcases update_jobs_eq_some.mp h₁ with ⟨rfl, heq⟩ | ⟨-, h₁⟩
        · cases heq
          rcases update_jobs_eq_some.mp h₂ with ⟨rfl, -⟩ | ⟨-, h₂⟩
          · rfl
          · exact absurd h₂ (hfremd _ _ _ _)
        · rcases update_jobs_eq_some.mp h₂ with ⟨-, heq⟩ | ⟨-, h₂⟩
          · cases heq
            exact absurd h₁ (hfremd _ _ _ _)
          · exact h.einzeln i₁ i₂ c₁ c₂ n₁ n₂ a₁ a₂ id' h₁ h₂
  | @verweis a id =>
      have hfrei : IndexFrei p.store a.key id := hG.verweis a id rfl
      have hfremd : ∀ i' c' n' b id', i' ≠ i → p.jobs i' = some ⟨c', n', .pushIndex b id'⟩ →
          id ≠ id' := by
        rintro i' c' n' b id' hne hj rfl
        exact hne (h.einzeln i' i c' c n' n b a id hj hi)
      refine h.weiter (hzu fun h => h) ?_ fun i' c' n' b id' hne hj =>
        (h.offen i' c' n' b id' hj).mitIdx a.key (hfremd i' c' n' b id' hne hj)
      refine (h.register.mitIdx (h.offen i c n a id hi) hfrei).mono fun id' f _ _ ho => ?_
      obtain ⟨⟨b, hb⟩, hne⟩ := ho
      refine ⟨b, hb.update fun c' n' heq => hne ?_⟩
      rw [hi] at heq
      cases heq
      rfl

/-- Every step of a run under the condition. -/
theorem Gefuehrt.step {act : PoolAct Ruf} {p' : Pool Ablage Ruf Punkt Antwort}
    (h : Gefuehrt px p) (hn : Genutzt p) (hs : (queue px (· ≤ ·)).PoolStep p act p')
    (hG : Geordnet p act p'.store) : Gefuehrt px p' := by
  cases hs with
  | @enter i c hi =>
      refine h.weiter (fun c' n' a id heq => ?_)
        (h.register.mono fun id f _ _ ⟨a, ha⟩ => ⟨a, ha.update fun c' n' heq => ?_⟩)
        fun i' c' n' a id _ hj => h.offen i' c' n' a id hj
      · cases heq
      · rw [hi] at heq
        cases heq
  | access hi hz => exact h.zugriff (hn.frei h.register hi) hi hz
  | answer hi hz => exact h.zugriff (hn.frei h.register hi) hi hz
  | @crash i =>
      refine h.weiter (fun _ _ _ _ => nofun)
        (h.register.mono fun id f hf hl ⟨a, ha⟩ => ⟨a, ha.update fun c' n' hj => ?_⟩)
        fun i' c' n' a id _ hj => h.offen i' c' n' a id hj
      have htot := hG.stirbt i c' n' a id rfl hj
      rw [hf, lies_of_lebt hl] at htot
      cases htot
  | idle hv =>
      exact ⟨h.register.vergeht hv, fun i c n a id hj => (h.offen i c n a id hj).vergeht hv,
        h.einzeln⟩

end

/-- Nothing is queued, and `uuid4` does not answer the empty text. -/
structure Anfang (s : Ablage) : Prop extends Leer s where
  vergeben : "" ∈ s.vergeben

/-- All interleavings of all calls, from nothing queued. -/
def verlauf (px : Int) : System (Pool Ablage Ruf Punkt Antwort) (PoolAct Ruf) :=
  (queue px (· ≤ ·)).pool Anfang

theorem gefuehrt_start {px : Int} {p : Pool Ablage Ruf Punkt Antwort} (h : (verlauf px).start p) :
    Gefuehrt px p := by
  obtain ⟨hleer, hjobs, -⟩ := h
  refine ⟨⟨hleer.vergeben, ?_, ?_, ?_, ?_, ?_, ?_⟩, ?_, ?_⟩
  · intro id f hf
    simp [hleer.pending] at hf
  · intro k e he
    simp [hleer.idx] at he
  · intro k e f a he
    simp [hleer.idx] at he
  · intro k e f t he
    simp [hleer.idx] at he
  · intro id f hf
    simp [hleer.pending] at hf
  · intro id id' f f' a a' hf
    simp [hleer.pending] at hf
  · intro i c n a id hj
    simp [hjobs] at hj
  · intro i i' c c' n n' a a' id hj
    simp [hjobs] at hj

theorem genutzt_start {p : Pool Ablage Ruf Punkt Antwort} (hjobs : ∀ i, p.jobs i = none) :
    Genutzt p := by
  refine ⟨?_, ?_, ?_⟩
  · intro i c n q k o hj
    simp [hjobs] at hj
  · intro i c n q a hj
    simp [hjobs] at hj
  · intro i i' c c' n n' q q' k o o' _ hj
    simp [hjobs] at hj

theorem gefuehrt_verlauf {px : Int} {p : Pool Ablage Ruf Punkt Antwort}
    (h : ((verlauf px).restrict (guarded Geordnet)).Reach p) : Gefuehrt px p := by
  have hI : Gefuehrt px p ∧ Genutzt p := by
    refine h.invariant (I := fun p => Gefuehrt px p ∧ Genutzt p) ?_ ?_
    · exact fun p hp => ⟨gefuehrt_start hp, genutzt_start hp.2.1⟩
    · rintro p act p' ⟨hI, hn⟩ ⟨hs, hG⟩
      exact ⟨hI.step hn hs hG, hn.step hI hs hG⟩
  exact hI.1

/-! ## What the queue says about a pair -/

section

variable {px : Int} {offen : String → Prop} {s : Ablage} {userId symbol : String}

theorem hasPending_iff : s.hasPending symbol userId = true ↔
    ∃ e, s.idx (idxKey userId symbol) = some e ∧ e.lebt s.jetzt = true ∧ e.wert ≠ "" ∧
      (lies s.jetzt (s.pending e.wert)).isSome := by
  rw [Ablage.hasPending]
  cases hidx : s.idx (idxKey userId symbol) with
  | none => simp [lies]
  | some e =>
      cases hl : e.lebt s.jetzt with
      | false => simp [lies, hl]
      | true =>
          rw [lies_of_lebt hl]
          by_cases hw : e.wert = ""
          · simp [hw]
          · simp [hw, hl]

/-- An order that waits and that the index names is found. -/
theorem Register.gefunden {e : Eintrag String} (h : Register px offen s)
    (hidx : s.idx (idxKey userId symbol) = some e) (hw : Wartet s e.wert userId symbol) :
    s.hasPending symbol userId = true := by
  obtain ⟨a, f, hf, hl, -, -⟩ := h.auftrag hw
  refine hasPending_iff.mpr ⟨e, hidx, h.frist _ e f s.jetzt hidx hf le_rfl hl,
    (h.satz e.wert f hf).2.1, ?_⟩
  exact lies_isSome_iff.mpr ⟨f, hf, hl⟩

/-- What is found waits for the pair that was asked for. -/
theorem Register.gesucht (h : Register px offen s) (hp : s.hasPending symbol userId = true) :
    ∃ e, s.idx (idxKey userId symbol) = some e ∧ Wartet s e.wert userId symbol := by
  obtain ⟨e, hidx, -, -, hsome⟩ := hasPending_iff.mp hp
  obtain ⟨f, hf, hl⟩ := lies_isSome_iff.mp hsome
  obtain ⟨-, -, a, hwert, ha⟩ := h.satz e.wert f hf
  obtain ⟨hu, hs⟩ := ha userId symbol (h.key _ e f a hidx hf hwert).symm
  refine ⟨e, hidx, a.payload e.wert, ?_, hu, hs⟩
  rw [hf, lies_of_lebt hl, hwert]

theorem Register.eine {id id' : String} (h : Register px offen s)
    (hw : Wartet s id userId symbol) (hw' : Wartet s id' userId symbol) : id = id' := by
  obtain ⟨a, f, hf, hl, hwert, hkey⟩ := h.auftrag hw
  obtain ⟨a', f', hf', hl', hwert', hkey'⟩ := h.auftrag hw'
  exact h.einzig id id' f f' a a' hf hl hwert hf' hl' hwert' (hkey.trans hkey'.symm)

/-- What waits is of an open push, or the index names it. -/
theorem Register.benannt {id : String} (h : Register px offen s)
    (hw : Wartet s id userId symbol) :
    offen id ∨ ∃ e, s.idx (idxKey userId symbol) = some e ∧ e.wert = id := by
  obtain ⟨a, f, hf, hl, hwert, hkey⟩ := h.auftrag hw
  rcases h.verweis id f hf hl with ho | ⟨k, e, he, rfl⟩
  · exact .inl ho
  · obtain rfl : a.key = k := h.key k e f a he hf hwert
    exact .inr ⟨e, hkey ▸ he, rfl⟩

end

/-- In every run under the condition at most one order of a pair waits, and
`has_pending` is right about it, except between the writes of a push of the
order that waits. -/
theorem freigabe_einzig (px : Int) {p : Pool Ablage Ruf Punkt Antwort}
    (h : ((verlauf px).restrict (guarded Geordnet)).Reach p) (userId symbol : String) :
    (∀ id id', Wartet p.store id userId symbol → Wartet p.store id' userId symbol → id = id') ∧
      ((p.store.hasPending symbol userId = true ↔ ∃ id, Wartet p.store id userId symbol) ↔
        ¬∃ a id, OffenerPush p.jobs a id ∧ Wartet p.store id userId symbol) := by
  obtain ⟨hregister, hoffen, -⟩ := gefuehrt_verlauf h
  refine ⟨fun id id' => hregister.eine, ?_⟩
  constructor
  · rintro hiff ⟨a, id, ⟨i, c, n, hj⟩, hw⟩
    obtain ⟨e, hidx, hw'⟩ := hregister.gesucht (hiff.mpr ⟨id, hw⟩)
    exact (hoffen i c n a id hj).idx _ e hidx (hregister.eine hw' hw)
  · intro hkein
    constructor
    · intro hp
      obtain ⟨e, -, hw⟩ := hregister.gesucht hp
      exact ⟨e.wert, hw⟩
    · rintro ⟨id, hw⟩
      rcases hregister.benannt hw with ⟨a, ho⟩ | ⟨e, hidx, rfl⟩
      · exact absurd ⟨a, id, ho, hw⟩ hkein
      · exact hregister.gefunden hidx hw

/-! ## A run under the condition, and one that is not -/

section Beispiel

def bereit : Ablage := { leer with vergeben := {""} }

theorem bereit_start (px : Int) : (verlauf px).start ⟨bereit, fun _ => none, []⟩ :=
  ⟨⟨⟨fun _ => rfl, fun _ => rfl, fun _ => rfl, fun _ => rfl⟩, rfl⟩, fun _ => rfl, rfl⟩

/-- The store after the order was queued. -/
def wartend : Ablage :=
  (bereit.mitPending "a1" (.json (auftrag.payload "a1")) 900000).mitIdx auftrag.key "a1" 900000

/-- The first push of the order, as far as its entry. -/
theorem solo_pushBeginn {C : Ablage → Punkt → Prop} (s : Ablage)
    (hidx : lies s.jetzt (s.idx auftrag.key) = none) (hstart : C s (.start (.push auftrag)))
    (hC : C s (.pushIdx auftrag)) :
    (queue 900000 (· ≤ ·)).Solo C s (.start (.push auftrag)) s (.inl (.pushPending auftrag)) := by
  have hlesen : Zugriff 900000 s (.pushIdx auftrag) s
      (.inl (nachPushIdx auftrag (lies s.jetzt (s.idx auftrag.key)))) := .pushIdx
  rw [hidx] at hlesen
  exact .next hstart .mitRedis (.next hC hlesen .stop)

/-- The condition on a call that runs alone. -/
def Alleine (_ : Ablage) (q : Punkt) : Prop := ∀ a, q = .pushIdx a → a.Eindeutig

theorem geordnet_allein {s : Ablage} {q : Punkt} (h : Alleine s q) (c : Ruf)
    (l : List (Done Ruf Antwort)) (s' : Ablage) :
    Geordnet ⟨s, Function.update (fun _ => none) 0 (some ⟨c, l.length, q⟩), l⟩ (.access 0) s' where
  getrennt := by
    rintro i c' n q' k ⟨⟩ - - i' c₂ n₂ q₂ o hne hj
    simp [hne] at hj
  eindeutig := by
    rintro i c' n a ⟨⟩ hj
    simp only [Function.update_self, Option.some.injEq, Job.mk.injEq] at hj
    obtain ⟨-, -, rfl⟩ := hj
    exact h a rfl
  stirbt _ _ _ _ _ h := nomatch h

theorem geordnet_enter (p : Pool Ablage Ruf Punkt Antwort) (i : Nat) (c : Ruf) (s : Ablage) :
    Geordnet p (.enter i c) s where
  getrennt _ _ _ _ _ h := nomatch h
  eindeutig _ _ _ _ h := nomatch h
  stirbt _ _ _ _ _ h := nomatch h

/-- The store after the order was queued again. -/
def ersetzt : Ablage :=
  (((wartend.ohnePending "a1").ohneIdx auftrag.key).mitPending "a2"
    (.json (auftrag.payload "a2")) 900000).mitIdx auftrag.key "a2" 900000

theorem wartend_idx : lies wartend.jetzt (wartend.idx auftrag.key) = some "a1" := by
  simp [wartend, Ablage.mitIdx, Ablage.mitPending, lies, setze, Eintrag.lebt, bereit, leer]

theorem ersetzt_pending : lies ersetzt.jetzt (ersetzt.pending "a2") =
    some (.json (auftrag.payload "a2")) := by
  simp [ersetzt, wartend, Ablage.mitIdx, Ablage.mitPending, Ablage.ohnePending, Ablage.ohneIdx,
    lies, setze, Eintrag.lebt, bereit, leer]

theorem alleine_of_ne {s : Ablage} {q : Punkt} (h : ∀ a, q ≠ .pushIdx a) : Alleine s q :=
  fun a ha => absurd ha (h a)

/-- One client queues the order twice: the second order takes the place of the
first one, it alone waits, and `has_pending` finds it. -/
theorem freigabe_einzig_allein : ∃ p, ((verlauf 900000).restrict (guarded Geordnet)).Reach p ∧
    p.log.map Done.answer = [.kennung (some "a1"), .kennung (some "a2")] ∧
    p.store.hasPending "AAPL" "global" = true ∧ Wartet p.store "a2" "global" "AAPL" ∧
    ¬Wartet p.store "a1" "global" "AAPL" := by
  have hidx (s : Ablage) : Alleine s (.pushIdx auftrag) := by
    rintro a ⟨⟩
    exact (eindeutig_iff auftrag).mpr (by decide)
  have hfrisch : "a1" ∉ bereit.vergeben := by simp [bereit]
  have hfrisch' : "a2" ∉ ((wartend.ohnePending "a1").ohneIdx auftrag.key).vergeben := by
    simp [wartend, Ablage.mitIdx, Ablage.mitPending, Ablage.ohnePending, Ablage.ohneIdx, bereit]
  have hbeginn := solo_pushBeginn (C := Alleine) bereit rfl (alleine_of_ne (by simp)) (hidx _)
  have hpush := alone_reach (M := queue 900000 (· ≤ ·)) (C := Alleine) (i := 0)
    (.start (bereit_start 900000))
    (hbeginn.trans rfl
      (.next (alleine_of_ne (by simp)) (.pushPending hfrisch)
        (.answer (alleine_of_ne (by simp)) .pushIndex)))
    (geordnet_enter _ _ _ _) fun s q s' h => geordnet_allein h _ _ s'
  have hlesen : Zugriff 900000 wartend (.pushIdx auftrag) wartend
      (.inl (nachPushIdx auftrag (lies wartend.jetzt (wartend.idx auftrag.key)))) := .pushIdx
  rw [wartend_idx] at hlesen
  have hpush' := alone_reach (M := queue 900000 (· ≤ ·)) (C := Alleine) (i := 0)
    (c := .push auftrag) hpush
    (.next (alleine_of_ne fun _ h => by cases h) .mitRedis (.next (hidx _) hlesen
      (.next (alleine_of_ne (by simp [nachPushIdx])) .pushErsetzen
        (.next (alleine_of_ne (by simp)) (.pushPending hfrisch')
          (.answer (alleine_of_ne (by simp)) .pushIndex)))))
    (geordnet_enter _ _ _ _) fun s q s' h => geordnet_allein h _ _ s'
  have hwartet : Wartet ersetzt "a2" "global" "AAPL" := ⟨_, ersetzt_pending, rfl, rfl⟩
  obtain ⟨heine, hiff⟩ := freigabe_einzig 900000 hpush' "global" "AAPL"
  have hoffen : ¬∃ a id, OffenerPush (fun _ => none) a id ∧ Wartet ersetzt id "global" "AAPL" := by
    rintro ⟨a, id, ⟨i, c, n, hj⟩, -⟩
    cases hj
  refine ⟨_, hpush', rfl, (hiff.mpr hoffen).mpr ⟨"a2", hwartet⟩, hwartet, fun hw => ?_⟩
  exact absurd (heine "a1" "a2" hw hwartet) (by decide)

/-- The store after two pushes, each of which found no order. -/
def doppelt : Ablage :=
  (((bereit.mitPending "a1" (.json (auftrag.payload "a1")) 900000).mitPending "a2"
    (.json (auftrag.payload "a2")) 900000).mitIdx auftrag.key "a1" 900000).mitIdx auftrag.key
      "a2" 900000

theorem doppelt_pending {id : String} (h : id = "a1" ∨ id = "a2") :
    lies doppelt.jetzt (doppelt.pending id) = some (.json (auftrag.payload id)) := by
  rcases h with rfl | rfl
  · simp [doppelt, Ablage.mitIdx, Ablage.mitPending, lies, setze, Eintrag.lebt, bereit, leer]
  · simp [doppelt, Ablage.mitIdx, Ablage.mitPending, lies, setze, Eintrag.lebt, bereit, leer]

theorem reach_doppelt : ∃ p, ((verlauf 900000).restrict (guarded fun _ _ _ => True)).Reach p ∧
    p.store = doppelt ∧ (∀ i, p.jobs i = none) ∧
      p.log.map Done.answer = [.kennung (some "a1"), .kennung (some "a2")] := by
  have hbeginn := solo_pushBeginn (C := fun _ _ => True) bereit rfl trivial trivial
  have heine := call_reach (M := queue 900000 (· ≤ ·)) (G := fun _ _ _ => True) (i := 0)
    (.start (bereit_start 900000)) rfl hbeginn trivial fun _ _ _ _ => trivial
  have hzwei := call_reach (i := 1) heine rfl hbeginn trivial fun _ _ _ _ => trivial
  have hfrisch : "a1" ∉ bereit.vergeben := by simp [bereit]
  have hfrisch' :
      "a2" ∉ (bereit.mitPending "a1" (.json (auftrag.payload "a1")) 900000).vergeben := by
    simp [bereit, Ablage.mitPending]
  have hsatz := solo_reach (C := fun _ _ => True) (i := 0) hzwei rfl
    (.next trivial (.pushPending hfrisch) .stop) fun _ _ _ _ => trivial
  have hsatz' := solo_reach (C := fun _ _ => True) (i := 1) hsatz rfl
    (.next trivial (.pushPending hfrisch') .stop) fun _ _ _ _ => trivial
  have hidx := solo_reach (C := fun _ _ => True) (i := 0) hsatz' rfl
    (.answer trivial .pushIndex) fun _ _ _ _ => trivial
  have hidx' := solo_reach (C := fun _ _ => True) (i := 1) hidx rfl
    (.answer trivial .pushIndex) fun _ _ _ _ => trivial
  refine ⟨_, hidx', rfl, fun i => ?_, rfl⟩
  by_cases h₀ : i = 0
  · subst h₀
    rfl
  · by_cases h₁ : i = 1
    · subst h₁
      rfl
    · simp [Pool.after, h₀, h₁]

/-- Two pushes that both found no order leave two, and the rejection of one of them
leaves the other one unseen. -/
theorem freigabe_nicht_einzig :
    (∃ p, (verlauf 900000).Reach p ∧ (∀ i, p.jobs i = none) ∧
      Wartet p.store "a1" "global" "AAPL" ∧ Wartet p.store "a2" "global" "AAPL") ∧
    ∃ p, (verlauf 900000).Reach p ∧ (∀ i, p.jobs i = none) ∧
      Wartet p.store "a1" "global" "AAPL" ∧ p.store.hasPending "AAPL" "global" = false := by
  obtain ⟨⟨store, jobs, log⟩, hp, rfl, hjobs, -⟩ := reach_doppelt
  have hwartet : ∀ id, id = "a1" ∨ id = "a2" → Wartet doppelt id "global" "AAPL" :=
    fun id h => ⟨_, doppelt_pending h, rfl, rfl⟩
  refine ⟨⟨_, hp.of_restrict, hjobs, hwartet "a1" (.inl rfl), hwartet "a2" (.inr rfl)⟩, ?_⟩
  have hlesen : Zugriff 900000 doppelt (.rejectLesen "a2") doppelt
      (.inl (.rejectLoeschen "a2" (rejectIdx (lies doppelt.jetzt (doppelt.pending "a2"))))) :=
    .rejectLesen
  rw [doppelt_pending (.inr rfl)] at hlesen
  have hsolo : (queue 900000 (· ≤ ·)).Solo (fun _ _ => True) doppelt (.start (.reject "a2"))
      (doppelt.verworfen "a2" (some auftrag.key)) (.inr (.bool true)) :=
    .next trivial .mitRedis <| .next trivial hlesen <|
      .answer trivial (.rejectLoeschen ⟨fun _ => rfl, fun _ => .inl rfl⟩)
  have hreject := call_reach (i := 2) hp (hjobs 2) hsolo trivial fun _ _ _ _ => trivial
  refine ⟨_, hreject.of_restrict, fun i => ?_, hwartet "a1" (.inl rfl), rfl⟩
  by_cases hi : i = 2
  · simp [Pool.after, hi]
  · simpa [Pool.after, hi] using hjobs i

end Beispiel

end Hitl
