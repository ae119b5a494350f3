import AutonomousEngine.Modelle.Register

/-!
# Only bytes of the manifest are unpickled

While a manifest is required, one manifest decides for a whole run: whatever is
unpickled for a symbol has the hash of one of its entries (`nur_belegtes`).  The files
may change before, between and after the reads of the verification.  And a prediction
is only made by a model that was unpickled from such bytes, in a request of the run
that also passed the quality gate.
-/

namespace Modelle

open Basis

section

variable (sha256 : Bytes → String)

/-- The bytes have the hash of an entry of the symbol. -/
def Belegt (lage : ManifestLage) (symbol : String) (b : Bytes) : Prop :=
  match lage with
  | .eintraege es => ∃ e ∈ es, e.symbol = some symbol ∧ e.sha256 = some (sha256 b)
  | _ => False

end

/-- A request of the run that passed the gate and unpickled the bytes of a model. -/
def Nachweis (vergangen : List (Anfrage × Antwort)) (symbol : String) (g : Engine) : Prop :=
  ∃ p ∈ vergangen, p.1.symbol = symbol ∧
    passed p.1.umgebung.schwellen p.1.umgebung.metadaten = true ∧
    .ds symbol g.ds ∈ p.2.entpickelt ∧ .ckpt symbol g.ckpt ∈ p.2.entpickelt

theorem Nachweis.append {vergangen : List (Anfrage × Antwort)} {symbol : String} {g : Engine}
    (h : Nachweis vergangen symbol g) (p : Anfrage × Antwort) :
    Nachweis (vergangen ++ [p]) symbol g := by
  obtain ⟨q, hq, hrest⟩ := h
  exact ⟨q, List.mem_append_left _ hq, hrest⟩

section

variable {sha256 : Bytes → String} {u : Umgebung} {symbol : String} {lage : ManifestLage}
  {es : List Eintrag} {d : Dict Pfad String} {s : Register}

theorem expectedEntry_belegt {d d' : Dict Pfad String} {e : Eintrag}
    (h : expectedEntry u d e = some d') {path : Pfad} {want : String}
    (hget : d'.get? path = some want) : d.get? path = some want ∨ e.sha256 = some want := by
  rw [expectedEntry] at h
  split at h
  next filename sha hf hs =>
    split at h
    next => cases h
    next =>
      split at h
      next =>
        obtain rfl := Option.some.inj h
        rw [Dict.get?_set] at hget
        split at hget
        next =>
          obtain rfl := Option.some.inj hget
          exact .inr hs
        next => exact .inl hget
      next => cases h
  next => cases h

/-- A path that is expected has the hash of an entry. -/
theorem expected_belegt (h : expected u es = some d) {path : Pfad} {want : String}
    (hget : d.get? path = some want) : ∃ e ∈ es, e.sha256 = some want := by
  have hgeneral : ∀ d₀ : Dict Pfad String, es.foldlM (expectedEntry u) d₀ = some d →
      d₀.get? path = some want ∨ ∃ e ∈ es, e.sha256 = some want := by
    clear h
    induction es with
    | nil =>
        intro d₀ h
        obtain rfl := Option.some.inj h
        exact .inl hget
    | cons e es ih =>
        intro d₀ h
        rw [List.foldlM_cons, Option.bind_eq_bind, Option.bind_eq_some_iff] at h
        obtain ⟨d₁, h₁, h₂⟩ := h
        rcases ih _ h₂ with hold | ⟨e', he', hwant⟩
        · exact (expectedEntry_belegt h₁ hold).imp id fun hs => ⟨e, List.mem_cons_self, hs⟩
        · exact .inr ⟨e', List.mem_cons_of_mem e he', hwant⟩
  rcases hgeneral Dict.empty h with hleer | hbelegt
  · cases hleer
  · exact hbelegt

/-- The two artifacts of a verification that passes have the hashes of their paths. -/
theorem vergleiche_geprueft {ckpt ds : Bytes} (h : vergleiche sha256 u d = .geprueft ckpt ds) :
    (∃ path, d.get? path = some (sha256 ckpt)) ∧ ∃ path, d.get? path = some (sha256 ds) := by
  rw [vergleiche] at h
  split at h
  next want ckpt' hwant hread =>
    split at h
    next => cases h
    next heq =>
      split at h
      next want' ds' hwant' hread' =>
        split at h
        next => cases h
        next heq' =>
          rw [not_not] at heq heq'
          obtain ⟨hckpt, rfl⟩ := Urteil.geprueft.inj h
          refine ⟨?_, u.dsPath, by rw [hwant', heq']⟩
          by_cases hpath : u.ckptPath = u.dsPath
          · rw [if_pos hpath] at hckpt
            exact ⟨u.dsPath, by rw [hwant', ← heq', hckpt]⟩
          · rw [if_neg hpath] at hckpt
            exact ⟨u.ckptPath, by rw [hwant, ← heq, hckpt]⟩
      next => cases h
  next => cases h

/-- While a manifest is required, a verification refuses or finds both artifacts in
it. -/
theorem verifyBeforeLoad_belegt (hreq : u.requireManifest = true) :
    verifyBeforeLoad sha256 u symbol lage = .abgelehnt ∨
      ∃ ckpt ds, verifyBeforeLoad sha256 u symbol lage = .geprueft ckpt ds ∧
        Belegt sha256 lage symbol ckpt ∧ Belegt sha256 lage symbol ds := by
  cases lage with
  | fehlt => exact .inl (by simp [verifyBeforeLoad, hreq])
  | unlesbar => exact .inl (by simp [verifyBeforeLoad, hreq])
  | eintraege es =>
      rw [verifyBeforeLoad]
      split
      next => exact .inl rfl
      next =>
        cases hexp : expected u (es.filter fun e => e.symbol = some symbol) with
        | none => exact .inl rfl
        | some d =>
            cases hv : vergleiche sha256 u d with
            | abgelehnt => exact .inl hv
            | ungeprueft =>
                exfalso
                rw [vergleiche] at hv
                repeat' split at hv
                all_goals cases hv
            | geprueft ckpt ds =>
                have hbelegt : ∀ b path, d.get? path = some (sha256 b) →
                    Belegt sha256 (.eintraege es) symbol b := by
                  intro b path hpath
                  obtain ⟨e, he, hsha⟩ := expected_belegt hexp hpath
                  obtain ⟨hmem, hsym⟩ := List.mem_filter.mp he
                  exact ⟨e, hmem, by simpa using hsym, hsha⟩
                obtain ⟨⟨path, hc⟩, path', hd⟩ := vergleiche_geprueft hv
                exact .inr ⟨ckpt, ds, hv, hbelegt ckpt path hc, hbelegt ds path' hd⟩

theorem load_gelesen {ckpt ds : Option Bytes} : ∀ x ∈ (load u symbol ckpt ds).2,
    (∃ b, ds = some b ∧ x = .ds symbol b) ∨ ∃ b, ckpt = some b ∧ x = .ckpt symbol b := by
  simp only [load]
  split
  next => simp
  next =>
    cases ds with
    | none => simp
    | some ds =>
        simp only
        split
        next => simp
        next => cases ckpt <;> simp

theorem ladeEngine_entpickelt (hreq : u.requireManifest = true) :
    ∀ x ∈ (ladeEngine sha256 u symbol s).2.2, x.symbol = symbol ∧
      Belegt sha256 (s.manifest.getD u.manifest) x.symbol x.bytes := by
  rw [ladeEngine]
  rcases @verifyBeforeLoad_belegt sha256 u symbol (s.manifest.getD u.manifest) hreq with
    hv | ⟨ckpt, ds, hv, hc, hd⟩
  · simp [hv]
  · simp only [hv, ladequelle]
    have hbytes : ∀ x ∈ (load u symbol (some ckpt) (some ds)).2, x.symbol = symbol ∧
        Belegt sha256 (s.manifest.getD u.manifest) x.symbol x.bytes := by
      intro x hx
      rcases load_gelesen x hx with ⟨b, hb, rfl⟩ | ⟨b, hb, rfl⟩
      · obtain rfl := Option.some.inj hb
        exact ⟨rfl, hd⟩
      · obtain rfl := Option.some.inj hb
        exact ⟨rfl, hc⟩
    split
    next => exact hbytes
    next => exact hbytes

theorem ladeEngine_manifest :
    (ladeEngine sha256 u symbol s).1.manifest = some (s.manifest.getD u.manifest) := by
  rw [ladeEngine]
  simp only
  split
  next => rfl
  next =>
    split
    next => rfl
    next => rfl

theorem ensureEngine_manifest (sha256 : Bytes → String) (u : Umgebung) (symbol : String)
    (s : Register) : (ensureEngine sha256 u symbol s).1.manifest = s.manifest ∨
    (ensureEngine sha256 u symbol s).1.manifest = some (s.manifest.getD u.manifest) := by
  rw [ensureEngine]
  split
  next => exact .inl rfl
  next =>
    split
    next => exact .inl rfl
    next =>
      split
      next => exact .inl rfl
      next =>
        split
        next => exact .inl rfl
        next =>
          split
          next => exact .inl rfl
          next => exact .inr ladeEngine_manifest

/-- What `_ensure_engine` unpickles is in the manifest it goes by, if one is required. -/
theorem ensureEngine_entpickelt (sha256 : Bytes → String) (symbol : String) (s : Register)
    (hreq : u.requireManifest = true) :
    ∀ x ∈ (ensureEngine sha256 u symbol s).2.2, x.symbol = symbol ∧
      ∃ lage, (ensureEngine sha256 u symbol s).1.manifest = some lage ∧
        Belegt sha256 lage x.symbol x.bytes := by
  rw [ensureEngine]
  split
  next => simp
  next =>
    split
    next => simp
    next =>
      split
      next => simp
      next =>
        split
        next => simp
        next =>
          split
          next => simp
          next =>
            intro x hx
            obtain ⟨hsym, hbelegt⟩ := ladeEngine_entpickelt hreq x hx
            exact ⟨hsym, _, ladeEngine_manifest, hbelegt⟩

/-- A model of the registry was there before, or is the answer. -/
theorem Wirkung.engines {s' : Register} {o : Option Engine} (h : Wirkung s symbol s' o)
    {k : String} {g : Engine} (hget : s'.engines.get? k = some g) :
    s.engines.get? k = some g ∨ (k = symbol ∧ o = some g) := by
  have hlast : ∀ engine, (s.engines.pushLast symbol engine).get? k = some g →
      s.engines.get? k = some g ∨ (k = symbol ∧ some engine = some g) := by
    intro engine hpush
    rw [Dict.get?_pushLast] at hpush
    split at hpush
    next hk => exact .inr ⟨hk.symm, hpush⟩
    next => exact .inl hpush
  cases h with
  | nichts => exact .inl hget
  | treffer => exact hlast _ hget
  | abgelehnt => exact .inl hget
  | geladen =>
      simp only [Dict.get?_dropFirst] at hget
      split at hget
      next => exact hlast _ hget
      next => cases hget

/-! ## Runs -/

/-- What a registry says of a run so far. -/
structure Belegung (sha256 : Bytes → String) (s : Register)
    (vergangen : List (Anfrage × Antwort)) : Prop where
  manifest : ∀ lage, s.manifest = some lage →
    ∃ p ∈ vergangen, p.1.umgebung.manifest = lage
  entpickelt : ∀ p ∈ vergangen, ∀ x ∈ p.2.entpickelt,
    x.symbol = p.1.symbol ∧ ∃ lage, s.manifest = some lage ∧ Belegt sha256 lage x.symbol x.bytes
  engines : ∀ symbol g, s.engines.get? symbol = some g → Nachweis vergangen symbol g
  antwort : ∀ p ∈ vergangen, ∀ g, p.2.engine = some g → Nachweis vergangen p.1.symbol g

theorem belegung_leer : Belegung sha256 .leer [] := by
  refine ⟨?_, by simp, ?_, by simp⟩
  · intro lage hlage
    exact absurd hlage (by simp [Register.leer])
  · intro symbol g hget
    exact absurd hget (by simp [Register.leer])

/-- A request keeps what the registry says of the run. -/
theorem Belegung.getOrTrain {vergangen : List (Anfrage × Antwort)}
    (h : Belegung sha256 s vergangen) {a : Anfrage} (hreq : a.umgebung.requireManifest = true) :
    Belegung sha256 (getOrTrain sha256 s a).1 (vergangen ++ [(a, (getOrTrain sha256 s a).2)]) := by
  by_cases hleer : a.symbol = "" ∨ a.features = false
  · rw [getOrTrain_leer hleer]
    refine ⟨?_, ?_, ?_, ?_⟩
    · intro lage hlage
      obtain ⟨p, hp, hpl⟩ := h.manifest lage hlage
      exact ⟨p, List.mem_append_left _ hp, hpl⟩
    · intro p hp x hx
      rcases List.mem_append.mp hp with hp | hp
      · exact h.entpickelt p hp x hx
      · rw [List.mem_singleton.mp hp] at hx
        cases hx
    · intro symbol g hget
      exact (h.engines symbol g hget).append _
    · intro p hp g hg
      rcases List.mem_append.mp hp with hp | hp
      · exact (h.antwort p hp g hg).append _
      · rw [List.mem_singleton.mp hp] at hg
        cases hg
  · obtain ⟨hs, hengine, hread⟩ := getOrTrain_ensureEngine sha256 s hleer
    have hbytes := ensureEngine_entpickelt sha256 a.symbol s hreq
    rw [← hs, ← hread] at hbytes
    have hmanifest := ensureEngine_manifest sha256 a.umgebung a.symbol s
    rw [← hs] at hmanifest
    have hkept : ∀ lage, s.manifest = some lage →
        (Modelle.getOrTrain sha256 s a).1.manifest = some lage := by
      intro lage hlage
      simpa [hlage] using hmanifest
    -- the model of this request was in the registry, or this request has unpickled it
    have hnachweis : ∀ g, (Modelle.getOrTrain sha256 s a).2.engine = some g →
        Nachweis (vergangen ++ [(a, (Modelle.getOrTrain sha256 s a).2)]) a.symbol g := by
      intro g hg
      obtain ⟨-, ⟨hget, -⟩ | ⟨-, hpassed, hbuilt⟩⟩ := ensureEngine_geladen (hengine.symm.trans hg)
      · exact (h.engines _ g hget).append _
      · refine ⟨_, List.mem_append_right _ List.mem_cons_self, rfl, hpassed, ?_, ?_⟩
        · simp [hread, hbuilt]
        · simp [hread, hbuilt]
    refine ⟨?_, ?_, ?_, ?_⟩
    · intro lage hlage
      cases hold : s.manifest with
      | some lage' =>
          obtain rfl : lage' = lage := by simpa [hlage] using (hkept lage' hold).symm
          obtain ⟨p, hp, hpl⟩ := h.manifest lage' hold
          exact ⟨p, List.mem_append_left _ hp, hpl⟩
      | none =>
          rw [hlage, hold] at hmanifest
          have hread : lage = a.umgebung.manifest := by simpa using hmanifest
          exact ⟨_, List.mem_append_right _ List.mem_cons_self, hread.symm⟩
    · intro p hp x hx
      rcases List.mem_append.mp hp with hp | hp
      · obtain ⟨hsym, lage, hlage, hbelegt⟩ := h.entpickelt p hp x hx
        exact ⟨hsym, lage, hkept lage hlage, hbelegt⟩
      · rw [List.mem_singleton.mp hp] at hx ⊢
        exact hbytes x hx
    · intro symbol g hget
      rw [hs] at hget
      rcases ensureEngine_wirkung.engines hget with hold | ⟨rfl, hg⟩
      · exact (h.engines symbol g hold).append _
      · exact hnachweis g (hengine.trans hg)
    · intro p hp g hg
      rcases List.mem_append.mp hp with hp | hp
      · exact (h.antwort p hp g hg).append _
      · rw [List.mem_singleton.mp hp] at hg ⊢
        exact hnachweis g hg

/-- While a manifest is required, whatever a run unpickles for a symbol has the hash of an
entry of the one manifest it has read, and a model that answers was unpickled by a request
of the run that passed the gate. -/
theorem nur_belegtes (anfragen : List Anfrage)
    (hreq : ∀ a ∈ anfragen, a.umgebung.requireManifest = true) :
    ∃ lage, (lage = .fehlt ∨ ∃ a ∈ anfragen, a.umgebung.manifest = lage) ∧
      ∀ p ∈ transcript (getOrTrain sha256) .leer anfragen,
        (∀ x ∈ p.2.entpickelt, x.symbol = p.1.symbol ∧ Belegt sha256 lage x.symbol x.bytes) ∧
          ∀ g, p.2.engine = some g →
            Nachweis (transcript (getOrTrain sha256) .leer anfragen) p.1.symbol g := by
  have hrun : Belegung sha256 (feed (getOrTrain sha256) .leer anfragen).1
      (transcript (getOrTrain sha256) .leer anfragen) := by
    induction anfragen using List.reverseRecOn with
    | nil => exact belegung_leer
    | append_singleton vor a ih =>
        rw [feed_append, transcript_append]
        exact (ih fun b hb => hreq b (List.mem_append_left _ hb)).getOrTrain
          (hreq a (List.mem_append_right _ List.mem_cons_self))
  cases hmanifest : (feed (getOrTrain sha256) .leer anfragen).1.manifest with
  | none =>
      refine ⟨.fehlt, .inl rfl, fun p hp => ⟨fun x hx => ?_, hrun.antwort p hp⟩⟩
      obtain ⟨-, lage, hlage, -⟩ := hrun.entpickelt p hp x hx
      rw [hmanifest] at hlage
      cases hlage
  | some lage =>
      obtain ⟨q, hq, hqlage⟩ := hrun.manifest lage hmanifest
      have hqmem : q.1 ∈ anfragen := by
        rw [← map_fst_transcript (getOrTrain sha256) .leer anfragen]
        exact List.mem_map_of_mem hq
      refine ⟨lage, .inr ⟨q.1, hqmem, hqlage⟩, fun p hp => ⟨fun x hx => ?_, hrun.antwort p hp⟩⟩
      obtain ⟨hsym, lage', hlage', hbelegt⟩ := hrun.entpickelt p hp x hx
      rw [hmanifest] at hlage'
      obtain rfl := Option.some.inj hlage'
      exact ⟨hsym, hbelegt⟩

/-- A hash that tells the two files below apart. -/
def hashBeispiel (b : Bytes) : String := if b = [1] then "ckpt" else if b = [2] then "ds" else ""

/-- A listed checkpoint whose file has changed since it was verified. -/
def listung : Umgebung where
  wirft := false
  checkpointDa := true
  metadaten := some (modell (1 / 10) (1 / 25))
  schwellen := desktop
  manifest := .eintraege [⟨some "AAPL", some "checkpoint.pt", some "ckpt"⟩,
    ⟨some "AAPL", some "dataset.pkl", some "ds"⟩]
  requireManifest := true
  stoerung := false
  root := ["models"]
  resolve name := ["models", name]
  ckptPath := ["models", "checkpoint.pt"]
  dsPath := ["models", "dataset.pkl"]
  liestCkpt := some [1]
  liestDs := some [2]
  torchDa := true
  oeffnetCkpt := some [3]
  oeffnetDs := some [3]
  dsGeht := true
  modellGeht := true
  vorhersage := none

theorem nur_belegtes_listung :
    (∃ lage, (lage = .fehlt ∨ ∃ a ∈ [Anfrage.mk "AAPL" true listung], a.umgebung.manifest = lage) ∧
      ∀ p ∈ transcript (getOrTrain hashBeispiel) .leer [⟨"AAPL", true, listung⟩],
        (∀ x ∈ p.2.entpickelt, x.symbol = p.1.symbol ∧ Belegt hashBeispiel lage x.symbol x.bytes) ∧
          ∀ g, p.2.engine = some g →
            Nachweis (transcript (getOrTrain hashBeispiel) .leer [⟨"AAPL", true, listung⟩])
              p.1.symbol g) ∧
      (getOrTrain hashBeispiel .leer ⟨"AAPL", true, listung⟩).2.entpickelt =
        [.ds "AAPL" [2], .ckpt "AAPL" [1]] :=
  ⟨nur_belegtes [⟨"AAPL", true, listung⟩] (by simp [listung]), by decide +kernel⟩

end

end Modelle
