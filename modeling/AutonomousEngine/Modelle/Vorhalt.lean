import AutonomousEngine.Basis.Retention
import AutonomousEngine.Modelle.Herkunft

/-!
# The fifty models served last

`_ensure_engine` moves a model it serves to the end of the dictionary and takes models
out from the front.  After any run the registry therefore has the models of the fifty
symbols served last, in the order of their last use, and each with the model of its last
answer (`Vorhaltung`).  Such a symbol is answered without a file being unpickled, and
every other one is only answered by a model that was unpickled for it just then
(`vorhalt`).
-/

namespace Modelle

open Basis

/-- The symbols that were served, with the models that answered. -/
def bedient (vergangen : List (Anfrage × Antwort)) : List (String × Engine) :=
  vergangen.filterMap fun p => p.2.engine.map fun g => (p.1.symbol, g)

/-- The last fifty symbols of a run, the oldest first. -/
def letzte (bedient : List (String × Engine)) : List String :=
  (recent (bedient.map Prod.fst)).rtake lruMax

/-- The model that answered last for a symbol. -/
def zuletzt (bedient : List (String × Engine)) (symbol : String) : Option Engine :=
  bedient.reverse.lookup symbol

section

variable {sha256 : Bytes → String} {symbol : String} {s : Register} {g : Engine}
  {b : List (String × Engine)}

@[simp] theorem bedient_append (vergangen : List (Anfrage × Antwort)) (p : Anfrage × Antwort) :
    bedient (vergangen ++ [p]) =
      bedient vergangen ++ (p.2.engine.map fun g => (p.1.symbol, g)).toList := by
  rw [bedient, List.filterMap_append]
  cases h : p.2.engine.map fun g => (p.1.symbol, g) <;> simp [bedient, h]

theorem letzte_append (b : List (String × Engine)) (symbol : String) (g : Engine) :
    letzte (b ++ [(symbol, g)]) = (touch symbol (letzte b)).rtake lruMax := by
  rw [letzte, letzte, rtake_recent_append, List.map_append]
  rfl

theorem zuletzt_append (b : List (String × Engine)) (symbol k : String) (g : Engine) :
    zuletzt (b ++ [(symbol, g)]) k = if symbol = k then some g else zuletzt b k := by
  rw [zuletzt, List.reverse_append, List.reverse_singleton, List.singleton_append,
    List.lookup_cons]
  by_cases h : symbol = k
  · simp [h]
  · have hne : (k == symbol) = false := by simpa using Ne.symm h
    rw [hne, if_neg h]
    rfl

/-- The registry holds the models served last, and none of a symbol it has refused. -/
structure Vorhaltung (s : Register) (b : List (String × Engine)) : Prop where
  keys : s.engines.keys = letzte b
  werte : ∀ k ∈ letzte b, s.engines.get? k = zuletzt b k
  getrennt : ∀ k ∈ letzte b, k ∉ s.knownMissing

theorem vorhaltung_leer : Vorhaltung .leer [] := ⟨rfl, by simp [letzte, recent, List.rtake], by
  simp [letzte, recent, List.rtake]⟩

/-- A symbol whose model is not in the registry is none of the last ones. -/
theorem Vorhaltung.get?_eq_none (h : Vorhaltung s b) :
    s.engines.get? symbol = none ↔ symbol ∉ letzte b := by
  rw [← h.keys, Dict.mem_keys, Option.not_isSome_iff_eq_none]

/-- A model that answers is the last one of the registry then. -/
theorem Vorhaltung.antwort (h : Vorhaltung s b) {s' : Register} (hm : symbol ∉ s.knownMissing)
    (hmissing : s'.knownMissing = s.knownMissing)
    (hkeys : s'.engines.keys = (touch symbol s.engines.keys).rtake lruMax)
    (hget : ∀ k ∈ s'.engines.keys, s'.engines.get? k = (s.engines.pushLast symbol g).get? k) :
    Vorhaltung s' (b ++ [(symbol, g)]) := by
  have hletzte : s'.engines.keys = letzte (b ++ [(symbol, g)]) := by
    rw [hkeys, h.keys, letzte_append]
  have hold : ∀ k ∈ letzte (b ++ [(symbol, g)]), k = symbol ∨ k ∈ letzte b := by
    intro k hk
    rw [letzte_append] at hk
    exact mem_touch.mp ((rtake_sublist _ _).subset hk)
  refine ⟨hletzte, ?_, ?_⟩
  · intro k hk
    rw [hget k (hletzte ▸ hk), Dict.get?_pushLast, zuletzt_append]
    split
    next => rfl
    next hne => exact h.werte k ((hold k hk).resolve_left (Ne.symm hne))
  · intro k hk
    rw [hmissing]
    rcases hold k hk with rfl | hk
    · exact hm
    · exact h.getrennt k hk

/-- What `_ensure_engine` does to the registry keeps it the one of the models served
last. -/
theorem Vorhaltung.wirkung (h : Vorhaltung s b) {s' : Register} {o : Option Engine}
    (hw : Wirkung s symbol s' o) :
    Vorhaltung s' (b ++ (o.map fun g => (symbol, g)).toList) := by
  cases hw with
  | nichts => simpa using h
  | treffer hm hget =>
      refine h.antwort hm rfl ?_ (fun k _ => rfl)
      -- it was there, so there is a place for it
      have hmem : symbol ∈ s.engines.keys := Dict.mem_keys_of_get? hget
      have hlen : s.engines.keys.length ≤ lruMax := by
        rw [h.keys]
        exact length_rtake_le _ _
      rw [rtake_of_length_le ((length_touch_le_of_mem hmem).trans hlen)]
      exact Dict.keys_pushLast _ _ _
  | abgelehnt manifest hm hget =>
      rw [Option.map_none, Option.toList_none, List.append_nil]
      refine ⟨h.keys, h.werte, fun k hk hmissing => ?_⟩
      rcases List.mem_cons.mp hmissing with rfl | hmissing
      · exact h.get?_eq_none.mp hget hk
      · exact h.getrennt k hk hmissing
  | geladen manifest hm hget =>
      refine h.antwort hm rfl ?_ ?_
      · rw [Dict.keys_dropFirst, ← Dict.length_keys, Dict.keys_pushLast]
        rfl
      · intro k hk
        rw [Dict.keys_dropFirst] at hk
        rw [Dict.get?_dropFirst, if_pos hk]

theorem vorhaltung_run (anfragen : List Anfrage) :
    Vorhaltung (feed (getOrTrain sha256) .leer anfragen).1
      (bedient (transcript (getOrTrain sha256) .leer anfragen)) := by
  induction anfragen using List.reverseRecOn with
  | nil => exact vorhaltung_leer
  | append_singleton vor a ih =>
      rw [feed_append, transcript_append, transcript_cons, transcript_nil, bedient_append]
      by_cases hleer : a.symbol = "" ∨ a.features = false
      · simpa [getOrTrain_leer hleer] using ih
      · obtain ⟨hs, hengine, -⟩ := getOrTrain_ensureEngine sha256
          (s := (feed (getOrTrain sha256) .leer vor).1) hleer
        rw [feed_cons, feed_nil, hs, hengine]
        exact ih.wirkung ensureEngine_wirkung

/-- After any run, a request for one of the fifty symbols served last is answered with the
model of its last answer and unpickles nothing; any other one is answered, if at all, with
a model that is unpickled for it. -/
theorem vorhalt (anfragen : List Anfrage) {a : Anfrage} (hsymbol : a.symbol ≠ "")
    (hfeatures : a.features = true) :
    let s := (feed (getOrTrain sha256) .leer anfragen).1
    let b := bedient (transcript (getOrTrain sha256) .leer anfragen)
    (a.symbol ∈ letzte b → ∃ g, zuletzt b a.symbol = some g ∧
        (getOrTrain sha256 s a).2 = ⟨some g, a.umgebung.vorhersage, []⟩) ∧
      (a.symbol ∉ letzte b → ∀ g, (getOrTrain sha256 s a).2.engine = some g →
        (getOrTrain sha256 s a).2.entpickelt = [.ds a.symbol g.ds, .ckpt a.symbol g.ckpt]) := by
  intro s b
  have h : Vorhaltung s b := vorhaltung_run anfragen
  have hreq : ¬(a.symbol = "" ∨ a.features = false) := by simp [hsymbol, hfeatures]
  constructor
  · intro hmem
    obtain ⟨g, hg⟩ : ∃ g, s.engines.get? a.symbol = some g := by
      rw [← h.keys] at hmem
      exact Option.isSome_iff_exists.mp (Dict.mem_keys.mp hmem)
    refine ⟨g, by rw [← h.werte a.symbol hmem, hg], ?_⟩
    rw [getOrTrain, if_neg hreq, ensureEngine, if_neg (h.getrennt a.symbol hmem)]
    simp only [hg]
  · intro hmem g hg
    obtain ⟨-, hengine, hread⟩ := getOrTrain_ensureEngine sha256 s hreq
    rw [hengine] at hg
    rw [hread]
    obtain ⟨-, ⟨hget, -⟩ | ⟨-, -, hbuilt⟩⟩ := ensureEngine_geladen hg
    · rw [h.get?_eq_none.mpr hmem] at hget
      cases hget
    · exact hbuilt

/-- The second request for a model whose files have gone meanwhile. -/
theorem vorhalt_listung :
    ∃ g, zuletzt (bedient (transcript (getOrTrain hashBeispiel) .leer
          [⟨"AAPL", true, listung⟩])) "AAPL" = some g ∧
      (getOrTrain hashBeispiel (feed (getOrTrain hashBeispiel) .leer [⟨"AAPL", true, listung⟩]).1
        ⟨"AAPL", true, { listung with checkpointDa := false }⟩).2 = ⟨some g, none, []⟩ :=
  (vorhalt [⟨"AAPL", true, listung⟩] (a := ⟨"AAPL", true, { listung with checkpointDa := false }⟩)
    (by decide) rfl).1 (by decide +kernel)

end

end Modelle
