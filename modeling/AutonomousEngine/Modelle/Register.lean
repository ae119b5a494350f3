import AutonomousEngine.Basis.DictLoops
import AutonomousEngine.Basis.Mealy
import AutonomousEngine.Modelle.Guete

/-!
# The registry of the trained models

`_TFTModelRegistry` loads the checkpoint of a symbol when it is asked for first,
keeps up to fifty models, and remembers the symbols it has refused.  To load a
checkpoint is to unpickle it, so it is compared with the hash in the provenance
manifest before: the bytes are read once, hashed, and pinned on the engine, and
`load` unpickles the pinned bytes.

The files may change at any time.  A request reads them one after the other, and
what it finds at each access is open (`Umgebung`), so that every way the files
change during a run is a list of such findings.  The hash function is a parameter.
The lock of the event loop lets one request after the other in.
-/

namespace Modelle

open Basis

abbrev Bytes := List UInt8

abbrev Pfad := List String

/-- An entry of the manifest; a field that is absent or no text is `none`. -/
structure Eintrag where
  symbol : Option String
  filename : Option String
  sha256 : Option String
deriving DecidableEq, Repr

/-- What there is at `_manifest_path()`. -/
inductive ManifestLage where
  | fehlt
  | unlesbar
  | eintraege (es : List Eintrag)
deriving DecidableEq, Repr

/-- What one request finds, access by access. -/
structure Umgebung where
  /-- An access before the verification raises. -/
  wirft : Bool
  /-- `(model_dir / "checkpoint.pt").exists()`. -/
  checkpointDa : Bool
  metadaten : Option Metadaten
  schwellen : Schwellen
  manifest : ManifestLage
  /-- `_require_manifest()`. -/
  requireManifest : Bool
  /-- Something in the verification raises. -/
  stoerung : Bool
  /-- `_models_root().resolve()`. -/
  root : Pfad
  /-- `(root / filename).resolve()`. -/
  resolve : String → Pfad
  ckptPath : Pfad
  dsPath : Pfad
  /-- `read_bytes()` of the checkpoint and of the dataset, by the verification. -/
  liestCkpt : Option Bytes
  liestDs : Option Bytes
  /-- `pytorch_forecasting` can be imported. -/
  torchDa : Bool
  /-- The two files at their paths, when `load` opens them itself, and none if it does
  not get there. -/
  oeffnetCkpt : Option Bytes
  oeffnetDs : Option Bytes
  /-- A dataset can be unpickled, and a model be built of the two. -/
  dsGeht : Bool
  modellGeht : Bool
  /-- What `predict` says. -/
  vorhersage : Option String

/-- A loaded engine: the bytes its model was built of. -/
structure Engine where
  ckpt : Bytes
  ds : Bytes
deriving DecidableEq, Repr

/-- `_TFTModelRegistry`; the manifest is read once (`none` before). -/
structure Register where
  engines : Dict String Engine
  knownMissing : List String
  manifest : Option ManifestLage

def Register.leer : Register := ⟨Dict.empty, [], none⟩

/-- Bytes that were unpickled for a symbol: a dataset, and then a checkpoint. -/
inductive Entpickelt where
  | ds (symbol : String) (b : Bytes)
  | ckpt (symbol : String) (b : Bytes)
deriving DecidableEq, Repr

def Entpickelt.symbol : Entpickelt → String
  | .ds s _ => s
  | .ckpt s _ => s

def Entpickelt.bytes : Entpickelt → Bytes
  | .ds _ b => b
  | .ckpt _ b => b

def lruMax : Nat := 50

/-! ## Verify before load -/

/-- One turn of the loop over the entries, unless the entry is malformed or leads out of
the root. -/
def expectedEntry (u : Umgebung) (d : Dict Pfad String) (e : Eintrag) :
    Option (Dict Pfad String) :=
  match e.filename, e.sha256 with
  | some filename, some sha =>
      if filename = "" ∨ sha = "" then none
      else if u.root <+: u.resolve filename then some (d.set (u.resolve filename) sha)
      else none
  | _, _ => none

/-- The hashes of the entries of a symbol by their paths. -/
def expected (u : Umgebung) (es : List Eintrag) : Option (Dict Pfad String) :=
  es.foldlM (expectedEntry u) Dict.empty

/-- What the verification says. -/
inductive Urteil where
  | abgelehnt
  | ungeprueft
  | geprueft (ckpt ds : Bytes)
deriving DecidableEq, Repr

section

variable (sha256 : Bytes → String)

/-- The comparison of the two artifacts; the buffer of a path is the last one read. -/
def vergleiche (u : Umgebung) (d : Dict Pfad String) : Urteil :=
  match d.get? u.ckptPath, u.liestCkpt with
  | some want, some ckpt =>
      if sha256 ckpt ≠ want then .abgelehnt
      else
        match d.get? u.dsPath, u.liestDs with
        | some want', some ds =>
            if sha256 ds ≠ want' then .abgelehnt
            else .geprueft (if u.ckptPath = u.dsPath then ds else ckpt) ds
        | _, _ => .abgelehnt
  | _, _ => .abgelehnt

/-- `_verify_before_load`, with the manifest as it was read first. -/
def verifyBeforeLoad (u : Umgebung) (symbol : String) : ManifestLage → Urteil
  | .eintraege es =>
      let entries := es.filter fun e => e.symbol = some symbol
      if entries = [] ∨ u.stoerung then .abgelehnt
      else
        match expected u entries with
        | none => .abgelehnt
        | some d => vergleiche sha256 u d
  | _ => if u.requireManifest then .abgelehnt else .ungeprueft

/-- `load`: the model, and what was unpickled. -/
def load (u : Umgebung) (symbol : String) (ckpt ds : Option Bytes) :
    Option Engine × List Entpickelt :=
  if u.torchDa = false then (none, [])
  else
    match ds with
    | none => (none, [])
    | some ds =>
        if u.dsGeht = false then (none, [.ds symbol ds])
        else
          match ckpt with
          | none => (none, [.ds symbol ds])
          | some ckpt =>
              (if u.modellGeht then some ⟨ckpt, ds⟩ else none, [.ds symbol ds, .ckpt symbol ckpt])

/-- What `load` reads for a verdict: the pinned bytes, or the files. -/
def ladequelle (u : Umgebung) : Urteil → Option Bytes × Option Bytes
  | .abgelehnt => (none, none)
  | .ungeprueft => (u.oeffnetCkpt, u.oeffnetDs)
  | .geprueft ckpt ds => (some ckpt, some ds)

/-- Takes the oldest models out, in at most `fuel` rounds. -/
def evict : Nat → Dict String Engine → Dict String Engine
  | 0, d => d
  | fuel + 1, d => if lruMax < d.entries.length then evict fuel d.popFirst else d

/-- The registry without a symbol for good. -/
def Register.ohne (s : Register) (symbol : String) : Register :=
  { s with knownMissing := symbol :: s.knownMissing }

/-- The part of `_ensure_engine` that loads. -/
def ladeEngine (u : Umgebung) (symbol : String) (s : Register) :
    Register × Option Engine × List Entpickelt :=
  let manifest := s.manifest.getD u.manifest
  let s := { s with manifest := some manifest }
  match verifyBeforeLoad sha256 u symbol manifest with
  | .abgelehnt => (s.ohne symbol, none, [])
  | urteil =>
      let r := load u symbol (ladequelle u urteil).1 (ladequelle u urteil).2
      match r.1 with
      | none => (s.ohne symbol, none, r.2)
      | some engine =>
          let engines := s.engines.set symbol engine
          ({ s with engines := evict engines.entries.length engines }, some engine, r.2)

def ensureEngine (u : Umgebung) (symbol : String) (s : Register) :
    Register × Option Engine × List Entpickelt :=
  if symbol ∈ s.knownMissing then (s, none, [])
  else
    match s.engines.get? symbol with
    | some engine => ({ s with engines := s.engines.pushLast symbol engine }, some engine, [])
    | none =>
        if u.wirft then (s, none, [])
        else if u.checkpointDa = false then (s.ohne symbol, none, [])
        else if passed u.schwellen u.metadaten = false then (s.ohne symbol, none, [])
        else ladeEngine sha256 u symbol s

/-- A request: a symbol, whether there are features, and what the files are. -/
structure Anfrage where
  symbol : String
  features : Bool
  umgebung : Umgebung

/-- The answer: the engine that was used, what it says, and what was unpickled. -/
structure Antwort where
  engine : Option Engine
  vorhersage : Option String
  entpickelt : List Entpickelt
deriving DecidableEq, Repr

def getOrTrain (s : Register) (a : Anfrage) : Register × Antwort :=
  if a.symbol = "" ∨ a.features = false then (s, ⟨none, none, []⟩)
  else
    let r := ensureEngine sha256 a.umgebung a.symbol s
    match r.2.1 with
    | none => (r.1, ⟨none, none, r.2.2⟩)
    | some engine => (r.1, ⟨some engine, a.umgebung.vorhersage, r.2.2⟩)

end

/-! ## What a request does -/

section

variable {sha256 : Bytes → String} {u : Umgebung} {symbol : String} {s : Register}

theorem evict_eq {fuel : Nat} {d : Dict String Engine} (h : d.entries.length ≤ fuel) :
    evict fuel d = d.dropFirst (d.entries.length - lruMax) := by
  induction fuel generalizing d with
  | zero =>
      rw [Nat.le_zero.mp h, Nat.zero_sub, Dict.dropFirst_zero]
      rfl
  | succ fuel ih =>
      rw [evict]
      split
      next hlt =>
        have hlen : d.popFirst.entries.length = d.entries.length - 1 := List.length_tail
        rw [ih (by omega), Dict.dropFirst_popFirst, hlen]
        congr 1
        omega
      next hge => rw [Nat.sub_eq_zero_of_le (by omega), Dict.dropFirst_zero]

/-- What `_ensure_engine` can do to the registry. -/
inductive Wirkung (s : Register) (symbol : String) : Register → Option Engine → Prop where
  /-- The symbol was refused before, or an access raises. -/
  | nichts : Wirkung s symbol s none
  | treffer {engine} : symbol ∉ s.knownMissing → s.engines.get? symbol = some engine →
      Wirkung s symbol { s with engines := s.engines.pushLast symbol engine } (some engine)
  | abgelehnt (manifest) : symbol ∉ s.knownMissing → s.engines.get? symbol = none →
      Wirkung s symbol { s.ohne symbol with manifest := manifest } none
  | geladen (manifest) {engine} : symbol ∉ s.knownMissing → s.engines.get? symbol = none →
      Wirkung s symbol
        { s with
          manifest := manifest
          engines := (s.engines.pushLast symbol engine).dropFirst
            ((s.engines.pushLast symbol engine).entries.length - lruMax) }
        (some engine)

theorem set_eq_pushLast {d : Dict String Engine} {engine : Engine}
    (h : d.get? symbol = none) : d.set symbol engine = d.pushLast symbol engine := by
  have hfilter : d.entries.filter (fun e => decide (e.1 ≠ symbol)) = d.entries := by
    rw [List.filter_eq_self]
    intro e he
    have hne : e.1 ≠ symbol := fun heq =>
      Dict.get?_eq_none_iff.mp h (List.mem_map.mpr ⟨e, he, heq⟩)
    simpa using hne
  refine Dict.ext_entries ?_
  rw [Dict.entries_pushLast, hfilter]
  exact dictSet_of_notMem engine (Dict.get?_eq_none_iff.mp h)

theorem ladeEngine_wirkung (hm : symbol ∉ s.knownMissing) (he : s.engines.get? symbol = none) :
    Wirkung s symbol (ladeEngine sha256 u symbol s).1 (ladeEngine sha256 u symbol s).2.1 := by
  rw [ladeEngine]
  simp only
  split
  next => exact .abgelehnt _ hm he
  next =>
    split
    next => exact .abgelehnt _ hm he
    next engine hload =>
      rw [evict_eq le_rfl, set_eq_pushLast he]
      exact .geladen _ hm he

/-- A model was unpickled from a dataset and a checkpoint. -/
theorem load_geladen {ckpt ds : Option Bytes} {g : Engine}
    (h : (load u symbol ckpt ds).1 = some g) :
    (load u symbol ckpt ds).2 = [.ds symbol g.ds, .ckpt symbol g.ckpt] := by
  revert h
  simp only [load]
  split
  next => nofun
  next =>
    split
    next => nofun
    next ds =>
      split
      next => nofun
      next =>
        split
        next => nofun
        next ckpt =>
          intro h
          simp only at h
          split at h
          next =>
            obtain rfl := Option.some.inj h
            rfl
          next => cases h

theorem ladeEngine_geladen {g : Engine} (h : (ladeEngine sha256 u symbol s).2.1 = some g) :
    (ladeEngine sha256 u symbol s).2.2 = [.ds symbol g.ds, .ckpt symbol g.ckpt] := by
  revert h
  rw [ladeEngine]
  simp only
  split
  next => nofun
  next =>
    split
    next => nofun
    next engine hload =>
      intro h
      obtain rfl := Option.some.inj h
      exact load_geladen hload

/-- A symbol that is served has its model in the registry, or gets it behind the gate. -/
theorem ensureEngine_geladen {g : Engine} (h : (ensureEngine sha256 u symbol s).2.1 = some g) :
    symbol ∉ s.knownMissing ∧
      (s.engines.get? symbol = some g ∧ (ensureEngine sha256 u symbol s).2.2 = [] ∨
        s.engines.get? symbol = none ∧ passed u.schwellen u.metadaten = true ∧
          (ensureEngine sha256 u symbol s).2.2 = [.ds symbol g.ds, .ckpt symbol g.ckpt]) := by
  revert h
  rw [ensureEngine]
  split
  next =>
    intro h
    cases h
  next hm =>
    split
    next engine he =>
      intro h
      obtain rfl := Option.some.inj h
      exact ⟨hm, .inl ⟨he, rfl⟩⟩
    next he =>
      split
      next =>
        intro h
        cases h
      next =>
        split
        next =>
          intro h
          cases h
        next =>
          split
          next =>
            intro h
            cases h
          next hpassed =>
            intro h
            exact ⟨hm, .inr ⟨he, by simpa using hpassed, ladeEngine_geladen h⟩⟩

theorem ensureEngine_wirkung :
    Wirkung s symbol (ensureEngine sha256 u symbol s).1 (ensureEngine sha256 u symbol s).2.1 := by
  rw [ensureEngine]
  split
  next => exact .nichts
  next hm =>
    split
    next engine he => exact .treffer hm he
    next he =>
      split
      next => exact .nichts
      next =>
        split
        next => exact .abgelehnt s.manifest hm he
        next =>
          split
          next => exact .abgelehnt s.manifest hm he
          next => exact ladeEngine_wirkung hm he

/-- A request without features, or for no symbol, changes nothing. -/
theorem getOrTrain_leer {a : Anfrage} (h : a.symbol = "" ∨ a.features = false) :
    getOrTrain sha256 s a = (s, ⟨none, none, []⟩) := by
  rw [getOrTrain, if_pos h]

/-- Every other request is answered with the engine of `_ensure_engine`. -/
theorem getOrTrain_ensureEngine (sha256 : Bytes → String) (s : Register) {a : Anfrage}
    (h : ¬(a.symbol = "" ∨ a.features = false)) :
    (getOrTrain sha256 s a).1 = (ensureEngine sha256 a.umgebung a.symbol s).1 ∧
      (getOrTrain sha256 s a).2.engine = (ensureEngine sha256 a.umgebung a.symbol s).2.1 ∧
      (getOrTrain sha256 s a).2.entpickelt = (ensureEngine sha256 a.umgebung a.symbol s).2.2 := by
  rw [getOrTrain, if_neg h]
  simp only
  split
  next hnone => exact ⟨rfl, hnone.symm, rfl⟩
  next engine hsome => exact ⟨rfl, hsome.symm, rfl⟩

end

end Modelle
