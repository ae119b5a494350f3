import AutonomousEngine.AutonomousAudit.Chain

/-!
# What a file that verifies looks like

The lines of a file that are not blank are its entries, and `verify_chain` walks
them as a hash chain (`verifyChain_none_iff`).  An anchor adds the hash of one
record and a bound on their number (`checkFile_eq_ok`).
-/

namespace AutonomousAudit

open Basis

variable (P : Python)

/-! ## Entries -/

abbrev Members := List (List CodeUnit × Json P.F)

def objectOf : Json P.F → Option (Members P)
  | .obj ms => some ms
  | _ => none

def entryOf (line : List Char) : Option (Members P) :=
  (loads P.toFloats line).bind (objectOf P)

def entriesOf (lines : List (List Char)) : Option (List (Members P)) :=
  (notBlank lines).mapM (entryOf P)

/-- The entries of a file, when every line that is not blank is one. -/
def entries (text : List Char) : Option (List (Members P)) :=
  entriesOf P (splitLines isNewline false text)

def stringAt (key : String) (ms : Members P) : Option (List CodePoint) :=
  (get P (lit key) (ofJsonMembers P.toPyFloats ms)).bind (asString P)

def body (ms : Members P) : Members P := ms.filter fun m => m.1 ≠ unitsOfText "hash".toList

/-- How the entries of a file are chained. -/
def chain : HashChain (Members P) (List CodePoint) where
  prev := stringAt P "prev_hash"
  hash := stringAt P "hash"
  digest ms := ofText (P.sha256 (print P.toFloats (.canon (.obj (body P ms)))))

theorem entryOf_eq_some {line : List Char} {ms : Members P} :
    entryOf P line = some ms ↔ loads P.toFloats line = some (.obj ms) := by
  rw [entryOf, Option.bind_eq_some_iff]
  constructor
  · rintro ⟨v, hv, hms⟩
    cases v with
    | obj ms' =>
        rw [hv, Option.some.inj hms]
    | _ => cases hms
  · exact fun h => ⟨_, h, rfl⟩

/-- A key of an entry is a literal when its text is. -/
theorem isKey_decode (s : String) (k : List CodeUnit) :
    isKey P (lit s) (.str (decode k)) = true ↔ k = unitsOfText s.toList := by
  rw [isKey, keyString, beq_iff_eq, Option.some.injEq]
  constructor
  · intro h
    rw [← encode_decode k, h]
    rfl
  · rintro rfl
    exact decode_encode fun c hc => not_half_of_mem_ofText hc

theorem without_ofJsonMembers (ms : Members P) :
    without P (lit "hash") (ofJsonMembers P.toPyFloats ms) =
      ofJsonMembers P.toPyFloats (body P ms) := by
  rw [without, body, ofJsonMembers_eq, ofJsonMembers_eq, List.filter_map]
  congr 1
  refine List.filter_congr fun m _ => ?_
  rw [Function.comp_apply, Bool.eq_iff_iff, Bool.not_eq_true', ← Bool.not_eq_true,
    isKey_decode, decide_eq_true_iff]

/-- The value at a literal key of an entry. -/
theorem get_ofJsonMembers (key : String) (ms : Members P) :
    get P (lit key) (ofJsonMembers P.toPyFloats ms) =
      (dictGet (unitsOfText key.toList) ms).map (ofJson P.toPyFloats) := by
  have hkey : ((fun m => isKey P (lit key) m.1) ∘ fun m : List CodeUnit × Json P.F =>
      ((.str (decode m.1) : PyKey P.F), ofJson P.toPyFloats m.2)) =
      fun m => decide (m.1 = unitsOfText key.toList) := by
    funext m
    rw [Function.comp_apply, Bool.eq_iff_iff, isKey_decode, decide_eq_true_iff]
  rw [get, dictGet, ofJsonMembers_eq, List.find?_map, hkey, Option.map_map, Option.map_map]
  rfl

theorem stringAt_of_mem {key : String} {ms : Members P} {us : List CodeUnit}
    (hnodup : (ms.map Prod.fst).Nodup) (h : (unitsOfText key.toList, .str us) ∈ ms) :
    stringAt P key ms = some (decode us) := by
  rw [stringAt, get_ofJsonMembers, (dictGet_eq_some_iff hnodup).mpr h, Option.map_some,
    Option.bind_some, ofJson]
  rfl

theorem get_of_stringAt {key : String} {ms : Members P} {s : List CodePoint}
    (h : stringAt P key ms = some s) :
    get P (lit key) (ofJsonMembers P.toPyFloats ms) = some (.str s) := by
  obtain ⟨v, hv, hs⟩ := Option.bind_eq_some_iff.mp h
  rw [hv]
  cases v with
  | str t => rw [Option.some.inj hs]
  | _ => cases hs

theorem entryHash_ofJsonMembers (ms : Members P) : entryHash P (ofJsonMembers P.toPyFloats ms) =
    some (P.sha256 (print P.toFloats (.canon (.obj (body P ms))))) := by
  have htree := sortedTree_ofJson P.toPyFloats (.obj (body P ms))
  rw [ofJson] at htree
  rw [entryHash, canonicalPreimage, without_ofJsonMembers, dumpsSorted, htree, Option.map_some,
    Option.map_some]

/-! ## The walk -/

variable {P}

/-- What an anchor asks of the hash of a record. -/
def AgreesAt (expected : Option (ℤ × List CodePoint)) (n : ℕ) (h : List CodePoint) : Prop :=
  ∀ k a, expected = some (k, a) → (n : ℤ) = k → h = a

theorem checkAnchor_eq_ok {expected : Option (ℤ × List CodePoint)} {n : ℕ} {h : List CodePoint} :
    checkAnchor (P := P) expected n h = .ok () ↔ AgreesAt expected n h := by
  rw [AgreesAt]
  cases expected with
  | none => simp [checkAnchor]
  | some a =>
      simp only [checkAnchor, Option.some.injEq]
      split
      next hne =>
        constructor
        · intro herr
          cases herr
        · exact fun hagree => absurd (hagree a.1 a.2 rfl hne.1) hne.2
      next hne =>
        refine ⟨fun _ k b hab hk => ?_, fun _ => rfl⟩
        subst hab
        by_contra hh
        exact hne ⟨hk, hh⟩

theorem checkEntry_eq_ok {i : ℕ} {prev h : List CodePoint} {ms : Members P} :
    checkEntry i prev (ofJsonMembers P.toPyFloats ms) = .ok h ↔
      ((chain P).prev ms = some prev ∧ (chain P).hash ms = some ((chain P).digest ms)) ∧
        (chain P).digest ms = h := by
  rw [checkEntry, entryHash_ofJsonMembers]
  dsimp only
  split
  next hprev =>
    constructor
    · intro herr
      cases herr
    · exact fun hok => absurd hok.1.1 hprev
  next hprev =>
    split
    next hhash =>
      constructor
      · intro herr
        cases herr
      · exact fun hok => absurd hok.1.2 hhash
    next hhash =>
      rw [Except.ok.injEq]
      exact (and_iff_right ⟨not_not.mp hprev, not_not.mp hhash⟩).symm

theorem entriesOf_cons_blank {line : List Char} (h : strip line = []) (lines : List (List Char)) :
    entriesOf P (line :: lines) = entriesOf P lines := by
  rw [entriesOf, entriesOf, notBlank, notBlank, List.map_cons, h,
    List.filter_cons_of_neg (by simp)]

theorem entriesOf_cons {line : List Char} (h : strip line ≠ []) {lines : List (List Char)}
    {es : List (Members P)} : entriesOf P (line :: lines) = some es ↔
      ∃ ms es', loads P.toFloats (strip line) = some (.obj ms) ∧ entriesOf P lines = some es' ∧
        es = ms :: es' := by
  rw [entriesOf, notBlank, List.map_cons, List.filter_cons_of_pos (by simpa using h)]
  rw [List.mapM_cons]
  constructor
  · intro hes
    obtain ⟨ms, hms, hrest⟩ := Option.bind_eq_some_iff.mp hes
    obtain ⟨es', hes', hcons⟩ := Option.bind_eq_some_iff.mp hrest
    exact ⟨ms, es', (entryOf_eq_some P).mp hms, hes', (Option.some.inj hcons).symm⟩
  · rintro ⟨ms, es', hms, hes', rfl⟩
    rw [entriesOf, notBlank] at hes'
    rw [(entryOf_eq_some P).mpr hms, hes']
    rfl

/-- A walk stops at a line that is no entry. -/
theorem checkLines_notObject {expected : Option (ℤ × List CodePoint)} {line : List Char}
    {lines : List (List Char)} {i n m : ℕ} {prev : List CodePoint} (hblank : strip line ≠ [])
    (hobj : entryOf P (strip line) = none) :
    checkLines (P := P) expected i n prev (line :: lines) ≠ .ok m := by
  rw [checkLines, if_neg hblank]
  cases hload : loads P.toFloats (strip line) with
  | none =>
      intro hok
      cases hok
  | some v =>
      cases v with
      | obj ms =>
          rw [(entryOf_eq_some P).mpr hload] at hobj
          cases hobj
      | _ =>
          intro hok
          cases hok

/-- A walk goes on behind an entry that is checked and agrees with the anchor. -/
theorem checkLines_obj {expected : Option (ℤ × List CodePoint)} {line : List Char}
    {lines : List (List Char)} {i n m : ℕ} {prev : List CodePoint} {ms : Members P}
    (hblank : strip line ≠ []) (hload : loads P.toFloats (strip line) = some (.obj ms)) :
    checkLines (P := P) expected i n prev (line :: lines) = .ok m ↔
      ((chain P).prev ms = some prev ∧ (chain P).hash ms = some ((chain P).digest ms)) ∧
        AgreesAt expected (n + 1) ((chain P).digest ms) ∧
        checkLines (P := P) expected (i + 1) (n + 1) ((chain P).digest ms) lines = .ok m := by
  rw [checkLines, if_neg hblank, hload]
  dsimp only
  cases hentry : checkEntry i prev (ofJsonMembers P.toPyFloats ms) with
  | error e =>
      constructor
      · intro herr
        cases herr
      · rintro ⟨hlink, -⟩
        rw [checkEntry_eq_ok.mpr ⟨hlink, rfl⟩] at hentry
        cases hentry
  | ok h =>
      obtain ⟨hlink, rfl⟩ := checkEntry_eq_ok.mp hentry
      rw [and_iff_right hlink, ← checkAnchor_eq_ok (P := P)]
      dsimp only
      cases checkAnchor (P := P) expected (n + 1) ((chain P).digest ms) with
      | error e =>
          constructor
          · intro herr
            cases herr
          · rintro ⟨herr, -⟩
            cases herr
      | ok _ => exact (and_iff_right rfl).symm

/-- A walk over lines succeeds when the lines are entries that are chained, and
their hashes agree with the anchor. -/
theorem checkLines_eq_ok {expected : Option (ℤ × List CodePoint)} {lines : List (List Char)}
    {i n m : ℕ} {prev : List CodePoint} :
    checkLines (P := P) expected i n prev lines = .ok m ↔ ∃ es, entriesOf P lines = some es ∧
      ((chain P).walk prev es).isSome ∧ m = n + es.length ∧
        ∀ j e, es[j]? = some e → AgreesAt expected (n + j + 1) ((chain P).digest e) := by
  induction lines generalizing i n prev with
  | nil =>
      rw [checkLines, Except.ok.injEq]
      constructor
      · rintro rfl
        exact ⟨[], rfl, rfl, rfl, fun j e he => by simp at he⟩
      · rintro ⟨es, hes, -, rfl, -⟩
        rw [← Option.some.inj hes]
        rfl
  | cons line lines ih =>
      by_cases hblank : strip line = []
      · rw [checkLines, if_pos hblank, ih, entriesOf_cons_blank hblank]
      · simp only [entriesOf_cons hblank]
        cases hobj : entryOf P (strip line) with
        | none =>
            constructor
            · intro hok
              exact absurd hok (checkLines_notObject hblank hobj)
            · rintro ⟨_, ⟨ms, _, hms, -⟩, -⟩
              rw [(entryOf_eq_some P).mpr hms] at hobj
              cases hobj
        | some ms =>
            have hload := (entryOf_eq_some P).mp hobj
            rw [checkLines_obj hblank hload, ih]
            constructor
            · rintro ⟨hlink, hagree, es, hes, hwalk, rfl, hrest⟩
              refine ⟨ms :: es, ⟨ms, es, hload, hes, rfl⟩, ?_, ?_, ?_⟩
              · rwa [HashChain.walk, if_pos hlink]
              · rw [List.length_cons, Nat.add_right_comm, Nat.add_assoc]
              · intro j e he
                cases j with
                | zero =>
                    obtain rfl : ms = e := Option.some.inj he
                    exact hagree
                | succ j =>
                    have h := hrest j e he
                    rwa [Nat.add_right_comm n 1 j] at h
            · rintro ⟨es, ⟨ms', es', hms', hes', rfl⟩, hwalk, rfl, hagree⟩
              obtain rfl : ms = ms' :=
                Json.obj.inj (Option.some.inj (hload.symm.trans hms'))
              obtain ⟨h, hh⟩ := Option.isSome_iff_exists.mp hwalk
              obtain ⟨hlink, hwalk'⟩ := (chain P).walk_cons_eq_some.mp hh
              refine ⟨hlink, hagree 0 ms rfl, es', hes', by rw [hwalk']; rfl, ?_, ?_⟩
              · rw [List.length_cons, Nat.add_right_comm, Nat.add_assoc]
              · intro j e he
                have h := hagree (j + 1) e he
                rwa [Nat.add_right_comm n 1 j]

/-! ## Files -/

theorem checkCount_eq_ok {expected : Option (ℤ × List CodePoint)} {n : ℕ} :
    checkCount (P := P) expected n = .ok () ↔ n ≠ 0 ∧ ∀ k a, expected = some (k, a) → k ≤ n := by
  rw [checkCount.eq_def]
  split
  next hzero =>
    constructor
    · intro herr
      cases herr
    · exact fun h => absurd hzero h.1
  next hzero =>
    rw [and_iff_right hzero]
    cases expected with
    | none => simp
    | some a =>
        dsimp only
        split
        next hlt =>
          constructor
          · intro herr
            cases herr
          · exact fun h => absurd (h a.1 a.2 rfl) (not_le.mpr hlt)
        next hle =>
          refine ⟨fun _ k b hab => ?_, fun _ => rfl⟩
          rw [Option.some.inj hab] at hle
          exact not_lt.mp hle

/-- A file verifies when its lines are entries that are chained from the genesis
hash, and the anchor agrees with one of them if its count is one of theirs. -/
theorem checkFile_eq_ok {genesis : List CodePoint} {expected : Option (ℤ × List CodePoint)}
    {file : Option (List Char)} : checkFile (P := P) genesis expected file = .ok () ↔
      ∃ text es, file = some text ∧ entries P text = some es ∧ es ≠ [] ∧
        ((chain P).walk genesis es).isSome ∧ ∀ k a, expected = some (k, a) →
          k ≤ es.length ∧ ∀ (j : ℕ) (e : Members P), es[j]? = some e → (j : ℤ) + 1 = k →
            (chain P).digest e = a := by
  cases file with
  | none =>
      constructor
      · intro herr
        cases herr
      · rintro ⟨_, _, htext, -⟩
        cases htext
  | some text =>
      rw [checkFile]
      cases hlines : checkLines (P := P) expected 1 0 genesis (splitLines isNewline false text) with
      | error e =>
          constructor
          · intro herr
            cases herr
          · rintro ⟨_, es, htext, hes, -, hwalk, hanchor⟩
            cases htext
            have hok := (checkLines_eq_ok (P := P) (i := 1) (n := 0)).mpr
              ⟨es, hes, hwalk, rfl, fun j e he k a hka hjk =>
                (hanchor k a hka).2 j e he (by simpa using hjk)⟩
            rw [hlines] at hok
            cases hok
      | ok n =>
          dsimp only
          obtain ⟨es, hes, hwalk, hn, hagree⟩ := checkLines_eq_ok.mp hlines
          rw [Nat.zero_add] at hn
          rw [checkCount_eq_ok, hn]
          constructor
          · rintro ⟨hne, hcount⟩
            refine ⟨text, es, rfl, hes, fun hnil => hne (by rw [hnil]; rfl), hwalk,
              fun k a hka => ⟨hcount k a hka, fun j e he hjk => ?_⟩⟩
            exact hagree j e he k a hka (by simpa using hjk)
          · rintro ⟨_, es', htext, hes', hne, -, hanchor⟩
            cases htext
            obtain rfl : es = es' := Option.some.inj (hes.symm.trans hes')
            exact ⟨fun hlen => hne (List.length_eq_zero_iff.mp hlen),
              fun k a hka => (hanchor k a hka).1⟩

/-- Without an anchor only the entries and their chain are checked. -/
theorem verifyChain_none_iff {genesis : List CodePoint} {file : Option (List Char)} :
    verifyChain P file genesis none = .ok () ↔ ∃ text es, file = some text ∧
      entries P text = some es ∧ es ≠ [] ∧ ((chain P).walk genesis es).isSome := by
  rw [verifyChain, checkFile_eq_ok]
  constructor
  · rintro ⟨text, es, htext, hes, hne, hwalk, -⟩
    exact ⟨text, es, htext, hes, hne, hwalk⟩
  · rintro ⟨text, es, htext, hes, hne, hwalk⟩
    exact ⟨text, es, htext, hes, hne, hwalk, fun k a hka => by cases hka⟩

/-- With an anchor that can be read the hash at its count is checked too. -/
theorem verifyChain_some_iff {genesis anchor : List CodePoint} {file : Option (List Char)} :
    verifyChain P file genesis (some anchor) = .ok () ↔ ∃ k a text es,
      parseAnchor P.digits anchor = some (k, a) ∧ file = some text ∧ entries P text = some es ∧
        es ≠ [] ∧ ((chain P).walk genesis es).isSome ∧ k ≤ es.length ∧
          ∀ (j : ℕ) (e : Members P), es[j]? = some e → (j : ℤ) + 1 = k →
            (chain P).digest e = a := by
  rw [verifyChain]
  cases hparse : parseAnchor P.digits anchor with
  | none =>
      constructor
      · intro herr
        cases herr
      · rintro ⟨_, _, _, _, hnone, -⟩
        cases hnone
  | some p =>
      dsimp only
      rw [checkFile_eq_ok]
      constructor
      · rintro ⟨text, es, htext, hes, hne, hwalk, hanchor⟩
        obtain ⟨hle, hdigest⟩ := hanchor p.1 p.2 rfl
        exact ⟨p.1, p.2, text, es, rfl, htext, hes, hne, hwalk, hle, hdigest⟩
      · rintro ⟨k, a, text, es, hp, htext, hes, hne, hwalk, hle, hdigest⟩
        obtain rfl : p = (k, a) := Option.some.inj hp
        refine ⟨text, es, htext, hes, hne, hwalk, fun k' a' hka => ?_⟩
        obtain ⟨rfl, rfl⟩ := Prod.mk.inj (Option.some.inj hka)
        exact ⟨hle, hdigest⟩

end AutonomousAudit
