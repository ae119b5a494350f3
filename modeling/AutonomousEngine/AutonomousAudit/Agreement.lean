import AutonomousEngine.AutonomousAudit.Verification

/-!
# What the writer appends and what the verifier finds

The writer hashes the record it holds, and the verifier hashes what it reads back
from the line of the record.  The two agree for a record that is stable, and for
no other (`digest_readBack_iff`).
-/

namespace AutonomousAudit

open Basis

variable {P : Python}

/-! ## Items of a record -/

theorem isKey_iff {s : List CodePoint} {k : PyKey P.F} : isKey P s k = true ↔ k = .str s := by
  rw [isKey, beq_iff_eq]
  cases k with
  | str t => rw [keyString, Option.some.injEq, PyKey.str.injEq]
  | _ =>
      constructor
      · intro h
        cases h
      · intro h
        cases h

/-- A key that is not there is put at the end. -/
theorem put_of_notMem {s : List CodePoint} (v : PyVal P.F) {r : Record P}
    (h : ∀ m ∈ r, m.1 ≠ .str s) : put P s v r = r ++ [(.str s, v)] := by
  induction r with
  | nil => rfl
  | cons m r ih =>
      rw [put, if_neg fun hk => h m (.head _) (isKey_iff.mp hk),
        ih fun n hn => h n (.tail _ hn), List.cons_append]

theorem mem_put (s : List CodePoint) (v : PyVal P.F) (r : Record P) :
    (.str s, v) ∈ put P s v r := by
  induction r with
  | nil => exact .head _
  | cons m r ih =>
      rw [put]
      split
      next hk =>
        rw [isKey_iff.mp hk]
        exact .head _
      next => exact .tail _ ih

theorem of_mem_put {s : List CodePoint} {v : PyVal P.F} {r : Record P} {m : PyKey P.F × PyVal P.F}
    (h : m ∈ put P s v r) : m = (.str s, v) ∨ m ∈ r := by
  induction r with
  | nil => exact .inl (List.mem_singleton.mp h)
  | cons n r ih =>
      rw [put] at h
      split at h
      next hk =>
        rcases List.mem_cons.mp h with rfl | h
        · exact .inl (by rw [isKey_iff.mp hk])
        · exact .inr (.tail _ h)
      next =>
        rcases List.mem_cons.mp h with rfl | h
        · exact .inr (.head _)
        · exact (ih h).imp_right fun h => .tail _ h

theorem ne_of_mem_without {s : List CodePoint} {r : Record P} {m : PyKey P.F × PyVal P.F}
    (h : m ∈ without P s r) : m.1 ≠ .str s := by
  rw [without, List.mem_filter, Bool.not_eq_true', ← Bool.not_eq_true, isKey_iff] at h
  exact h.2

/-- A chained record has no hash yet. -/
theorem ne_hash_of_mem_chained {last : PyVal P.F} {record : Record P} {m : PyKey P.F × PyVal P.F}
    (h : m ∈ chained P last record) : m.1 ≠ .str (lit "hash") := by
  rcases of_mem_put h with rfl | h
  · intro hkey
    exact absurd (PyKey.str.inj hkey) (by decide)
  · exact ne_of_mem_without h

theorem without_chained (last : PyVal P.F) (record : Record P) :
    without P (lit "hash") (chained P last record) = chained P last record := by
  refine List.filter_eq_self.mpr fun m hm => ?_
  rw [Bool.not_eq_true', ← Bool.not_eq_true, isKey_iff]
  exact ne_hash_of_mem_chained hm

/-! ## Rows -/

/-- A record that was appended behind a hash, with its own. -/
structure Row (P : Python) where
  prev : List CodePoint
  record : Record P
  digest : List Char
  hashed : entryHash P (chained P (.str prev) record) = some digest

namespace Row

def entry (row : Row P) : Record P :=
  put P (lit "hash") (.str (ofText row.digest)) (chained P (.str row.prev) row.record)

/-- The members that are written for the record without its hash. -/
def members (row : Row P) : Members P :=
  plainMembers P.toPyFloats (chained P (.str row.prev) row.record)

def line (row : Row P) : List Char := dumps P.toPyFloats (.dict row.entry)

def readBack (row : Row P) : Members P :=
  dictOf (dictMembers (plainMembers P.toPyFloats row.entry))

theorem exists_tree (row : Row P) : ∃ t,
    sortedTree P.toPyFloats (.dict (chained P (.str row.prev) row.record)) = some t ∧
      P.sha256 (print P.toFloats t) = row.digest := by
  have h := row.hashed
  rw [entryHash, canonicalPreimage, without_chained, dumpsSorted, Option.map_map] at h
  exact Option.map_eq_some_iff.mp h

/-- The keys of a record that was appended are strings. -/
theorem exists_str (row : Row P) {m : PyKey P.F × PyVal P.F}
    (hm : m ∈ chained P (.str row.prev) row.record) : ∃ s, m.1 = .str s := by
  obtain ⟨t, ht, -⟩ := row.exists_tree
  obtain ⟨ts, s, hts, hs, -⟩ := sortedTree_dict P.toPyFloats ht
  obtain ⟨n, hn, hkey, -⟩ := exists_of_mem_of_forall₂ hts hm
  obtain ⟨p, hp, hpkey, -⟩ := exists_of_mem_of_forall₂ hts (mem_put _ _ _)
  have hsome := isSome_keyString_of_sortItems P.toPyFloats hs hp (by rw [← hpkey]; rfl) hn
  rw [← hkey] at hsome
  cases hk : m.1 with
  | str s => exact ⟨s, rfl⟩
  | _ =>
      rw [hk] at hsome
      cases hsome

/-- No other key is written as the key of the hash. -/
theorem keyText_ne_hash (row : Row P) : unitsOfText "hash".toList ∉
    (dictMembers row.members).map Prod.fst := by
  rw [dictMembers_eq, members, plainMembers_eq, List.map_map, List.map_map]
  intro h
  obtain ⟨m, hm, hkey⟩ := List.mem_map.mp h
  obtain ⟨s, hs⟩ := row.exists_str hm
  refine ne_hash_of_mem_chained hm ?_
  rw [hs]
  simp only [Function.comp_apply, hs, keyText] at hkey
  exact congrArg PyKey.str (eq_of_encode_eq (Printable.ofText_lt (printable_of_all (by decide))) hkey)

theorem entry_eq (row : Row P) : row.entry =
    chained P (.str row.prev) row.record ++ [(.str (lit "hash"), .str (ofText row.digest))] :=
  put_of_notMem _ fun _ hm => ne_hash_of_mem_chained hm

/-- The hash is read back behind the other members. -/
theorem readBack_eq (row : Row P) : row.readBack = dictOf (dictMembers row.members) ++
    [(unitsOfText "hash".toList, .str (encode (ofText row.digest)))] := by
  rw [readBack, entry_eq, plainMembers_eq, List.map_append, ← plainMembers_eq, dictMembers_eq,
    List.map_append, ← dictMembers_eq]
  exact dictOf_concat _ row.keyText_ne_hash

theorem nodup_readBack (row : Row P) : (row.readBack.map Prod.fst).Nodup := nodup_dictOf _

theorem hash_readBack (row : Row P) :
    (chain P).hash row.readBack = some (ofText row.digest) := by
  have hmem : (unitsOfText "hash".toList, .str (encode (ofText row.digest))) ∈ row.readBack := by
    rw [readBack_eq]
    exact List.mem_append_right _ (.head _)
  refine (stringAt_of_mem P row.nodup_readBack hmem).trans (congrArg some ?_)
  exact decode_encode fun c hc => not_half_of_mem_ofText hc

/-- The verifier hashes the text of what it reads back. -/
theorem digest_readBack (row : Row P) : (chain P).digest row.readBack =
    ofText (P.sha256 (print P.toFloats
      (plain P.toPyFloats (.dict (chained P (.str row.prev) row.record))).asDict.canon)) := by
  have hkeep : ∀ m ∈ dictOf (dictMembers row.members),
      decide (m.1 ≠ unitsOfText "hash".toList) = true := by
    intro m hm
    rw [decide_eq_true_iff]
    intro hkey
    exact row.keyText_ne_hash (hkey ▸ mem_of_mem_dictOf (List.mem_map_of_mem hm))
  have hbody : body P row.readBack = dictOf (dictMembers row.members) := by
    rw [body, readBack_eq, List.filter_append, List.filter_eq_self.mpr hkeep,
      List.filter_cons_of_neg (by simp), List.filter_nil, List.append_nil]
  rw [plain, Json.asDict]
  exact congrArg (fun ms => ofText (P.sha256 (print P.toFloats (Json.canon (.obj ms))))) hbody

end Row

/-! ## Stable records -/

theorem map_fst_put (s : List CodePoint) (v v' : PyVal P.F) (r : Record P) :
    (put P s v r).map (fun m => (m.1, ())) = (put P s v' r).map fun m => (m.1, ()) := by
  induction r with
  | nil => rfl
  | cons m r ih =>
      rw [put, put]
      split
      · rfl
      · rw [List.map_cons, List.map_cons, ih]

theorem stableMembers_put (s t t' : List CodePoint) (r : Record P) :
    stableMembers P.toPyFloats (put P s (.str t) r) =
      stableMembers P.toPyFloats (put P s (.str t') r) := by
  induction r with
  | nil => rfl
  | cons m r ih =>
      rw [put, put]
      split
      · rfl
      · rw [stableMembers, stableMembers, ih]

variable (P) in
/-- Whether a record, without a hash and with one of a record before it, is stable. -/
def stableRecord (record : Record P) : Bool :=
  stable P.toPyFloats (.dict (chained P (.str []) record))

/-- It does not matter which record stands before it. -/
theorem stable_chained (prev : List CodePoint) (record : Record P) :
    stable P.toPyFloats (.dict (chained P (.str prev) record)) = stableRecord P record := by
  rw [stableRecord, stable, stable, chained, chained, stableMembers_put _ prev [],
    map_fst_put _ (.str prev) (.str [])]

namespace Row

/-- The verifier finds the hash of a stable record. -/
theorem digest_readBack_of_stable {row : Row P} (h : stableRecord P row.record = true) :
    (chain P).digest row.readBack = ofText row.digest := by
  obtain ⟨t, ht, hsha⟩ := row.exists_tree
  rw [digest_readBack, ← (sortedTree_iff P.toPyFloats _ ht).mpr (by rwa [stable_chained]), hsha]

/-- Unless hashes collide it finds no other hash. -/
theorem digest_readBack_iff (hsha : Function.Injective P.sha256) (row : Row P) :
    (chain P).digest row.readBack = ofText row.digest ↔ stableRecord P row.record = true := by
  refine ⟨fun h => ?_, digest_readBack_of_stable⟩
  obtain ⟨t, ht, hdigest⟩ := row.exists_tree
  rw [digest_readBack, ← hdigest] at h
  have htree := print_injective P.toFloats (hsha (ofText_injective h))
  rw [← stable_chained row.prev]
  exact (sortedTree_iff P.toPyFloats _ ht).mp htree.symm

/-- The hash before a stable record is read back, with pairs of halves joined. -/
theorem prev_readBack {row : Row P} (h : stableRecord P row.record = true) :
    (chain P).prev row.readBack = some (decode (encode row.prev)) := by
  obtain ⟨t, ht, -⟩ := row.exists_tree
  have hnodup := nodup_keyText P.toPyFloats ht (by rwa [stable_chained])
  have hmembers : dictOf (dictMembers row.members) = dictMembers row.members := by
    refine dictOf_of_nodup ?_
    rwa [dictMembers_eq, members, plainMembers_eq, List.map_map, List.map_map]
  have hmem : (unitsOfText "prev_hash".toList, .str (encode row.prev)) ∈ row.readBack := by
    rw [readBack_eq, hmembers, dictMembers_eq, members, plainMembers_eq, List.map_map]
    exact List.mem_append_left _ (List.mem_map_of_mem (mem_put _ _ _))
  exact stringAt_of_mem P row.nodup_readBack hmem

end Row

/-! ## The file of some rows -/

/-- How rows were chained when they were written. -/
def writing : HashChain (Row P) (List CodePoint) where
  prev row := some row.prev
  hash row := some (ofText row.digest)
  digest row := ofText row.digest

/-- The file with some rows.  There is none before the first. -/
def fileOf (rows : List (Row P)) : Option (List Char) :=
  if rows.isEmpty then none else some (unlines (rows.map Row.line))

theorem getD_fileOf (rows : List (Row P)) :
    (fileOf rows).getD [] = unlines (rows.map Row.line) := by
  cases rows with
  | nil => rfl
  | cons row rows => rfl

theorem fileOf_concat (rows : List (Row P)) (row : Row P) :
    fileOf (rows ++ [row]) = some ((fileOf rows).getD [] ++ (row.line ++ ['\n'])) := by
  rw [getD_fileOf, fileOf, List.isEmpty_eq_false_iff.mpr (by simp), if_neg Bool.false_ne_true,
    List.map_append, unlines_append, List.map_singleton, unlines_cons, unlines_nil]

theorem strip_line (row : Row P) : strip row.line = row.line := strip_print_obj P.toFloats _

theorem loads_line (row : Row P) : loads P.toFloats row.line = some (.obj row.readBack) :=
  loads_print P.toFloats _

theorem line_ne_nil (row : Row P) : row.line ≠ [] := by
  obtain ⟨t, ht⟩ := print_obj_braces P.toFloats (plainMembers P.toPyFloats row.entry)
  intro hnil
  have hcons := ht.symm.trans hnil
  cases hcons

theorem entriesOf_lines (rows : List (Row P)) :
    entriesOf P (rows.map Row.line) = some (rows.map Row.readBack) := by
  induction rows with
  | nil => rfl
  | cons row rows ih =>
      rw [List.map_cons, List.map_cons, entriesOf_cons (by
        rw [strip_line]
        exact line_ne_nil row)]
      exact ⟨_, _, by rw [strip_line, loads_line], ih, rfl⟩

theorem splitLines_file (rows : List (Row P)) :
    splitLines isNewline false (unlines (rows.map Row.line)) = rows.map Row.line := by
  have hprint : ∀ l ∈ rows.map Row.line, ∀ c ∈ l, isNewline c = false := by
    intro l hl c hc
    obtain ⟨row, -, rfl⟩ := List.mem_map.mp hl
    exact (printable_print P.toFloats _ c hc).isNewline
  have hsplit := splitLines_unlines rfl hprint []
  rwa [List.append_nil, splitLines, List.append_nil] at hsplit

/-- A new writer finds the last hash of the rows. -/
theorem resumeLines_lines {rows : List (Row P)} {p h : List CodePoint} (i : ℕ)
    (hwalk : writing.walk p rows = some h) :
    resumeLines P (.str p) i (rows.map Row.line) = .ok (.str h) := by
  induction rows generalizing p i with
  | nil =>
      obtain rfl : p = h := Option.some.inj hwalk
      rfl
  | cons row rows ih =>
      obtain ⟨-, hrest⟩ := writing.walk_cons_eq_some.mp hwalk
      have hget : get P (lit "hash") (ofJsonMembers P.toPyFloats row.readBack) =
          some (.str (ofText row.digest)) := get_of_stringAt P row.hash_readBack
      rw [List.map_cons, resumeLines, strip_line, if_neg (line_ne_nil row), loads_line]
      dsimp only
      rw [hget, Option.getD_some]
      exact ih (i + 1) hrest

/-! ## Runs of the writer -/

/-- The records that were appended, and the writer, which may be opened again at any
time.  An append that fails changes nothing. -/
inductive Run (genesis : List CodePoint) : List (Record P) → AuditChainWriter P → Prop where
  | start {minFree : ℕ} {schema : Option RecordSchema} {w : AuditChainWriter P}
      (h : AuditChainWriter.init P none genesis minFree schema = .ok w) : Run genesis [] w
  | append {records : List (Record P)} {w w' : AuditChainWriter P} {free : ℕ} {record : Record P}
      (run : Run genesis records w) (h : w.append P free record = .ok w') :
      Run genesis (records ++ [record]) w'
  | reopen {records : List (Record P)} {w w' : AuditChainWriter P} {minFree : ℕ}
      {schema : Option RecordSchema} (run : Run genesis records w)
      (h : AuditChainWriter.init P w.file genesis minFree schema = .ok w') : Run genesis records w'

/-- What an append that succeeds does. -/
theorem append_eq_ok {w w' : AuditChainWriter P} {free : ℕ} {record : Record P}
    (h : w.append P free record = .ok w') : ∃ digest,
      entryHash P (chained P w.lastHash record) = some digest ∧
        w'.file = some (w.file.getD [] ++ (dumps P.toPyFloats (.dict (put P (lit "hash")
          (.str (ofText digest)) (chained P w.lastHash record))) ++ ['\n'])) ∧
        w'.lastHash = .str (ofText digest) := by
  rw [AuditChainWriter.append] at h
  cases hschema : w.schema.elim (.ok ()) fun s => s.validate P record with
  | error e =>
      rw [hschema] at h
      cases h
  | ok _ =>
      rw [hschema] at h
      dsimp only at h
      split at h
      · cases h
      · cases hhash : entryHash P (chained P w.lastHash record) with
        | none =>
            rw [hhash] at h
            cases h
        | some digest =>
            rw [hhash] at h
            obtain rfl := Except.ok.inj h
            exact ⟨digest, rfl, rfl, rfl⟩

/-- A run has rows in its file, and its writer holds the hash they end with. -/
def Written (genesis : List CodePoint) (records : List (Record P)) (w : AuditChainWriter P) :
    Prop :=
  ∃ rows h, rows.map Row.record = records ∧ writing.walk genesis rows = some h ∧
    w.file = fileOf rows ∧ w.lastHash = .str h

theorem written_append {genesis : List CodePoint} {records : List (Record P)}
    {w w' : AuditChainWriter P} {free : ℕ} {record : Record P} (hw : Written genesis records w)
    (h : w.append P free record = .ok w') : Written genesis (records ++ [record]) w' := by
  obtain ⟨rows, prev, rfl, hwalk, hfile, hlast⟩ := hw
  obtain ⟨digest, hdigest, hfile', hlast'⟩ := append_eq_ok h
  rw [hlast] at hdigest hfile'
  let row : Row P := ⟨prev, record, digest, hdigest⟩
  refine ⟨rows ++ [row], ofText digest, List.map_append, ?_, ?_, hlast'⟩
  · exact writing.walk_concat_eq_some.mpr ⟨prev, hwalk, rfl, rfl, rfl⟩
  · rw [hfile', fileOf_concat, hfile]
    rfl

theorem written_init {genesis : List CodePoint} {rows : List (Row P)} {h : List CodePoint}
    (hwalk : writing.walk genesis rows = some h) {minFree : ℕ} {schema : Option RecordSchema}
    {w : AuditChainWriter P}
    (hinit : AuditChainWriter.init P (fileOf rows) genesis minFree schema = .ok w) :
    Written genesis (rows.map Row.record) w := by
  have hresume : resumeLastHash P genesis (fileOf rows) = .ok (.str h) := by
    cases rows with
    | nil =>
        obtain rfl : genesis = h := Option.some.inj hwalk
        rfl
    | cons row rows =>
        rw [fileOf, List.isEmpty_cons, if_neg Bool.false_ne_true, resumeLastHash, splitLines_file]
        exact resumeLines_lines 1 hwalk
  rw [AuditChainWriter.init, hresume] at hinit
  obtain rfl := Except.ok.inj hinit
  exact ⟨rows, h, rfl, hwalk, rfl, rfl⟩

/-- After every run the file holds the records. -/
theorem written_run {genesis : List CodePoint} {records : List (Record P)} {w : AuditChainWriter P}
    (run : Run genesis records w) : Written genesis records w := by
  induction run with
  | start h =>
      have hwalk : writing.walk genesis ([] : List (Row P)) = some genesis := rfl
      exact written_init hwalk h
  | append _ h ih => exact written_append ih h
  | reopen _ h ih =>
      obtain ⟨rows, _, rfl, hwalk, hfile, -⟩ := ih
      rw [hfile] at h
      exact written_init hwalk h

/-! ## Agreement -/

/-- A hash that a row was written behind is the genesis hash or a digest. -/
theorem prev_eq_of_mem {p h : List CodePoint} {rows : List (Row P)}
    (hwalk : writing.walk p rows = some h) {row : Row P} (hrow : row ∈ rows) :
    row.prev = p ∨ ∃ d, row.prev = ofText d := by
  induction rows generalizing p with
  | nil => cases hrow
  | cons first rows ih =>
      obtain ⟨⟨hprev, -⟩, hrest⟩ := writing.walk_cons_eq_some.mp hwalk
      rcases List.mem_cons.mp hrow with rfl | hrow
      · exact .inl (Option.some.inj hprev)
      · exact .inr ((ih hrest hrow).elim (fun h => ⟨_, h⟩) id)

/-- A file of rows verifies when its entries are chained. -/
theorem verifyChain_fileOf {genesis : List CodePoint} {rows : List (Row P)} (hne : rows ≠ []) :
    verifyChain P (fileOf rows) genesis none = .ok () ↔
      ((chain P).walk genesis (rows.map Row.readBack)).isSome := by
  have hfile : fileOf rows = some (unlines (rows.map Row.line)) := by
    rw [fileOf, List.isEmpty_eq_false_iff.mpr hne, if_neg Bool.false_ne_true]
  have hentries : entries P (unlines (rows.map Row.line)) = some (rows.map Row.readBack) := by
    rw [entries, splitLines_file, entriesOf_lines]
  rw [verifyChain_none_iff, hfile]
  constructor
  · rintro ⟨text, es, htext, hes, -, hwalk⟩
    rw [← Option.some.inj htext, hentries] at hes
    rwa [← Option.some.inj hes] at hwalk
  · exact fun hwalk => ⟨_, _, rfl, hentries, fun h => hne (List.map_eq_nil_iff.mp h), hwalk⟩

/-- The entries of stable rows are chained as the rows are. -/
theorem walk_readBack {genesis h : List CodePoint} (hgenesis : decode (encode genesis) = genesis)
    {rows : List (Row P)} (hwalk : writing.walk genesis rows = some h)
    (hstable : ∀ row ∈ rows, stableRecord P row.record = true) :
    (chain P).walk genesis (rows.map Row.readBack) = some h := by
  rw [← hwalk]
  refine writing.walk_map fun row hrow => ⟨?_, row.hash_readBack,
    Row.digest_readBack_of_stable (hstable row hrow)⟩
  rw [Row.prev_readBack (hstable row hrow)]
  rcases prev_eq_of_mem hwalk hrow with hprev | ⟨d, hprev⟩
  · rw [hprev, hgenesis]
    exact congrArg some hprev.symm
  · rw [hprev, decode_encode fun c hc => not_half_of_mem_ofText hc]
    exact congrArg some hprev.symm

/-- A run with stable records verifies.  When hashes do not collide, no other run
does. -/
theorem verifyChain_run_iff {genesis : List CodePoint} {records : List (Record P)}
    {w : AuditChainWriter P} (run : Run genesis records w) (hne : records ≠ []) :
    (decode (encode genesis) = genesis ∧ (∀ record ∈ records, stableRecord P record = true) →
      verifyChain P w.file genesis none = .ok ()) ∧
    (Function.Injective P.sha256 → verifyChain P w.file genesis none = .ok () →
      decode (encode genesis) = genesis ∧ ∀ record ∈ records, stableRecord P record = true) := by
  obtain ⟨rows, h, rfl, hwalk, hfile, -⟩ := written_run run
  have hrows : rows ≠ [] := fun hnil => hne (by rw [hnil]; rfl)
  rw [hfile, verifyChain_fileOf hrows, List.forall_mem_map]
  constructor
  · rintro ⟨hgenesis, hstable⟩
    rw [walk_readBack hgenesis hwalk hstable]
    rfl
  · intro hsha hsome
    obtain ⟨h', hh'⟩ := Option.isSome_iff_exists.mp hsome
    have hstable : ∀ row ∈ rows, stableRecord P row.record = true := by
      intro row hrow
      have hhash := (chain P).hash_of_mem hh' (List.mem_map_of_mem hrow)
      rw [row.hash_readBack, Option.some.injEq] at hhash
      exact (row.digest_readBack_iff hsha).mp hhash.symm
    refine ⟨?_, hstable⟩
    cases rows with
    | nil => exact absurd rfl hrows
    | cons row rows =>
        have hlink := ((chain P).walk_cons_eq_some.mp hh').1.1
        have hprev : row.prev = genesis :=
          Option.some.inj (writing.walk_cons_eq_some.mp hwalk).1.1
        rw [Row.prev_readBack (hstable row (.head _)), hprev] at hlink
        exact Option.some.inj hlink

/-! ## Two runs -/

/-- Hashes from a table, and an injective function elsewhere. -/
def digestIn (table : List (List Char × List Char)) (cs : List Char) : List Char :=
  match table.find? fun p => p.1 = cs with
  | some p => p.2
  | none => '#' :: cs

theorem nan_shape (_ : Unit) : "NaN".toList ∈ specials ∨ isFloatLiteral "NaN".toList = true :=
  .inl (by decide)

/-- Python with the digests of a table, and without floating point numbers but
NaN. -/
def pythonWith (table : List (List Char × List Char)) : Python where
  F := Unit
  text _ := "NaN".toList
  ofText _ := ()
  ofText_text _ := rfl
  text_shape := nan_shape
  value _ := .nan
  sha256 := digestIn table
  str _ := []
  digits := Idempotenz.asciiZiffern

def zeros : List Char := List.replicate 64 '0'

def genesisHash : List CodePoint := ofText zeros

theorem eq_ok_of_toOption {ε α : Type} {x : Except ε α} {a : α} (h : x.toOption = some a) :
    x = .ok a := by
  cases x with
  | error e => cases h
  | ok b => rw [Option.some.inj h]

def buyDigest : List Char :=
  "00f59c75e8e55942ae29070157bbffd5349fea3c2a4028d3b6c532c9adf108ad".toList

def sellDigest : List Char :=
  "0c50e9dcc6284cbefaf9f94b8ad01b79ab478fee08406600565cfa8fadc461b3".toList

/-- The digests of two orders that are chained. -/
def orders : Python := pythonWith [
  ("\x7b\"action\": \"BUY\", \"prev_hash\": \"".toList ++ zeros ++ "\"\x7d".toList, buyDigest),
  ("\x7b\"action\": \"SELL\", \"prev_hash\": \"".toList ++ buyDigest ++
    "\", \"qty\": 2\x7d".toList, sellDigest)]

def buy : Record orders := [(.str (lit "action"), .str (lit "BUY"))]

def sell : Record orders := [(.str (lit "action"), .str (lit "SELL")), (.str (lit "qty"), .int 2)]

/-- Two orders with the writer opened again between them. -/
theorem orders_verifyChain : ∃ w : AuditChainWriter orders, Run genesisHash [buy, sell] w ∧
    verifyChain orders w.file genesisHash none = .ok () := by
  have hrun : ((AuditChainWriter.append orders ⟨none, 0, none, .str genesisHash⟩ 1
      buy).toOption.bind fun w =>
        (AuditChainWriter.init orders w.file genesisHash 0 none).toOption.bind fun w =>
        (w.append orders 1 sell).toOption).isSome = true := by
    decide +kernel
  obtain ⟨w₃, h₃⟩ := Option.isSome_iff_exists.mp hrun
  obtain ⟨w₁, h₁, hrest⟩ := Option.bind_eq_some_iff.mp h₃
  obtain ⟨w₂, h₂, hsell⟩ := Option.bind_eq_some_iff.mp hrest
  have run : Run genesisHash [buy, sell] w₃ :=
    .append (.reopen (.append (.start rfl) (eq_ok_of_toOption h₁)) (eq_ok_of_toOption h₂))
      (eq_ok_of_toOption hsell)
  refine ⟨w₃, run, (verifyChain_run_iff run (by decide)).1 ⟨by decide +kernel, ?_⟩⟩
  rw [List.forall_mem_cons, List.forall_mem_singleton]
  exact ⟨by decide +kernel, by decide +kernel⟩

/-- The digests of a record as it is hashed by the writer and by the verifier. -/
def numbered : Python := pythonWith [
  ("\x7b\"prev_hash\": \"".toList ++ zeros ++
    "\", \"x\": \x7b\"2\": \"a\", \"10\": \"b\"\x7d\x7d".toList,
    "a49d735874b5abc95d658723f24d1d9f9d1834bfbe72659931a99926fff38389".toList),
  ("\x7b\"prev_hash\": \"".toList ++ zeros ++
    "\", \"x\": \x7b\"10\": \"b\", \"2\": \"a\"\x7d\x7d".toList,
    "8f374be141e3439e9aa6a8f6c6fb1718c032ad384bdb7b2ec23d0fdd3c713bc3".toList)]

/-- A dictionary with the keys 2 and 10, which are in another order as texts. -/
def numberedRecord : Record numbered :=
  [(.str (lit "x"), .dict [(.int 2, .str (lit "a")), (.int 10, .str (lit "b"))])]

/-- A record that is appended and does not verify. -/
theorem numbered_verifyChain : ∃ w : AuditChainWriter numbered,
    Run genesisHash [numberedRecord] w ∧ verifyChain numbered w.file genesisHash none ≠ .ok () := by
  have hrun : ((AuditChainWriter.append numbered ⟨none, 0, none, .str genesisHash⟩ 1
      numberedRecord).toOption.map fun w =>
        (verifyChain numbered w.file genesisHash none).toOption.isSome) = some false := by
    decide +kernel
  obtain ⟨w, hw, hverify⟩ := Option.map_eq_some_iff.mp hrun
  refine ⟨w, .append (.start rfl) (eq_ok_of_toOption hw), fun hok => ?_⟩
  rw [hok] at hverify
  cases hverify

end AutonomousAudit
