import AutonomousEngine.AutonomousAudit.Agreement

/-!
# What an anchor proves

The anchor of a file that verifies determines its records, unless hashes collide
(`take_same`).  Any other anchor is checked at its count.  No record has the count
zero or a negative one, and such an anchor is accepted with any hash.
-/

namespace AutonomousAudit

open Basis
open Idempotenz (Ziffern)

variable {P : Python}

/-! ## Entries are determined by their hash -/

theorem stringAt_eq_some_iff {key : String} {ms : Members P} (hnodup : (ms.map Prod.fst).Nodup)
    {s : List CodePoint} : stringAt P key ms = some s ↔
      ∃ us, (unitsOfText key.toList, .str us) ∈ ms ∧ decode us = s := by
  constructor
  · intro h
    have hget := get_of_stringAt P h
    rw [get_ofJsonMembers, Option.map_eq_some_iff] at hget
    obtain ⟨v, hv, hstr⟩ := hget
    have hmem := (dictGet_eq_some_iff hnodup).mp hv
    cases v with
    | str us =>
        rw [ofJson, PyVal.str.injEq] at hstr
        exact ⟨us, hmem, hstr⟩
    | _ => rw [ofJson] at hstr; cases hstr
  · rintro ⟨us, hmem, rfl⟩
    exact stringAt_of_mem P hnodup hmem

/-- Entries that are alike in the order of the names have the same strings. -/
theorem stringAt_eq_of_canon {key : String} {ms ns : Members P} (hms : (ms.map Prod.fst).Nodup)
    (hns : (ns.map Prod.fst).Nodup) (h : Json.canon (.obj ms) = Json.canon (.obj ns)) :
    stringAt P key ms = stringAt P key ns := by
  rw [Json.canon, Json.canon] at h
  have hmem (k us : List CodeUnit) : (k, .str us) ∈ ms ↔ (k, .str us) ∈ ns := by
    rw [← mem_canonMembers, Json.obj.inj h, mem_canonMembers]
  refine Option.ext fun s => ?_
  rw [stringAt_eq_some_iff hms, stringAt_eq_some_iff hns]
  simp only [hmem]

/-- What of SHA-256 is taken for granted: texts in the order of the names do not
collide. -/
def NoCollision (P : Python) : Prop :=
  Set.InjOn P.sha256 {cs | ∃ v : Json P.F, cs = print P.toFloats v.canon}

/-- Entries with one hash are equal, and so are the hashes before them. -/
theorem same_of_digest (hsha : NoCollision P) {a b : Members P} (ha : (a.map Prod.fst).Nodup)
    (hb : (b.map Prod.fst).Nodup) (hhash : (chain P).hash a = some ((chain P).digest a))
    (hhash' : (chain P).hash b = some ((chain P).digest b))
    (h : (chain P).digest a = (chain P).digest b) :
    Same (.obj a) (.obj b) ∧ (chain P).prev a = (chain P).prev b := by
  have hbody : Json.canon (.obj (body P a)) = Json.canon (.obj (body P b)) :=
    print_injective P.toFloats (hsha ⟨_, rfl⟩ ⟨_, rfl⟩ (ofText_injective h))
  rw [h] at hhash
  obtain ⟨us, hus, hdecode⟩ := (stringAt_eq_some_iff ha).mp hhash
  obtain ⟨us', hus', hdecode'⟩ := (stringAt_eq_some_iff hb).mp hhash'
  obtain rfl := decode_injective (hdecode.trans hdecode'.symm)
  have hcanon := canon_eq_of_filter ha hb hus hus' hbody
  exact ⟨same_of_canon hcanon, stringAt_eq_of_canon ha hb hcanon⟩

theorem nodup_of_mem_entriesOf {lines : List (List Char)} {es : List (Members P)}
    (h : entriesOf P lines = some es) : ∀ e ∈ es, (e.map Prod.fst).Nodup := by
  induction lines generalizing es with
  | nil =>
      obtain rfl : [] = es := Option.some.inj h
      exact fun e he => by cases he
  | cons line lines ih =>
      by_cases hblank : strip line = []
      · rw [entriesOf_cons_blank hblank] at h
        exact ih h
      · obtain ⟨ms, es', hms, hes', rfl⟩ := (entriesOf_cons hblank).mp h
        rw [List.forall_mem_cons]
        exact ⟨nodup_of_loads hms, ih hes'⟩

/-! ## The anchor of a file -/

/-- The anchor of chained entries is their number and the hash at their end. -/
theorem anchorLines_eq {lines : List (List Char)} {es : List (Members P)} {p h : List CodePoint}
    (hes : entriesOf P lines = some es) (hwalk : (chain P).walk p es = some h) (n : ℕ)
    (v : PyVal P.F) : anchorLines P n v lines =
      some (n + es.length, if es.isEmpty then v else .str h) := by
  induction lines generalizing es p n v with
  | nil =>
      obtain rfl : [] = es := Option.some.inj hes
      rfl
  | cons line lines ih =>
      rw [anchorLines]
      by_cases hblank : strip line = []
      · rw [entriesOf_cons_blank hblank] at hes
        rw [if_pos hblank, ih hes hwalk]
      · obtain ⟨ms, es', hms, hes', rfl⟩ := (entriesOf_cons hblank).mp hes
        obtain ⟨hlink, hrest⟩ := (chain P).walk_cons_eq_some.mp hwalk
        rw [if_neg hblank, hms]
        dsimp only
        rw [get_of_stringAt P hlink.2, Option.getD_some, ih hes' hrest, List.length_cons,
          Nat.add_right_comm, Nat.add_assoc]
        cases es' with
        | nil =>
            obtain rfl := Option.some.inj hrest
            rfl
        | cons e es' => rfl

/-! ## The count of an anchor is read as it was written -/

def digitNumber (c : Char) : ℕ := c.toNat - '0'.toNat

theorem digitsOf_eq (z : Ziffern) {c : Char} {ds : List Char}
    (h : ∀ d ∈ c :: ds, d.isDigit = true) :
    digitsOf z (c :: ds) = some ((c :: ds).map digitNumber) := by
  have hwert {d : Char} (hd : d.isDigit = true) : z.wert d = some (digitNumber d) := by
    rw [z.ascii d (lt_of_le_of_lt (printable_of_isDigit hd).2 (by decide)), if_pos hd]
    rfl
  induction ds generalizing c with
  | nil =>
      rw [digitsOf, hwert (h c (.head _))]
      rfl
  | cons d ds ih =>
      have hd : d ≠ '_' := by
        rintro rfl
        exact absurd (h '_' (.tail _ (.head _))) (by decide)
      rw [digitsOf, hwert (h c (.head _)), Option.bind_some, if_neg hd,
        ih fun e he => h e (.tail _ he)]
      rfl

theorem foldl_digitNumber (ds : List Char) (n : ℕ) :
    (ds.map digitNumber).foldl (fun n d => 10 * n + d) n = Nat.ofDigitChars 10 ds n := by
  rw [List.foldl_map]
  rfl

theorem dropWhile_intSpace {ds : List Char} (h : ∀ d ∈ ds, d.isDigit = true) :
    ds.dropWhile intSpace = ds := by
  cases ds with
  | nil => rfl
  | cons c cs =>
      refine List.dropWhile_cons_of_neg ?_
      have hdigit := h c (.head _)
      obtain ⟨hlow, hhigh⟩ := printable_of_isDigit hdigit
      have hblank : c.toNat ≠ 32 := by
        intro h32
        rw [Char.toNat_inj.mp (h32.trans (by decide : 32 = ' '.toNat))] at hdigit
        cases hdigit
      simp only [intSpace, isSpace, Bool.and_eq_true, Bool.or_eq_true, decide_eq_true_eq,
        beq_iff_eq]
      omega

theorem pyInt_digits {z : Ziffern} {ds : List Char} (hdigits : ∀ d ∈ ds, d.isDigit = true) {k : ℤ}
    (h : pyInt z ds = some k) : k = Nat.ofDigitChars 10 ds 0 := by
  have hbody : ((ds.dropWhile intSpace).reverse.dropWhile intSpace).reverse = ds := by
    rw [dropWhile_intSpace hdigits, dropWhile_intSpace fun d hd =>
      hdigits d (List.mem_reverse.mp hd), List.reverse_reverse]
  rw [pyInt, hbody] at h
  cases ds with
  | nil => simp [digitsOf] at h
  | cons c cs =>
      have hc := hdigits c (.head _)
      have hminus : c ≠ '-' := by
        rintro rfl
        cases hc
      have hplus : c ≠ '+' := by
        rintro rfl
        cases hc
      simp only [List.head?_cons, Option.some.injEq, hminus, hplus, or_self, if_false] at h
      rw [digitsOf_eq z hdigits, Option.bind_some] at h
      split at h
      · cases h
      · rw [← foldl_digitNumber]
        exact (Option.some.inj h).symm

/-- A count and a hash are read from an anchor as they were written. -/
theorem parseAnchor_eq {z : Ziffern} {n : ℕ} {hash a : List CodePoint} {k : ℤ}
    (h : parseAnchor z (ofText (Nat.toDigits 10 n) ++ lit ":" ++ hash) = some (k, a)) :
    k = n ∧ a = hash := by
  have hdigits : ∀ c ∈ Nat.toDigits 10 n, c.isDigit = true := fun c hc => isDigit_of_mem_toDigits hc
  have hcolon : ∀ c ∈ ofText (Nat.toDigits 10 n), decide (c ≠ colon) = true := by
    intro c hc
    obtain ⟨d, hd, rfl⟩ := List.mem_map.mp hc
    rw [decide_eq_true_iff]
    intro heq
    rw [Char.toNat_inj.mp (Fin.mk.inj heq)] at hd
    exact absurd (hdigits ':' hd) (by decide)
  have hback : (ofText (Nat.toDigits 10 n)).map (fun c => Char.ofNat c.val) = Nat.toDigits 10 n := by
    rw [ofText, List.map_map]
    exact (List.map_congr_left fun c _ => Char.ofNat_toNat c).trans (List.map_id _)
  have htake : (ofText (Nat.toDigits 10 n) ++ lit ":" ++ hash).takeWhile
      (fun c => decide (c ≠ colon)) = ofText (Nat.toDigits 10 n) := by
    rw [List.append_assoc, List.takeWhile_append_of_pos hcolon]
    exact List.append_nil _
  have hdrop : (ofText (Nat.toDigits 10 n) ++ lit ":" ++ hash).dropWhile
      (fun c => decide (c ≠ colon)) = colon :: hash := by
    rw [List.append_assoc, List.dropWhile_append_of_pos hcolon]
    rfl
  rw [parseAnchor, htake, hdrop, hback] at h
  obtain ⟨m, hm, heq⟩ := Option.bind_eq_some_iff.mp h
  obtain ⟨rfl, rfl⟩ := Prod.mk.inj (Option.some.inj heq)
  exact ⟨by rw [pyInt_digits hdigits hm, Nat.ofDigitChars_ten_toDigits], rfl⟩

/-! ## Anchors -/

/-- The anchor of a file that verifies has the number of its entries and the hash at
their end. -/
theorem getAnchor_eq {genesis genesis' : List CodePoint} {text : List Char}
    {es : List (Members P)} {h : List CodePoint} (hes : entries P text = some es) (hne : es ≠ [])
    (hwalk : (chain P).walk genesis es = some h) : getAnchor P genesis' (some text) =
      some (ofText (Nat.toDigits 10 es.length) ++ lit ":" ++ h) := by
  rw [getAnchor, anchorLines_eq hes hwalk, List.isEmpty_eq_false_iff.mpr hne,
    if_neg Bool.false_ne_true, Option.map_some, Nat.zero_add]
  rfl

/-- Entries that are chained to one hash are equal to those of another file up to the
record with the hash. -/
theorem take_same (hsha : NoCollision P) {genesis h : List CodePoint} {text text' : List Char}
    {es fs : List (Members P)} (hes : entries P text = some es) (hfs : entries P text' = some fs)
    (hne : es ≠ []) (hwalk : (chain P).walk genesis es = some h)
    (hwalk' : ((chain P).walk genesis fs).isSome) (hlen : es.length ≤ fs.length)
    (hdigest : ∀ (j : ℕ) (e : Members P), fs[j]? = some e → (j : ℤ) + 1 = es.length →
      (chain P).digest e = h) :
    List.Forall₂ (fun e f => Same (.obj e) (.obj f)) es (fs.take es.length) := by
  obtain ⟨h', hh'⟩ := Option.isSome_iff_exists.mp hwalk'
  obtain ⟨j, hj⟩ := Nat.exists_eq_add_one_of_ne_zero fun h0 => hne (List.length_eq_zero_iff.mp h0)
  have hlt : j < fs.length := by omega
  have htake := (chain P).walk_take hh' (List.getElem?_eq_getElem hlt)
  rw [hdigest j _ (List.getElem?_eq_getElem hlt) (by rw [hj]; norm_cast), ← hj] at htake
  refine (chain P).commit (fun a ha b hb hhash hhash' hab => same_of_digest hsha
    (nodup_of_mem_entriesOf hes a ha) (nodup_of_mem_entriesOf hfs b (List.mem_of_mem_take hb))
    hhash hhash' hab) ?_ hwalk htake
  rw [List.length_take, min_eq_left hlen]

/-- Under the anchor of a file that verifies another file verifies only with the same
records at its start.  Under any other anchor its count and hash are those of a
record, or of the start, exactly when the count is positive, or zero with the hash
of the start. -/
theorem verifyChain_anchor_iff (hsha : NoCollision P) {genesis : List CodePoint} :
    (∀ {file file' : Option (List Char)} {genesis' anchor : List CodePoint},
      verifyChain P file genesis none = .ok () → getAnchor P genesis' file = some anchor →
      verifyChain P file' genesis (some anchor) = .ok () →
      ∃ text text' es fs, file = some text ∧ file' = some text' ∧ entries P text = some es ∧
        entries P text' = some fs ∧ es.length ≤ fs.length ∧
        List.Forall₂ (fun e f => Same (.obj e) (.obj f)) es (fs.take es.length)) ∧
    (∀ {file : Option (List Char)} {anchor : List CodePoint},
      verifyChain P file genesis (some anchor) = .ok () → ∃ k a text es,
        parseAnchor P.digits anchor = some (k, a) ∧ file = some text ∧ entries P text = some es ∧
        ((1 ≤ k ∧ k ≤ es.length ∧
            (∃ e, es[(k - 1).toNat]? = some e ∧ stringAt P "hash" e = some a) ∨
            k = 0 ∧ a = genesis) ↔
          1 ≤ k ∨ k = 0 ∧ a = genesis)) := by
  constructor
  · intro file file' genesis' anchor hverify hanchor hverify'
    obtain ⟨text, es, rfl, hes, hne, hwalk⟩ := verifyChain_none_iff.mp hverify
    obtain ⟨h, hh⟩ := Option.isSome_iff_exists.mp hwalk
    rw [getAnchor_eq hes hne hh, Option.some.injEq] at hanchor
    obtain ⟨k, a, text', fs, hparse, rfl, hfs, -, hwalk', hle, hdigest⟩ :=
      verifyChain_some_iff.mp hverify'
    rw [← hanchor] at hparse
    obtain ⟨rfl, rfl⟩ := parseAnchor_eq hparse
    have hlen : es.length ≤ fs.length := by exact_mod_cast hle
    exact ⟨text, text', es, fs, rfl, rfl, hes, hfs, hlen,
      take_same hsha hes hfs hne hh hwalk' hlen hdigest⟩
  · intro file anchor hverify
    obtain ⟨k, a, text, es, hparse, rfl, hes, -, hwalk, hle, hdigest⟩ :=
      verifyChain_some_iff.mp hverify
    refine ⟨k, a, text, es, hparse, rfl, hes, ?_⟩
    constructor
    · exact fun h => h.imp_left And.left
    · rintro (hk | hzero)
      · left
        refine ⟨hk, hle, ?_⟩
        have hlt : (k - 1).toNat < es.length := by omega
        have hget := List.getElem?_eq_getElem hlt
        obtain ⟨h, hh⟩ := Option.isSome_iff_exists.mp hwalk
        have hhash := (chain P).hash_of_mem hh (List.getElem_mem hlt)
        rw [hdigest _ _ hget (by omega)] at hhash
        exact ⟨_, hget, hhash⟩
      · exact .inr hzero

theorem digestIn_injective {table : List (List Char × List Char)}
    (hdistinct : (table.map Prod.snd).Nodup) (hhex : ∀ p ∈ table, p.2.head? ≠ some '#') :
    Function.Injective (digestIn table) := by
  intro cs ds h
  rw [digestIn, digestIn] at h
  cases hc : table.find? fun p => p.1 = cs with
  | none =>
      rw [hc] at h
      cases hd : table.find? fun p => p.1 = ds with
      | none =>
          rw [hd] at h
          exact (List.cons.inj h).2
      | some q =>
          rw [hd] at h
          dsimp only at h
          exact absurd (by rw [← h]; rfl) (hhex q (List.mem_of_find?_eq_some hd))
  | some p =>
      have hp := List.mem_of_find?_eq_some hc
      rw [hc] at h
      cases hd : table.find? fun p => p.1 = ds with
      | none =>
          rw [hd] at h
          dsimp only at h
          exact absurd (by rw [h]; rfl) (hhex p hp)
      | some q =>
          rw [hd] at h
          obtain rfl := List.inj_on_of_nodup_map hdistinct hp (List.mem_of_find?_eq_some hd) h
          have hcs : p.1 = cs := by simpa using List.find?_some hc
          have hds : p.1 = ds := by simpa using List.find?_some hd
          rw [← hcs, hds]

theorem noCollision_orders : NoCollision orders :=
  (digestIn_injective (by decide +kernel) (by decide +kernel)).injOn

def buyFile : List Char :=
  "\x7b\"action\": \"BUY\", \"prev_hash\": \"".toList ++ zeros ++ "\", \"hash\": \"".toList ++
    buyDigest ++ "\"\x7d\n".toList

/-- The file with the second order behind it. -/
def ordersFile : List Char :=
  buyFile ++ ("\x7b\"action\": \"SELL\", \"qty\": 2, \"prev_hash\": \"".toList ++ buyDigest ++
    "\", \"hash\": \"".toList ++ sellDigest ++ "\"\x7d\n".toList)

theorem buy_anchor_longer : getAnchor orders genesisHash (some buyFile) =
      some (lit "1:" ++ ofText buyDigest) ∧
    (entries orders ordersFile).map List.length = some 2 ∧
    ∃ text text' es fs, some buyFile = some text ∧ some ordersFile = some text' ∧
      entries orders text = some es ∧ entries orders text' = some fs ∧ es.length ≤ fs.length ∧
      List.Forall₂ (fun e f => Same (.obj e) (.obj f)) es (fs.take es.length) := by
  have hanchor : getAnchor orders genesisHash (some buyFile) =
      some (lit "1:" ++ ofText buyDigest) := by
    decide +kernel
  have hverify : (verifyChain orders (some buyFile) genesisHash none).toOption = some () := by
    decide +kernel
  have hverify' : (verifyChain orders (some ordersFile) genesisHash
      (some (lit "1:" ++ ofText buyDigest))).toOption = some () := by
    decide +kernel
  exact ⟨hanchor, by decide +kernel, (verifyChain_anchor_iff noCollision_orders).1
    (eq_ok_of_toOption hverify) hanchor (eq_ok_of_toOption hverify')⟩

/-- An anchor with the count zero and any hash is accepted, and so is one with a
negative count. -/
theorem buy_anchor_zero :
    verifyChain orders (some buyFile) genesisHash (some (lit "0:deadbeef")) = .ok () ∧
      parseAnchor orders.digits (lit "0:deadbeef") = some (0, lit "deadbeef") ∧
      lit "deadbeef" ≠ genesisHash ∧
    verifyChain orders (some buyFile) genesisHash (some (lit "-1:deadbeef")) = .ok () ∧
      parseAnchor orders.digits (lit "-1:deadbeef") = some (-1, lit "deadbeef") := by
  refine ⟨eq_ok_of_toOption ?_, ?_, ?_, eq_ok_of_toOption ?_, ?_⟩ <;> decide +kernel

end AutonomousAudit
