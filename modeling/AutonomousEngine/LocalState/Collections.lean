import AutonomousEngine.LocalState.Refinement

/-!
# The commands on hashes, lists and streams

They have no expiry, so that Redis finds under a key what the client has in its map
(`Rel.hashAt`, `Rel.listAt`, `Rel.streamAt`).  The bounds of a range are the same on both
sides (`inclusiveSlice_eq_redisRange`).  The ids of a stream ascend, so that the entries
behind an id of the stream are those with a greater one (`entriesAfter_eq`).
-/

namespace LocalState

open Basis

/-! ## Ranges -/

theorem drop_take_congr {α : Type} {xs : List α} {a a' b b' : ℕ}
    (ha : min a xs.length = min a' xs.length) (hb : min b xs.length = min b' xs.length) :
    (xs.take b).drop a = (xs.take b').drop a' := by
  refine List.ext_getElem? fun i => ?_
  rw [List.getElem?_drop, List.getElem?_drop, List.getElem?_take, List.getElem?_take]
  by_cases hlt : a < xs.length
  · have hsame : a' = a := by omega
    subst hsame
    by_cases hi : a' + i < xs.length
    · have hiff : a' + i < b ↔ a' + i < b' := by omega
      simp only [hiff]
    · rw [List.getElem?_eq_none (not_lt.mp hi)]
      simp
  · rw [List.getElem?_eq_none (show xs.length ≤ a + i by omega),
      List.getElem?_eq_none (show xs.length ≤ a' + i by omega)]
    simp

theorem redisRange_eq {α : Type} (xs : List α) (start stop : ℤ) :
    redisRange xs start stop =
      (xs.take ((if stop < 0 then xs.length + stop else stop) + 1).toNat).drop
        (if start < 0 then max 0 (xs.length + start) else start).toNat := by
  have hcount : ((if stop < 0 then xs.length + stop else stop) + 1 -
      if start < 0 then max 0 (xs.length + start) else start).toNat =
      ((if stop < 0 then xs.length + stop else stop) + 1).toNat -
        (if start < 0 then max 0 (xs.length + start) else start).toNat := by
    split <;> split <;> omega
  rw [List.drop_take, ← hcount]
  rfl

/-- Python's slice with its end moved by one is the range of Redis. -/
theorem inclusiveSlice_eq_redisRange {α : Type} (xs : List α) (start stop : ℤ) :
    inclusiveSlice xs start stop = redisRange xs start stop := by
  rw [redisRange_eq]
  unfold inclusiveSlice slice
  split
  next h =>
    have hall : xs.drop (clampIndex xs.length start) =
        (xs.take xs.length).drop (clampIndex xs.length start) := by rw [List.take_length]
    rw [hall]
    subst h
    refine drop_take_congr ?_ ?_
    · unfold clampIndex
      split <;> split <;> omega
    · rw [if_pos (by omega)]
      omega
  next h =>
    refine drop_take_congr ?_ ?_
    · unfold clampIndex
      split <;> split <;> omega
    · unfold clampIndex
      split <;> split <;> omega

/-! ## Ids -/

theorem StreamId.lt_irrefl (a : StreamId) : ¬a.lt a := by
  unfold StreamId.lt
  omega

theorem StreamId.lt_asymm {a b : StreamId} (h : a.lt b) : ¬b.lt a := by
  unfold StreamId.lt at *
  omega

/-- In ascending entries with an id, what follows it is what has a greater one. -/
theorem dropWhile_eq_filter {id : StreamId} {entries : List (StreamId × Fields)}
    (hsorted : entries.Pairwise fun a b => a.1.lt b.1) (hmem : ∃ e ∈ entries, e.1 = id) :
    (entries.dropWhile fun e => e.1 ≠ id).drop 1 = entries.filter fun e => id.lt e.1 := by
  induction entries with
  | nil => simp at hmem
  | cons e entries ih =>
      obtain ⟨hfirst, hrest⟩ := List.pairwise_cons.mp hsorted
      by_cases he : e.1 = id
      · have hall : entries.filter (fun e => decide (id.lt e.1)) = entries :=
          List.filter_eq_self.mpr fun e' he' => decide_eq_true (he ▸ hfirst e' he')
        rw [List.dropWhile_cons_of_neg (by simpa using he), List.filter_cons_of_neg, hall]
        · rfl
        · rw [he, decide_eq_true_eq]
          exact id.lt_irrefl
      · obtain ⟨e', he', rfl⟩ := hmem
        have hlater : e' ∈ entries := (List.mem_cons.mp he').resolve_left fun h => he (h ▸ rfl)
        rw [List.dropWhile_cons_of_pos (by simpa using he), List.filter_cons_of_neg,
          ih hrest ⟨e', hlater, rfl⟩]
        rw [decide_eq_true_eq]
        exact StreamId.lt_asymm (hfirst e' hlater)

theorem entriesAfter_eq {id : StreamId} {entries : List (StreamId × Fields)} {count : ℕ}
    (hcount : 0 < count) (hsorted : entries.Pairwise fun a b => a.1.lt b.1)
    (hid : (∃ e ∈ entries, e.1 = id) ∨ ∀ e ∈ entries, ¬id.lt e.1) :
    Client.entriesAfter count id entries = (entries.filter fun e => id.lt e.1).take count := by
  unfold Client.entriesAfter
  rw [max_eq_left hcount]
  by_cases hmem : ∃ e ∈ entries, e.1 = id
  · rw [dropWhile_eq_filter hsorted hmem]
  · have hnone : entries.dropWhile (fun e => decide (e.1 ≠ id)) = [] :=
      List.dropWhile_eq_nil_iff.mpr fun e he => decide_eq_true fun h => hmem ⟨e, he, h⟩
    have hlater : entries.filter (fun e => decide (id.lt e.1)) = [] :=
      List.filter_eq_nil_iff.mpr fun e he => by
        rw [decide_eq_true_eq]
        exact hid.resolve_left hmem e he
    rw [hnone, hlater]
    rfl

/-! ## What Redis finds -/

section

variable {kind : String → Kind} {now : ℚ} {c c' : Client} {r r' : Redis} {key : String}

theorem live_permanent (v : Value) : live now (some ⟨v, none⟩) = some ⟨v, none⟩ := by
  rw [live_some]
  rfl

/-- A value with no expiry that is there unless it is empty. -/
theorem live_unless (empty : Prop) [Decidable empty] (v : Value) :
    live now (if empty then none else some ⟨v, none⟩) = if empty then none else some ⟨v, none⟩ := by
  split
  next => rfl
  next => exact live_permanent v

theorem Rel.lookup_hash (hr : Rel kind now c r) (hk : kind key = .hash) :
    r.lookup now key =
      if (c.hash key).entries = [] then none else some ⟨.hash (c.hash key), none⟩ := by
  rw [← hr.agree]
  simp only [Client.image, hk]
  exact live_unless _ _

theorem Rel.lookup_list (hr : Rel kind now c r) (hk : kind key = .list) :
    r.lookup now key = if c.lists key = [] then none else some ⟨.list (c.lists key), none⟩ := by
  rw [← hr.agree]
  simp only [Client.image, hk]
  exact live_unless _ _

theorem Rel.lookup_stream (hr : Rel kind now c r) (hk : kind key = .stream) :
    r.lookup now key =
      if c.streams key = [] then none else some ⟨.stream (c.streams key), none⟩ := by
  rw [← hr.agree]
  simp only [Client.image, hk]
  exact live_unless _ _

theorem Rel.hashAt (hr : Rel kind now c r) (hk : kind key = .hash) :
    r.hashAt now key = some (c.hash key) := by
  unfold Redis.hashAt
  rw [hr.lookup_hash hk]
  obtain ⟨entries, nodup⟩ := c.hash key
  cases entries with
  | nil => rfl
  | cons e entries => rfl

theorem Rel.listAt (hr : Rel kind now c r) (hk : kind key = .list) :
    r.listAt now key = some (c.lists key) := by
  unfold Redis.listAt
  rw [hr.lookup_list hk]
  cases c.lists key with
  | nil => rfl
  | cons x xs => rfl

theorem Rel.streamAt (hr : Rel kind now c r) (hk : kind key = .stream) :
    r.streamAt now key = some (c.streams key) := by
  unfold Redis.streamAt
  rw [hr.lookup_stream hk]
  cases c.streams key with
  | nil => rfl
  | cons e es => rfl

/-- Without an expiry before, there is none after. -/
theorem Redis.lookup_modify {v : Value}
    (h : (r.lookup now key).bind Entry.expires = none) :
    (r.modify now key v).lookup now key = some ⟨v, none⟩ := by
  unfold Redis.modify
  rw [Redis.lookup, Function.update_self, h]
  exact live_permanent v

theorem image_congr (hstore : c'.store = c.store) (hexp : c'.expiries = c.expiries)
    (hhash : c'.hash key = c.hash key) (hlists : c'.lists key = c.lists key)
    (hstreams : c'.streams key = c.streams key) : c'.image kind key = c.image kind key := by
  simp only [Client.image, hstore, hexp, hhash, hlists, hstreams]

/-- A value of another type than text changes on both sides in the same way. -/
theorem Rel.collection (key : String) (hr : Rel kind now c r) (hstore : c'.store = c.store)
    (hexp : c'.expiries = c.expiries) (himage : ∀ k, k ≠ key → c'.image kind k = c.image kind k)
    (hframe : ∀ k, k ≠ key → r' k = r k)
    (hat : live now (c'.image kind key) = r'.lookup now key)
    (hsorted : ∀ k, (c'.streams k).Pairwise fun a b => a.1.lt b.1)
    (hids : ∀ k, ∀ e ∈ c'.streams k, e.1.ms ≤ ⌊now⌋ ∧ e.1.seq < (c'.streams k).length) :
    Rel kind now c' r' where
  agree := by
    intro k
    by_cases hkey : k = key
    · rw [hkey, hat]
    · rw [himage k hkey, hr.agree, Redis.lookup, Redis.lookup, hframe k hkey]
  texts := by
    rw [hstore]
    exact hr.texts
  expiries := by
    rw [hstore, hexp]
    exact hr.expiries
  sorted := hsorted
  ids := hids

/-! ## Hashes -/

theorem hset_step {field value : String} (hr : Rel kind now c r) (hk : kind key = .hash) :
    Rel kind now (c.hset key field value).1
        (r.modify now key (.hash ((c.hash key).set field value))) ∧
      Redis.Step now r (.hset key field value) (.number (c.hset key field value).2)
        (r.modify now key (.hash ((c.hash key).set field value))) := by
  refine ⟨?_, c.hash key, hr.hashAt hk, rfl, rfl⟩
  have hperm : (r.lookup now key).bind Entry.expires = none := by
    rw [hr.lookup_hash hk]
    split <;> rfl
  have hne : ((c.hash key).set field value).entries ≠ [] := by
    intro hnil
    have hmem := Dict.mem_entries_iff.mpr
      ((Dict.get?_set (c.hash key) field field value).trans (if_pos rfl))
    rw [hnil] at hmem
    cases hmem
  refine hr.collection key rfl rfl (fun k hkey => ?_) (fun k hkey => Function.update_of_ne hkey _ _)
    ?_ hr.sorted hr.ids
  · exact image_congr rfl rfl (Function.update_of_ne hkey _ _) rfl rfl
  · rw [Redis.lookup_modify hperm]
    simp only [Client.image, hk, Client.hset, Function.update_self, if_neg hne]
    exact live_permanent _

/-! ## Lists -/

/-- A list is put under its key. -/
theorem Rel.putList (hr : Rel kind now c r) (hk : kind key = .list) (xs : List String) :
    Rel kind now { c with lists := Function.update c.lists key xs } (r.putList now key xs) := by
  have hperm : (r.lookup now key).bind Entry.expires = none := by
    rw [hr.lookup_list hk]
    split <;> rfl
  refine hr.collection key rfl rfl (fun k hkey => ?_) (fun k hkey => ?_) ?_
    hr.sorted hr.ids
  · exact image_congr rfl rfl rfl (Function.update_of_ne hkey _ _) rfl
  · unfold Redis.putList Redis.modify
    split <;> exact Function.update_of_ne hkey _ _
  · simp only [Client.image, hk, Function.update_self]
    unfold Redis.putList
    split
    next => rw [Redis.lookup, Function.update_self]
    next => rw [Redis.lookup_modify hperm, live_permanent]

theorem batched_step (b : PipelineCommand) (hr : Rel kind now c r) (hb : b.Uses kind) :
    ∃ r', Rel kind now (c.batched b).1 r' ∧ Redis.Batched now r b (c.batched b).2 r' := by
  cases b with
  | rpush key values =>
      obtain ⟨hk, hne⟩ := hb
      exact ⟨_, hr.putList hk _, c.lists key, hr.listAt hk, hne, rfl, rfl⟩
  | ltrim key start stop =>
      refine ⟨_, hr.putList hb _, c.lists key, hr.listAt hb, rfl, ?_⟩
      rw [inclusiveSlice_eq_redisRange]

theorem pipeline_step (commands : List PipelineCommand) (hr : Rel kind now c r)
    (h : ∀ b ∈ commands, b.Uses kind) :
    ∃ r', Rel kind now (feed Client.batched c commands).1 r' ∧
      Redis.Pipeline now r commands (feed Client.batched c commands).2 r' := by
  induction commands generalizing c r with
  | nil => exact ⟨r, hr, rfl, rfl⟩
  | cons b commands ih =>
      obtain ⟨r₁, hr₁, hb⟩ := batched_step b hr (h b List.mem_cons_self)
      obtain ⟨r', hr', hrest⟩ := ih hr₁ fun b' hb' => h b' (List.mem_cons_of_mem b hb')
      exact ⟨r', hr', _, r₁, _, hb, rfl, hrest⟩

/-! ## Streams -/

theorem newId_greater (hr : Rel kind now c r) : ∀ e ∈ c.streams key, e.1.lt (c.newId now key) := by
  intro e he
  obtain ⟨hms, hseq⟩ := hr.ids key e he
  rcases lt_or_eq_of_le hms with hlt | heq
  · exact .inl hlt
  · exact .inr ⟨heq, hseq⟩

theorem xadd_step {fields : Fields} (hr : Rel kind now c r) (hk : kind key = .stream) :
    ∃ r', Rel kind now (c.xadd now key fields).1 r' ∧
      Redis.Step now r (.xadd key fields) (.streamId (c.xadd now key fields).2) r' := by
  refine ⟨_, ?_, c.streams key, c.newId now key, hr.streamAt hk, newId_greater hr, rfl, rfl⟩
  have hperm : (r.lookup now key).bind Entry.expires = none := by
    rw [hr.lookup_stream hk]
    split <;> rfl
  have hne : c.streams key ++ [(c.newId now key, fields)] ≠ [] := by simp
  refine hr.collection key rfl rfl (fun k hkey => ?_)
    (fun k hkey => Function.update_of_ne hkey _ _) ?_ (fun k => ?_) (fun k => ?_)
  · exact image_congr rfl rfl rfl rfl (Function.update_of_ne hkey _ _)
  · rw [Redis.lookup_modify hperm]
    simp only [Client.image, hk, Client.xadd, Function.update_self, if_neg hne]
    exact live_permanent _
  · simp only [Client.xadd, Function.update_apply]
    split
    next hkey =>
      rw [List.pairwise_append]
      refine ⟨hr.sorted key, List.pairwise_singleton _ _, fun e he e' he' => ?_⟩
      rw [List.mem_singleton.mp he']
      exact newId_greater hr e he
    next => exact hr.sorted k
  · simp only [Client.xadd, Function.update_apply]
    split
    next hkey =>
      intro e he
      rw [List.length_append]
      rcases List.mem_append.mp he with hold | hnew
      · obtain ⟨hms, hseq⟩ := hr.ids key e hold
        exact ⟨hms, Nat.lt_succ_of_lt hseq⟩
      · rw [List.mem_singleton.mp hnew]
        exact ⟨le_rfl, Nat.lt_succ_self _⟩
    next => exact hr.ids k

theorem newEntries_eq {count : ℕ} {p : String × LastId} (hr : Rel kind now c r)
    (hcount : 0 < count)
    (hid : ∀ id, p.2 = .id id →
      (∃ e ∈ c.streams p.1, e.1 = id) ∨ ∀ e ∈ c.streams p.1, ¬id.lt e.1) :
    c.newEntries count p = readEntries count p.2 (c.streams p.1) := by
  unfold Client.newEntries readEntries
  obtain ⟨stream, last⟩ := p
  cases last with
  | dollar => rfl
  | zero => rfl
  | id id => exact entriesAfter_eq hcount (hr.sorted stream) (hid id rfl)

theorem xread_step {streams : List (String × LastId)} {count : ℕ} (hr : Rel kind now c r)
    (huses : (Command.xread streams count).Uses kind)
    (h : Agrees c (now, .xread streams count)) :
    Redis.Step now r (.xread streams count) (.entries (c.xread streams count)) r := by
  obtain ⟨hk, hcount⟩ := huses
  refine ⟨hcount, fun p hp => by rw [hr.streamAt (hk p hp)]; rfl, ?_, rfl⟩
  unfold Client.xread
  have hmap : streams.map (fun p => (p.1, c.newEntries count p)) = streams.map fun p =>
      (p.1, readEntries count p.2 ((r.streamAt now p.1).getD [])) :=
    List.map_congr_left fun p hp => by
      rw [newEntries_eq hr hcount (h p hp), hr.streamAt (hk p hp), Option.getD_some]
  rw [hmap]

end

end LocalState
