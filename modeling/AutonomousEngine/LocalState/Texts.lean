import AutonomousEngine.LocalState.Refinement
import Mathlib.Data.List.Dedup

/-!
# The commands on texts

Every command here changes the entry of some keys and leaves the others (`OnlyText`),
so that the relation is checked at these keys alone (`Rel.text`).
-/

namespace LocalState

open Basis

/-- A client that differs from another in the text of one key. -/
structure OnlyText (key : String) (c c' : Client) : Prop where
  texts : ∀ k, k ≠ key → c'.store.get? k = c.store.get? k ∧ c'.expiries k = c.expiries k
  lists : c'.lists = c.lists
  hash : c'.hash = c.hash
  streams : c'.streams = c.streams

section

variable {kind : String → Kind} {now : ℚ} {c c' : Client} {r r' : Redis} {key : String}

theorem image_of_text (h : kind key = .text) :
    c.image kind key = (c.store.get? key).map fun v => ⟨.text v, c.expiries key⟩ := by
  simp only [Client.image, h]

/-- A text changes on both sides in the same way. -/
theorem Rel.text (hr : Rel kind now c r) (h : OnlyText key c c') (hk : kind key = .text)
    (hframe : ∀ k, k ≠ key → r' k = r k)
    (hat : live now ((c'.store.get? key).map fun v => ⟨.text v, c'.expiries key⟩) =
      r'.lookup now key)
    (hexp : c'.store.get? key = none → c'.expiries key = none) : Rel kind now c' r' where
  agree := by
    intro k
    by_cases hkey : k = key
    · subst hkey
      rw [image_of_text hk, hat]
    · have himage : c'.image kind k = c.image kind k := by
        simp only [Client.image, h.lists, h.hash, h.streams, (h.texts k hkey).1,
          (h.texts k hkey).2]
      rw [himage, hr.agree, Redis.lookup, Redis.lookup, hframe k hkey]
  texts := by
    intro k hne
    have hkey : k ≠ key := by
      rintro rfl
      exact hne hk
    rw [(h.texts k hkey).1]
    exact hr.texts k hne
  expiries := by
    intro k hnone
    by_cases hkey : k = key
    · subst hkey
      exact hexp hnone
    · rw [(h.texts k hkey).2]
      exact hr.expiries k ((h.texts k hkey).1 ▸ hnone)
  sorted := by
    rw [h.streams]
    exact hr.sorted
  ids := by
    rw [h.streams]
    exact hr.ids

/-- What Redis finds under the key of a text that has not expired. -/
theorem Rel.lookup_text (hr : Rel kind now c r) (hk : kind key = .text)
    (h : c.expired now key = false) :
    r.lookup now key = (c.store.get? key).map fun v => ⟨.text v, c.expiries key⟩ := by
  rw [← hr.agree, image_of_text hk]
  cases c.store.get? key with
  | none => rfl
  | some v =>
      rw [Option.map_some, live_text, h]
      rfl

theorem expired_of_evicted
    (h : c'.expiries key = if c.expired now key = true then none else c.expiries key) :
    c'.expired now key = false := by
  unfold Client.expired
  rw [h]
  split
  next => rfl
  next hexp => exact Bool.eq_false_of_not_eq_true hexp

theorem expired_evictExpired (c : Client) (now : ℚ) (key : String) :
    (c.evictExpired now key).expired now key = false :=
  expired_of_evicted (c := c) (by simp only [evictExpired_expiries, true_and])

theorem expired_evictAll (c : Client) (now : ℚ) (key : String) :
    (c.evictAll now).expired now key = false :=
  expired_of_evicted (c := c) rfl

theorem Rel.lookup_evicted (hr : Rel kind now c r) (hk : kind key = .text) :
    r.lookup now key = ((c.evictExpired now key).store.get? key).map fun v =>
      ⟨.text v, (c.evictExpired now key).expiries key⟩ :=
  (hr.evict (evictExpired_evicted key)).lookup_text hk (expired_evictExpired c now key)

/-! ## Get and set -/

theorem textAt_of_lookup {o : Option String} {e : Option ℚ}
    (h : r.lookup now key = o.map fun v => ⟨.text v, e⟩) : r.textAt now key = some o := by
  unfold Redis.textAt
  rw [h]
  cases o <;> rfl

theorem get_step (hr : Rel kind now c r) (hk : kind key = .text) :
    Rel kind now (c.get now key).1 r ∧
      Redis.Step now r (.get key) (.value (c.get now key).2) r :=
  ⟨hr.evict (evictExpired_evicted key), _, textAt_of_lookup (hr.lookup_evicted hk), rfl, rfl⟩

/-- The expiry of a text after it is set is that of Redis, unless an older one stays. -/
theorem setExpiry_key {px : Option ℤ} (hpx : ∀ p, px = some p → 0 < p)
    (h : px = none → c.expiries key = none) :
    c.setExpiry now key px key = px.map fun px : ℤ => now + px := by
  cases px with
  | none => exact h rfl
  | some p =>
      have hp : p ≠ 0 := (hpx p rfl).ne'
      simp only [Client.setExpiry, if_neg hp, Function.update_self, Option.map_some]

theorem setExpiry_of_ne {px : Option ℤ} {k : String} (h : k ≠ key) :
    c.setExpiry now key px k = c.expiries k := by
  cases px with
  | none => rfl
  | some p =>
      simp only [Client.setExpiry]
      split
      next => rfl
      next => rw [Function.update_of_ne h]

theorem set_step {value : String} {px : Option ℤ} {nx : Bool} (hr : Rel kind now c r)
    (huses : (Command.set key value px nx).Uses kind) (h : Agrees c (now, .set key value px nx)) :
    ∃ r', Rel kind now (c.set now key value px nx).1 r' ∧
      Redis.Step now r (.set key value px nx) (.done (c.set now key value px nx).2) r' := by
  obtain ⟨hk, hpx⟩ := huses
  have hevict := hr.evict (evictExpired_evicted key)
  have hlookup := hr.lookup_evicted hk
  have hthere : (r.lookup now key).isSome = true ↔
      (c.evictExpired now key).store.get? key ≠ none := by
    rw [hlookup, Option.isSome_map, ← Option.isSome_iff_ne_none]
  unfold Client.set
  by_cases hnx : nx = true ∧ (c.evictExpired now key).store.get? key ≠ none
  · rw [if_pos hnx]
    refine ⟨r, hevict, ?_⟩
    simp only [Redis.Step]
    rw [if_pos ⟨hnx.1, hthere.mpr hnx.2⟩]
    trivial
  · rw [if_neg hnx]
    refine ⟨Function.update r key (some ⟨.text value, px.map fun px : ℤ => now + px⟩), ?_, ?_⟩
    · have hold : px = none → (c.evictExpired now key).expiries key = none := fun hnone =>
        (h hnone).resolve_left hnx
      refine hevict.text ⟨fun k hne => ⟨?_, setExpiry_of_ne hne⟩, rfl, rfl, rfl⟩ hk
        (fun k hne => Function.update_of_ne hne _ _) ?_ ?_
      · rw [Dict.get?_set, if_neg (Ne.symm hne)]
      · simp only [Dict.get?_set, if_pos, Redis.lookup, Function.update_self, Option.map_some,
          setExpiry_key hpx hold]
      · intro hnone
        rw [Dict.get?_set, if_pos rfl] at hnone
        cases hnone
    · simp only [Redis.Step]
      rw [if_neg fun hsome => hnx ⟨hsome.1, hthere.mp hsome.2⟩]
      trivial

/-! ## Pexpire -/

theorem pexpire_step {timeMs : ℤ} (hr : Rel kind now c r)
    (h : Agrees c (now, .pexpire key timeMs)) :
    ∃ r', Rel kind now (c.pexpire now key timeMs).1 r' ∧
      Redis.Step now r (.pexpire key timeMs) (.done (c.pexpire now key timeMs).2) r' := by
  obtain ⟨htime, hother⟩ := h
  have hevict := hr.evict (evictExpired_evicted key)
  unfold Client.pexpire
  by_cases hnone : (c.evictExpired now key).store.get? key = none
  · rw [if_pos hnone]
    refine ⟨r, hevict, ?_⟩
    have hlookup : r.lookup now key = none := by
      by_cases hk : kind key = .text
      · rw [hr.lookup_evicted hk, hnone]
        rfl
      · rw [← hr.agree, image_of_ne_text hk hother]
        rfl
    simp only [Redis.Step, hlookup]
    trivial
  · rw [if_neg hnone]
    have hk : kind key = .text := by
      by_contra hk
      exact hnone (hevict.texts key hk)
    obtain ⟨v, hv⟩ := Option.ne_none_iff_exists'.mp hnone
    have hlookup := hr.lookup_evicted hk
    rw [hv, Option.map_some] at hlookup
    refine ⟨Function.update r key (if 0 < timeMs then some ⟨.text v, some (now + timeMs)⟩ else none),
      ?_, ?_⟩
    · refine hevict.text ⟨fun k hne => ⟨rfl, Function.update_of_ne hne _ _⟩, rfl, rfl, rfl⟩ hk
        (fun k hne => Function.update_of_ne hne _ _) ?_ (fun h => absurd h hnone)
      simp only [hv, Option.map_some, Function.update_self, Redis.lookup]
      split
      next => rfl
      next hpos =>
        have hneg : timeMs < 0 := lt_of_le_of_ne (not_lt.mp hpos) (htime hnone)
        have hq : now + (timeMs : ℚ) < now := by
          have : (timeMs : ℚ) < 0 := Int.cast_lt_zero.mpr hneg
          linarith
        rw [live_some, if_neg]
        · rfl
        · simpa [Entry.liveAt] using hneg
    · simp only [Redis.Step, hlookup]
      trivial

/-! ## Delete -/

theorem Rel.lookup_isSome (hr : Rel kind now c r) (hexp : c.expired now key = false)
    (hother : ¬c.otherKey key) :
    (r.lookup now key).isSome = (c.store.get? key).isSome := by
  by_cases hk : kind key = .text
  · rw [hr.lookup_text hk hexp, Option.isSome_map]
  · rw [← hr.agree, image_of_ne_text hk hother, hr.texts key hk]
    rfl

/-- What is not there may be forgotten. -/
theorem Rel.forget (hr : Rel kind now c r) (h : r.lookup now key = none) :
    Rel kind now c (Function.update r key none) where
  agree := by
    intro k
    by_cases hk : k = key
    · subst hk
      rw [hr.agree, h, Redis.lookup, Function.update_self]
      rfl
    · rw [hr.agree, Redis.lookup, Redis.lookup, Function.update_of_ne hk]
  texts := hr.texts
  expiries := hr.expiries
  sorted := hr.sorted
  ids := hr.ids

theorem deleteKey_step (hr : Rel kind now c r) (hexp : c.expired now key = false)
    (hother : ¬c.otherKey key) :
    Rel kind now (c.deleteKey key).1 (Function.update r key none) ∧
      (c.deleteKey key).2 = if (r.lookup now key).isSome then 1 else 0 := by
  have hsome := hr.lookup_isSome hexp hother
  unfold Client.deleteKey
  cases hget : c.store.get? key with
  | none =>
      rw [hget] at hsome
      rw [if_neg (not_not_intro rfl), hsome]
      exact ⟨hr.forget (Option.not_isSome_iff_eq_none.mp (by rw [hsome]; exact Bool.false_ne_true)),
        rfl⟩
  | some v =>
      have hk : kind key = .text := by
        by_contra hk
        rw [hr.texts key hk] at hget
        cases hget
      rw [hget] at hsome
      rw [if_pos (Option.some_ne_none v), hsome]
      refine ⟨hr.text ⟨fun k hne => ⟨?_, Function.update_of_ne hne _ _⟩, rfl, rfl, rfl⟩ hk
        (fun k hne => Function.update_of_ne hne _ _) ?_ (fun _ => Function.update_self _ _ _), rfl⟩
      · rw [Dict.get?_erase, if_neg (Ne.symm hne)]
      · rw [Dict.get?_erase, if_pos rfl, Redis.lookup, Function.update_self]
        rfl

@[simp] theorem deleteKey_otherKey (k : String) :
    (c.deleteKey key).1.otherKey k ↔ c.otherKey k := by
  unfold Client.deleteKey
  split <;> rfl

theorem deleteKey_expired {k : String} (h : c.expired now k = false) :
    (c.deleteKey key).1.expired now k = false := by
  unfold Client.deleteKey
  split
  next =>
    simp only [Client.expired, Function.update_apply]
    split
    next => rfl
    next => exact h
  next => exact h

/-- Keys that are counted once each are counted one after the other. -/
theorem countP_dedup_cons (p : String → Bool) (key : String) (keys : List String) :
    (key :: keys).dedup.countP p =
      (if p key then 1 else 0) + keys.dedup.countP fun k => decide (k ≠ key) && p k := by
  by_cases hmem : key ∈ keys
  · have hperm := List.perm_cons_erase (List.mem_dedup.mpr hmem)
    have hrest : (keys.dedup.erase key).countP (fun k => decide (k ≠ key) && p k) =
        (keys.dedup.erase key).countP p := by
      refine List.countP_congr fun k hk => ?_
      simp [((List.nodup_dedup keys).mem_erase_iff.mp hk).1]
    rw [List.dedup_cons_of_mem hmem, hperm.countP_eq, hperm.countP_eq, List.countP_cons,
      List.countP_cons, hrest]
    simp [add_comm]
  · have hrest : keys.dedup.countP (fun k => decide (k ≠ key) && p k) = keys.dedup.countP p := by
      refine List.countP_congr fun k hk => ?_
      have hne : k ≠ key := by
        rintro rfl
        exact hmem (List.mem_dedup.mp hk)
      simp [hne]
    rw [List.dedup_cons_of_notMem hmem, List.countP_cons, hrest, add_comm]

theorem delete_step (keys : List String) (hr : Rel kind now c r)
    (h : ∀ k ∈ keys, c.expired now k = false ∧ ¬c.otherKey k) :
    Rel kind now (Client.delete keys c).1 (fun k => if k ∈ keys then none else r k) ∧
      (Client.delete keys c).2 = keys.dedup.countP fun k => (r.lookup now k).isSome := by
  induction keys generalizing c r with
  | nil => exact ⟨hr, rfl⟩
  | cons key keys ih =>
      obtain ⟨hexp, hother⟩ := h key List.mem_cons_self
      obtain ⟨hkey, hone⟩ := deleteKey_step hr hexp hother
      obtain ⟨hrest, hcount⟩ := ih hkey fun k hk =>
        ⟨deleteKey_expired (h k (List.mem_cons_of_mem _ hk)).1,
          fun hk' => (h k (List.mem_cons_of_mem _ hk)).2 ((deleteKey_otherKey k).mp hk')⟩
      constructor
      · have heq : (fun k => if k ∈ key :: keys then none else r k) =
            fun k => if k ∈ keys then none else Function.update r key none k := by
          funext k
          by_cases hk : k = key
          · simp [hk]
          · simp [hk]
        rw [heq]
        exact hrest
      · rw [Client.delete, hone, hcount, countP_dedup_cons]
        refine congrArg _ (List.countP_congr fun k _ => ?_)
        by_cases hk : k = key
        · simp [hk, Redis.lookup, live]
        · simp [hk, Redis.lookup]

/-! ## Keys -/

theorem keys_step {pattern : String} (hr : Rel kind now c r) (h : Agrees c (now, .keys pattern)) :
    Rel kind now (c.keys now pattern).1 r ∧
      Redis.Step now r (.keys pattern) (.names (c.keys now pattern).2) r := by
  have hevict : Rel kind now (c.evictAll now) r := hr.evict evictAll_evicted
  obtain ⟨htext, hother⟩ := h
  refine ⟨hevict, rfl, _, rfl, (c.evictAll now).store.nodup.sublist
    (List.filter_sublist (p := fun k => fnmatchcase k pattern)), ?_⟩
  intro k
  have hmem : k ∈ (c.keys now pattern).2 ↔
      (c.evictAll now).store.get? k ≠ none ∧ fnmatchcase k pattern = true := by
    rw [Ne, Dict.get?_eq_none_iff, not_not]
    exact List.mem_filter
  have hfits := htext k
  rw [hmem]
  by_cases hk : c.otherKey k
  · have hno := hother k hk
    rw [hno]
    constructor
    · rintro ⟨hthere, hmatch⟩
      rw [hfits hthere, hno] at hmatch
      cases hmatch
    · rintro ⟨-, hmatch⟩
      cases hmatch
  · rw [hevict.lookup_isSome (expired_evictAll c now k) hk, Option.isSome_iff_ne_none]
    exact and_congr_right fun hthere => by rw [hfits hthere]

end

end LocalState
