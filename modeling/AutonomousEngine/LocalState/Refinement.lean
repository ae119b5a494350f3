import AutonomousEngine.LocalState.Redis

/-!
# Where the client does what Redis does

The maps of the client are read as a Redis in which every key has the type it is used
with (`image`).  The relation `Rel` says that at a time both have the same live
entries.  It outlives the clock (`Rel.mono`), and eviction does not disturb it
(`Rel.evict`).  Every command keeps it and has a reply of Redis, as long as it does not
meet one of the differences that `Agrees` leaves out: a text that is set without a time
keeps the expiry of the one before it, an expired text is counted when it is deleted,
and keys of the other types are not seen by `delete`, `keys` and `pexpire`.
-/

namespace LocalState

open Basis

/-- The type that a key is used with. -/
inductive Kind where
  | text
  | hash
  | list
  | stream
deriving DecidableEq, Repr

namespace Client

variable (kind : String → Kind) (c : Client)

def image (key : String) : Option Entry :=
  match kind key with
  | .text => (c.store.get? key).map fun v => ⟨.text v, c.expiries key⟩
  | .hash => if (c.hash key).entries = [] then none else some ⟨.hash (c.hash key), none⟩
  | .list => if c.lists key = [] then none else some ⟨.list (c.lists key), none⟩
  | .stream => if c.streams key = [] then none else some ⟨.stream (c.streams key), none⟩

/-- A key that holds something other than a text. -/
def otherKey (key : String) : Prop :=
  (c.hash key).entries ≠ [] ∨ c.lists key ≠ [] ∨ c.streams key ≠ []

end Client

/-! ## Commands that use every key with its type -/

/-- A batched command uses its key as a list and pushes something. -/
def PipelineCommand.Uses (kind : String → Kind) : PipelineCommand → Prop
  | .rpush key values => kind key = .list ∧ values ≠ []
  | .ltrim key _ _ => kind key = .list

/-- A command uses its keys with their types, sets positive times, pushes something and
reads a positive number of entries. -/
def Command.Uses (kind : String → Kind) : Command → Prop
  | .get key => kind key = .text
  | .set key _ px _ => kind key = .text ∧ ∀ p, px = some p → 0 < p
  | .delete _ => True
  | .keys _ => True
  | .pexpire _ _ => True
  | .hset name _ _ => kind name = .hash
  | .hget name _ => kind name = .hash
  | .rpush key values => kind key = .list ∧ values ≠ []
  | .ltrim key _ _ => kind key = .list
  | .lrange key _ _ => kind key = .list
  | .xadd stream _ => kind stream = .stream
  | .xread streams count => (∀ p ∈ streams, kind p.1 = .stream) ∧ 0 < count
  | .pipeline commands => ∀ b ∈ commands, b.Uses kind

/-- The state and the command do not meet a difference. -/
def Agrees (c : Client) (i : ℚ × Command) : Prop :=
  match i.2 with
  | .set key _ px nx =>
      px = none → (nx = true ∧ (c.evictExpired i.1 key).store.get? key ≠ none) ∨
        (c.evictExpired i.1 key).expiries key = none
  | .delete keys => ∀ k ∈ keys, c.expired i.1 k = false ∧ ¬c.otherKey k
  | .keys pattern =>
      (∀ k, (c.evictAll i.1).store.get? k ≠ none → fnmatchcase k pattern = redisGlob k pattern) ∧
        ∀ k, c.otherKey k → redisGlob k pattern = false
  | .pexpire key timeMs =>
      ((c.evictExpired i.1 key).store.get? key ≠ none → timeMs ≠ 0) ∧ ¬c.otherKey key
  | .xread streams _ =>
      ∀ p ∈ streams, ∀ id, p.2 = .id id →
        (∃ e ∈ c.streams p.1, e.1 = id) ∨ ∀ e ∈ c.streams p.1, ¬id.lt e.1
  | _ => True

/-! ## The relation -/

/-- At a time the client and Redis have the same live entries, and the maps of the
client fit together. -/
structure Rel (kind : String → Kind) (now : ℚ) (c : Client) (r : Redis) : Prop where
  agree : ∀ key, live now (c.image kind key) = r.lookup now key
  texts : ∀ key, kind key ≠ .text → c.store.get? key = none
  expiries : ∀ key, c.store.get? key = none → c.expiries key = none
  sorted : ∀ key, (c.streams key).Pairwise fun a b => a.1.lt b.1
  ids : ∀ key, ∀ e ∈ c.streams key, e.1.ms ≤ ⌊now⌋ ∧ e.1.seq < (c.streams key).length

section

variable {kind : String → Kind} {now now' : ℚ} {c : Client} {r : Redis} {key : String}

theorem live_some (e : Entry) : live now (some e) = if e.liveAt now then some e else none := by
  simp [live, Option.filter]

theorem live_live (h : now ≤ now') (e : Option Entry) : live now' (live now e) = live now' e := by
  cases e with
  | none => rfl
  | some e =>
      rw [live_some]
      split
      next => rfl
      next hnow =>
        have hnow' : ¬e.liveAt now' = true := by
          obtain ⟨v, expires⟩ := e
          cases expires with
          | none => simp [Entry.liveAt] at hnow
          | some exp =>
              simp only [Entry.liveAt, Option.all_some, decide_eq_true_eq, not_le] at *
              exact hnow.trans_le h
        rw [live_some, if_neg hnow']
        rfl

/-- What is there of a text. -/
theorem live_text (v : Value) :
    live now (some ⟨v, c.expiries key⟩) =
      if c.expired now key then none else some ⟨v, c.expiries key⟩ := by
  rw [live_some]
  unfold Client.expired Entry.liveAt
  cases c.expiries key with
  | none => rfl
  | some exp =>
      simp only [Option.all_some, Option.any_some, decide_eq_true_eq]
      split
      next h => rw [if_neg (not_lt.mpr h)]
      next h => rw [if_pos (not_le.mp h)]

/-- What is the same now is the same later. -/
theorem Rel.mono (hr : Rel kind now c r) (h : now ≤ now') : Rel kind now' c r where
  agree := by
    intro key
    rw [Redis.lookup, ← live_live h, hr.agree, Redis.lookup, live_live h]
  texts := hr.texts
  expiries := hr.expiries
  sorted := hr.sorted
  ids := fun key e he => ⟨(hr.ids key e he).1.trans (Int.floor_mono h), (hr.ids key e he).2⟩

/-- A key of the other types is not a text. -/
theorem image_of_ne_text (h : kind key ≠ .text) (hother : ¬c.otherKey key) :
    c.image kind key = none := by
  unfold Client.otherKey at hother
  rw [not_or, not_or, not_not, not_not, not_not] at hother
  unfold Client.image
  cases hk : kind key with
  | text => exact absurd hk h
  | hash => exact if_pos hother.1
  | list => exact if_pos hother.2.1
  | stream => exact if_pos hother.2.2

/-! ## Eviction -/

theorem evictExpired_get? (key k : String) :
    (c.evictExpired now key).store.get? k =
      if k = key ∧ c.expired now key = true then none else c.store.get? k := by
  unfold Client.evictExpired
  split
  next h =>
    simp only [Dict.get?_erase, h, and_true, eq_comm]
  next h => simp [h]

theorem evictExpired_expiries (key k : String) :
    (c.evictExpired now key).expiries k =
      if k = key ∧ c.expired now key = true then none else c.expiries k := by
  unfold Client.evictExpired
  split
  next h => simp only [Function.update_apply, h, and_true]
  next h => simp [h]

@[simp] theorem evictExpired_lists (key : String) : (c.evictExpired now key).lists = c.lists := by
  unfold Client.evictExpired
  split <;> rfl

@[simp] theorem evictExpired_hash (key : String) : (c.evictExpired now key).hash = c.hash := by
  unfold Client.evictExpired
  split <;> rfl

@[simp] theorem evictExpired_streams (key : String) :
    (c.evictExpired now key).streams = c.streams := by
  unfold Client.evictExpired
  split <;> rfl

/-- A client without some expired texts. -/
structure Evicted (now : ℚ) (c c' : Client) : Prop where
  texts : ∀ k, c'.store.get? k = c.store.get? k ∧ c'.expiries k = c.expiries k ∨
    c.expired now k = true ∧ c'.store.get? k = none ∧ c'.expiries k = none
  lists : c'.lists = c.lists
  hash : c'.hash = c.hash
  streams : c'.streams = c.streams

theorem evictExpired_evicted (key : String) : Evicted now c (c.evictExpired now key) where
  texts := by
    intro k
    rw [evictExpired_get?, evictExpired_expiries]
    split
    next h =>
      obtain ⟨rfl, hexp⟩ := h
      exact .inr ⟨hexp, rfl, rfl⟩
    next => exact .inl ⟨rfl, rfl⟩
  lists := evictExpired_lists key
  hash := evictExpired_hash key
  streams := evictExpired_streams key

theorem evictAll_evicted : Evicted now c (c.evictAll now) where
  texts := by
    intro k
    simp only [Client.evictAll, Dict.get?_filterKeys]
    cases h : c.expired now k with
    | true => exact .inr ⟨rfl, rfl, rfl⟩
    | false => exact .inl ⟨rfl, rfl⟩
  lists := rfl
  hash := rfl
  streams := rfl

/-- Eviction keeps the relation. -/
theorem Rel.evict {c' : Client} (hr : Rel kind now c r) (h : Evicted now c c') :
    Rel kind now c' r where
  agree := by
    intro key
    rw [← hr.agree]
    unfold Client.image
    cases hk : kind key with
    | text =>
        rcases h.texts key with ⟨hget, hexp⟩ | ⟨hexpired, hget, -⟩
        · simp only [hget, hexp]
        · simp only [hget]
          cases hold : c.store.get? key with
          | none => rfl
          | some v =>
              rw [Option.map_some, live_text, if_pos hexpired]
              rfl
    | hash => simp only [h.hash]
    | list => simp only [h.lists]
    | stream => simp only [h.streams]
  texts := by
    intro key hk
    rcases h.texts key with ⟨hget, -⟩ | ⟨-, hget, -⟩
    · rw [hget, hr.texts key hk]
    · exact hget
  expiries := by
    intro key hnone
    rcases h.texts key with ⟨hget, hexp⟩ | ⟨-, -, hexp⟩
    · rw [hexp]
      exact hr.expiries key (hget ▸ hnone)
    · exact hexp
  sorted := by
    rw [h.streams]
    exact hr.sorted
  ids := by
    rw [h.streams]
    exact hr.ids

end

end LocalState
