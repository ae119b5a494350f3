import AutonomousEngine.LocalState.Collections
import AutonomousEngine.LocalState.Texts

/-!
# The client refines Redis along its runs

Every command keeps the relation and has a reply of Redis (`step_refines`), and so does
a run of commands at times that do not go back, as long as it meets no difference
before any of its steps (`refines_redis`).
-/

namespace LocalState

open Basis

variable {kind : String → Kind}

theorem step_refines {now : ℚ} {c : Client} {r : Redis} (cmd : Command) (hr : Rel kind now c r)
    (huses : cmd.Uses kind) (h : Agrees c (now, cmd)) :
    ∃ r', Rel kind now (c.step (now, cmd)).1 r' ∧
      Redis.Step now r cmd (c.step (now, cmd)).2 r' := by
  cases cmd with
  | get key => exact ⟨r, get_step hr huses⟩
  | set key value px nx => exact set_step hr huses h
  | delete keys =>
      obtain ⟨hrest, hcount⟩ := delete_step keys hr h
      exact ⟨_, hrest, congrArg Reply.number hcount, rfl⟩
  | keys pattern => exact ⟨r, keys_step hr h⟩
  | pexpire key timeMs => exact pexpire_step hr h
  | hset name field value => exact ⟨_, hset_step hr huses⟩
  | hget name field => exact ⟨r, hr, c.hash name, hr.hashAt huses, rfl, rfl⟩
  | rpush key values =>
      obtain ⟨hk, hne⟩ := huses
      exact ⟨_, hr.putList hk _, c.lists key, hr.listAt hk, hne, rfl, rfl⟩
  | ltrim key start stop =>
      refine ⟨_, hr.putList huses _, c.lists key, hr.listAt huses, rfl, ?_⟩
      rw [inclusiveSlice_eq_redisRange]
  | lrange key start stop =>
      exact ⟨r, hr, c.lists key, hr.listAt huses,
        congrArg Reply.range (inclusiveSlice_eq_redisRange _ _ _), rfl⟩
  | xadd stream fields => exact xadd_step hr huses
  | xread streams count => exact ⟨r, hr, xread_step hr huses h⟩
  | pipeline commands =>
      obtain ⟨r', hr', hruns⟩ := pipeline_step commands hr huses
      exact ⟨r', hr', _, hruns, rfl⟩

theorem runs_of_rel {now : ℚ} {c : Client} {r : Redis} (is : List (ℚ × Command))
    (hr : Rel kind now c r) (hclock : (now :: is.map Prod.fst).Pairwise (· ≤ ·))
    (huses : ∀ i ∈ is, i.2.Uses kind) (h : Along Client.step Agrees c is) :
    r.Runs is (feed Client.step c is).2 := by
  induction is generalizing now c r with
  | nil => rfl
  | cons i is ih =>
      obtain ⟨hagrees, hrest⟩ := h
      obtain ⟨hnow, hclock⟩ := List.pairwise_cons.mp hclock
      have hnow : now ≤ i.1 := hnow i.1 List.mem_cons_self
      obtain ⟨r', hr', hstep⟩ :=
        step_refines i.2 (hr.mono hnow) (huses i List.mem_cons_self) hagrees
      exact ⟨_, r', _, hstep, rfl,
        ih hr' hclock (fun i' hi' => huses i' (List.mem_cons_of_mem i hi')) hrest⟩

theorem rel_empty (kind : String → Kind) (now : ℚ) : Rel kind now .empty .empty where
  agree := by
    intro key
    unfold Client.image
    cases kind key <;> rfl
  texts _ _ := rfl
  expiries _ _ := rfl
  sorted _ := List.Pairwise.nil
  ids _ e he := by cases he

/-- From its start on the client replies what Redis may reply, at every step of a run
that uses every key with one type, whose clock does not go back, and that meets no
difference before any of its steps. -/
theorem refines_redis (kind : String → Kind) (is : List (ℚ × Command))
    (hclock : (is.map Prod.fst).Pairwise (· ≤ ·)) (huses : ∀ i ∈ is, i.2.Uses kind)
    (h : Along Client.step Agrees .empty is) :
    Redis.Runs .empty is (feed Client.step .empty is).2 := by
  cases is with
  | nil => rfl
  | cons i is =>
      refine runs_of_rel (i :: is) (rel_empty kind i.1) (List.pairwise_cons.mpr ⟨?_, hclock⟩) huses h
      intro t ht
      rcases List.mem_cons.mp ht with rfl | hlater
      · exact le_rfl
      · exact (List.pairwise_cons.mp hclock).1 t hlater

/-- A text that expires and that a pattern finds before, and a list. -/
theorem refines_redis_textAndList :
    Redis.Runs .empty
      [(0, .set "signal" "buy" (some 100) true), (50, .keys "sig*"), (60, .pexpire "signal" 20),
        (90, .get "signal"), (90, .rpush "bars" ["a", "b", "c"]), (95, .lrange "bars" (-2) (-1))]
      (feed Client.step .empty
        [(0, .set "signal" "buy" (some 100) true), (50, .keys "sig*"), (60, .pexpire "signal" 20),
          (90, .get "signal"), (90, .rpush "bars" ["a", "b", "c"]),
          (95, .lrange "bars" (-2) (-1))]).2 := by
  refine refines_redis (fun key => if key = "bars" then .list else .text) _ ?_ ?_ ?_
  · norm_num
  · simp [Command.Uses]
  · refine ⟨fun hnone => ?_, ⟨fun k _ => ?_, fun k hk => ?_⟩, ⟨fun _ => ?_, ?_⟩, trivial, trivial,
      trivial, trivial⟩
    · cases hnone
    · exact fnmatchcase_eq_redisGlob (by decide) k
    · revert hk
      norm_num [Client.step, Client.otherKey, Client.empty, Client.set, Client.evictExpired,
        Client.expired]
      exact fun hne => absurd rfl hne
    · decide
    · norm_num [Client.step, Client.otherKey, Client.empty, Client.set, Client.keys,
        Client.evictAll, Client.evictExpired, Client.expired]
      rfl

/-- A text that is set over one with an expiry goes with the expiry of the old one. -/
theorem overwritten_not_runs :
    ¬∀ (kind : String → Kind) (is : List (ℚ × Command)), (is.map Prod.fst).Pairwise (· ≤ ·) →
      (∀ i ∈ is, i.2.Uses kind) → Redis.Runs .empty is (feed Client.step .empty is).2 := by
  intro h
  have hruns := h (fun _ => .text)
    [(0, .set "k" "a" (some 100) false), (50, .set "k" "b" none false), (200, .get "k")]
    (by norm_num) (by simp [Command.Uses])
  have hreplies : (feed Client.step .empty
      [(0, .set "k" "a" (some 100) false), (50, .set "k" "b" none false), (200, .get "k")]).2 =
      [.done true, .done true, .value none] := by
    norm_num [Client.step, Client.empty, Client.set, Client.get, Client.evictExpired,
      Client.expired, Client.setExpiry]
  rw [hreplies] at hruns
  simp [Redis.Runs, Redis.Step, Redis.textAt, Redis.lookup, live_some, Entry.liveAt] at hruns

end LocalState
