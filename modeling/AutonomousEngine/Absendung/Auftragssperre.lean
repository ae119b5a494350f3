import AutonomousEngine.Absendung.Moeglich

/-!
# The lock of an order run

An order run takes the lock of its tenant and symbol, and tries that only once.  A run
that does not get it returns without an order.  Every other run executes the section
(`abschnitt`) and gives the lock back, whatever the section does.

A lock in Redis has a lifetime of twelve seconds.  The section has none: it waits for
services, and polls the broker for as long as its settings say.  So a run may still be
in its section when its lock is long gone (`auftragslauf_ueberholt`).  Until then it is
the only one there (`auftragslauf_allein`).

The lock of the desktop is a stub that is always acquired.  It is a lock without a
lifetime.
-/

namespace Absendung

open Basis
open Verkauf (Quelle)

/-! ## The section -/

def abschnitt (u : Umfeld) (tenant : Tenant) (event : Signal) (source : Quelle) : Lauf Bool :=
  tryCatch (do
      let st ← vorlauf u tenant event source
      if ← abgang u tenant event source st then
        tryCatch (dienst .nachlauf) fun e => schrittMandantFehler true e
      return true)
    fehlerfaenger

/-! ## Runs under locks -/

/-- A call of `executeTenantOrder`, with the settings of its process. -/
structure Auftragslauf where
  umfeld : Umfeld
  tenant : Tenant
  event : Signal
  source : Quelle

def Auftragslauf.lockKey (k : Auftragslauf) : String :=
  s!"order_lock:{k.tenant.userId}:{k.event.symbol}"

/-- What holds the locks: Redis, or the state client of the desktop. -/
inductive Backend where
  | redis
  | lokal
deriving DecidableEq, Repr

/-- How long a lock lives, in milliseconds.  The lock of the desktop is always
acquired, as one that is over at once. -/
def Backend.lebensdauer : Backend → Nat
  | .redis => 12000
  | .lokal => 0

/-- Where a run is in its section: what it has still to do. -/
abbrev Punkt := Program Frage Frage.Antwort (Except Ende Bool)

/-- The runs as critical sections.  An oracle answers their questions. -/
def auftragssperre (b : Backend) :
    LeaseProgram (Oracle Frage Frage.Antwort) Auftragslauf Punkt (Except Ende Bool) String where
  lockName k := k.lockKey
  entry k := (abschnitt k.umfeld k.tenant k.event k.source).run
  next := Program.turn
  refused _ := .ok false
  ttl := b.lebensdauer
  attempts := 1

/-- A moment of any number of order runs. -/
abbrev Auftragskonf :=
  Config (Oracle Frage Frage.Antwort) Auftragslauf Punkt (Except Ende Bool) String

/-- All interleavings of all order runs, whatever they are answered and however long
that takes. -/
def auftragslaeufe (b : Backend) : System Auftragskonf (Act Auftragslauf) :=
  (auftragssperre b).system fun _ => True

/-- A run that has its lock and has not ended. -/
def ImGange (c : Auftragskonf) (t : Nat) (k : Auftragslauf) : Prop :=
  (∃ f p, c.calls t = .inside k f p) ∨ ∃ f r, c.calls t = .leaving k f r

/-- The lifetime of the lock of a run is not over. -/
def Befristet (c : Auftragskonf) (t : Nat) : Prop :=
  ∃ f, LeaseProgram.deadline (c.calls t) = some f ∧ c.now < f

/-- Runs of one tenant and symbol need one lock. -/
theorem Auftragslauf.lockKey_congr {k k' : Auftragslauf}
    (huser : k.tenant.userId = k'.tenant.userId) (hsymbol : k.event.symbol = k'.event.symbol) :
    k.lockKey = k'.lockKey := by
  rw [lockKey, lockKey, huser, hsymbol]

theorem ImGange.within {b : Backend} {c : Auftragskonf} {t : Nat} {k : Auftragslauf}
    (h : ImGange c t k) : (auftragssperre b).within (c.calls t) = some k.lockKey := by
  rcases h with ⟨f, p, h⟩ | ⟨f, r, h⟩
  · rw [h]
    rfl
  · rw [h]
    rfl

/-- Where Redis holds the locks, two runs of one tenant and symbol are under way at the
same time only if the lock of one of them is over.  On the desktop a run always gets
its lock. -/
theorem auftragslauf_allein :
    (∀ c, (auftragslaeufe .redis).Reach c → ∀ t t' k k', ImGange c t k → ImGange c t' k' →
      k.tenant.userId = k'.tenant.userId → k.event.symbol = k'.event.symbol →
      Befristet c t → Befristet c t' → t = t') ∧
    ∀ c, (auftragslaeufe .lokal).Reach c → ∀ t k n, c.calls t = .waiting k n →
      ∃ c', (auftragssperre .lokal).act c (.acquire t) = some c' ∧ ImGange c' t k := by
  constructor
  · intro c hc t t' k k' ht ht' huser hsymbol ⟨f, hf, hnow⟩ ⟨f', hf', hnow'⟩
    have hkey : k.lockKey = k'.lockKey := Auftragslauf.lockKey_congr huser hsymbol
    exact (auftragssperre .redis).inTime_alone hc ht.within (hkey ▸ ht'.within) hf hf' hnow hnow'
  · intro c hc t k n ht
    have hfree : c.free k.lockKey = true :=
      (auftragssperre .lokal).free_of_ttl_zero rfl hc k.lockKey
    refine ⟨_, (auftragssperre .lokal).act_acquire ht hfree, ?_⟩
    exact .inl ⟨_, _, Config.setCall_calls_self c t _⟩

/-- A sale of an engine that polls an order every two seconds for two minutes. -/
def beispielLauf : Auftragslauf where
  umfeld := { beispielUmfeld true with orderFillTimeoutSeconds := 120, orderFillPollSeconds := 2 }
  tenant := beispielTenant
  event := beispielSignal .sell
  source := .ai

/-- Two runs of one sale, of which one has got its lock. -/
theorem auftragslauf_allein_beispiel :
    (∃ c, (auftragslaeufe .redis).Reach c ∧ ImGange c 0 beispielLauf ∧ Befristet c 0 ∧
      ∀ t, ImGange c t beispielLauf → Befristet c t → t = 0) ∧
    ∃ c c', (auftragslaeufe .lokal).Reach c ∧ ImGange c 0 beispielLauf ∧
      (auftragssperre .lokal).act c (.acquire 1) = some c' ∧ ImGange c' 1 beispielLauf := by
  have hstart (b : Backend) : (auftragslaeufe b).Reach (Config.fresh ⟨fun _ _ => none, 0⟩) :=
    .start ⟨_, trivial, rfl⟩
  have hrun (b : Backend) : ∃ c, (auftragssperre b).run (.fresh ⟨fun _ _ => none, 0⟩)
      [.begin 0 beispielLauf, .begin 1 beispielLauf, .acquire 0] = some c ∧
      ImGange c 0 beispielLauf ∧ LeaseProgram.deadline (c.calls 0) = some b.lebensdauer ∧
      c.now = 0 ∧ c.calls 1 = .waiting beispielLauf 0 :=
    ⟨_, rfl, .inl ⟨_, _, rfl⟩, congrArg some (Nat.zero_add _), rfl, rfl⟩
  constructor
  · obtain ⟨c, hc, h0, hf, hnow, -⟩ := hrun .redis
    have hreach := (auftragssperre .redis).reach_of_run (hstart .redis) hc
    have hfrist : Befristet c 0 := ⟨_, hf, by rw [hnow]; decide⟩
    refine ⟨c, hreach, h0, hfrist, fun t ht hft => ?_⟩
    exact auftragslauf_allein.1 c hreach t 0 _ _ ht h0 rfl rfl hft hfrist
  · obtain ⟨c, hc, h0, -, -, h1⟩ := hrun .lokal
    have hreach := (auftragssperre .lokal).reach_of_run (hstart .lokal) hc
    obtain ⟨c', hact, h1'⟩ := auftragslauf_allein.2 c hreach 1 _ _ h1
    exact ⟨c, c', hreach, h0, hact, h1'⟩

/-- Runs that wait for an answer until their lock is over are overtaken, and on the
desktop every run is. -/
theorem auftragslauf_ueberholt :
    (∃ c, (auftragslaeufe .redis).Reach c ∧ ImGange c 0 beispielLauf ∧
      ImGange c 1 beispielLauf) ∧
    ∃ c, (auftragslaeufe .lokal).Reach c ∧ ImGange c 0 beispielLauf ∧
      ImGange c 1 beispielLauf := by
  have hbeide (b : Backend) : ∃ c, (auftragslaeufe b).Reach c ∧ ImGange c 0 beispielLauf ∧
      ImGange c 1 beispielLauf := by
    let still : Oracle Frage Frage.Antwort := ⟨fun _ _ => none, 0⟩
    have hoverlap : ∃ c, (auftragslaeufe b).Reach c ∧ _ :=
      (auftragssperre b).reach_overlap (s := still) trivial
        (rfl : beispielLauf.lockKey = beispielLauf.lockKey)
    obtain ⟨c, hc, h0, h1⟩ := hoverlap
    exact ⟨c, hc, .inl ⟨_, _, h0⟩, .inl ⟨_, _, h1⟩⟩
  exact ⟨hbeide .redis, hbeide .lokal⟩

end Absendung
