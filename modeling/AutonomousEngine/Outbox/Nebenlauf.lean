import AutonomousEngine.Basis.Lease
import AutonomousEngine.Outbox.Ablage

/-!
# The outbox under concurrent clients

`Ablage` gives the operations as they run alone.  Here every port call is a
step of its own, and any number of calls interleave.  A call waits for the lock
`outbox:<name>`, runs through the program points of its section (`Stelle`) and
releases the lock.  It may raise at any port call, and its process may die
anywhere, which leaves the lock to its expiry.

The reports and `festschreiben` lock the key they are about.  The clean-up
locks the name `verzeichnis` and not the keys it removes, so what it has read
of an entry could have changed by the time it deletes it.  The argument that
it has not is the outline `outboxGliederung`.  `Stelle.weiss` says what a call
knows of the store at each point, and `Wirkung` says once what a port call can
do to it.  A final entry is never written again, and that is all the clean-up
relies on.
-/

namespace Outbox

open Basis (LeaseProgram)

/-! ## The program -/

/-- A call of one of the outbox operations. -/
inductive Auftrag where
  | festschreiben (e : OutboxEintrag)
  | melde (coid : String) (m : Meldung)
  | aufraeumen
deriving DecidableEq

/-- The port call a section is about to make, with the local variables it
needs. -/
inductive Stelle where
  | festLesen (e : OutboxEintrag)
  | festSetzen (e : OutboxEintrag)
  | festAnhaengen (e : OutboxEintrag)
  | fortLesen (coid : String) (m : Meldung)
  | fortSetzen (coid : String) (m : Meldung) (e : OutboxEintrag)
  | raumVerzeichnis
  | raumLesen (coid : String) (rest : List String) (geraeumt : Nat)
  | raumPop (coid : String) (rest : List String) (geraeumt : Nat)
  | raumLoeschen (coid : String) (rest : List String) (geraeumt : Nat)
deriving DecidableEq

/-- What a call returns. -/
inductive Ergebnis where
  | erfolg (b : Bool)
  | anzahl (n : Nat)
deriving DecidableEq, Repr

def Auftrag.sperrname : Auftrag → String
  | .festschreiben e => e.clientOrderId
  | .melde coid _ => coid
  | .aufraeumen => "verzeichnis"

def Stelle.auftrag : Stelle → Auftrag
  | .festLesen e | .festSetzen e | .festAnhaengen e => .festschreiben e
  | .fortLesen coid m | .fortSetzen coid m _ => .melde coid m
  | .raumVerzeichnis | .raumLesen _ _ _ | .raumPop _ _ _ | .raumLoeschen _ _ _ => .aufraeumen

def Stelle.sperrname (p : Stelle) : String := p.auftrag.sperrname

def Auftrag.eintritt : Auftrag → Stelle
  | .festschreiben e => .festLesen e
  | .melde coid m => .fortLesen coid m
  | .aufraeumen => .raumVerzeichnis

/-- What a call returns without its lock. -/
def Auftrag.abgewiesen : Auftrag → Ergebnis
  | .festschreiben _ | .melde _ _ => .erfolg false
  | .aufraeumen => .anzahl 0

def raumSchleife : List String → Nat → Stelle ⊕ Ergebnis
  | [], n => .inr (.anzahl n)
  | coid :: rest, n => .inl (.raumLesen coid rest n)

/-- An entry as `festschreiben` writes it. -/
def offenerEintrag (e : OutboxEintrag) : OutboxEintrag := { e with zustand := .offen }

/-- One port call, and the point it leads to. -/
def weiter (a : Ablage) : Stelle → Ablage × (Stelle ⊕ Ergebnis)
  | .festLesen e =>
      if (a.get e.clientOrderId).isSome then (a, .inr (.erfolg true)) else (a, .inl (.festSetzen e))
  | .festSetzen e =>
      (a.set e.clientOrderId (offenerEintrag e).alsJson, .inl (.festAnhaengen e))
  | .festAnhaengen e => (a.append e.clientOrderId, .inr (.erfolg true))
  | .fortLesen coid m =>
      match a.lese coid with
      | none => (a, .inr (.erfolg false))
      | some e =>
          if m.ziel.rang ≤ e.zustand.rang then (a, .inr (.erfolg (decide (e.zustand = m.ziel))))
          else (a, .inl (.fortSetzen coid m e))
  | .fortSetzen coid m e => (a.set coid (m.auf e).alsJson, .inr (.erfolg true))
  | .raumVerzeichnis => (a, raumSchleife a.read 0)
  | .raumLesen coid rest n =>
      if a.raeumbar coid then (a, .inl (.raumPop coid rest n)) else (a, .inr (.anzahl n))
  | .raumPop coid rest n => (a.pop, .inl (.raumLoeschen coid rest n))
  | .raumLoeschen coid rest n => (a.delete coid, raumSchleife rest (n + 1))

/-! The port calls that only read leave the store as it is. -/

@[simp] theorem weiter_festLesen (a : Ablage) (e : OutboxEintrag) :
    (weiter a (.festLesen e)).1 = a := by
  simp only [weiter]
  split <;> rfl

@[simp] theorem weiter_fortLesen (a : Ablage) (coid : String) (m : Meldung) :
    (weiter a (.fortLesen coid m)).1 = a := by
  simp only [weiter]
  split
  · rfl
  · split <;> rfl

@[simp] theorem weiter_raumLesen (a : Ablage) (coid : String) (rest : List String) (n : Nat) :
    (weiter a (.raumLesen coid rest n)).1 = a := by
  simp only [weiter]
  split <;> rfl

/-- The outbox as a program of leased sections.  Times are in microseconds. -/
def outboxProgramm : LeaseProgram Ablage Auftrag Stelle Ergebnis String where
  lockName := Auftrag.sperrname
  entry := Auftrag.eintritt
  next := weiter
  refused := Auftrag.abgewiesen
  ttl := 10000000
  attempts := 25

/-- A configuration of the outbox and its callers. -/
abbrev Konf := Basis.Config Ablage Auftrag Stelle Ergebnis String

abbrev Aktion := Basis.Act Auftrag

/-! ## What a section knows and what a port call does -/

/-- The key has an entry in a final state. -/
def Ablage.Erledigt (a : Ablage) (coid : String) : Prop :=
  ∃ e, a.lese coid = some e ∧ e.zustand.erledigt = true

/-- The store as the outbox leaves it: no line twice, an entry behind every
line, and every text an entry under its own key. -/
structure Ablage.Ordentlich (a : Ablage) : Prop where
  einmal : a.read.Nodup
  belegt : ∀ coid ∈ a.read, ∃ e, a.lese coid = some e
  lesbar : ∀ coid roh, a.get coid = some roh →
    ∃ e : OutboxEintrag, roh = e.alsJson ∧ e.clientOrderId = coid

/-- What a call knows of the store before the port call of a point. -/
def Stelle.weiss (a : Ablage) : Stelle → Prop
  | .festLesen _ | .fortLesen _ _ | .raumVerzeichnis => True
  | .festSetzen e => a.get e.clientOrderId = none
  | .festAnhaengen e =>
      a.lese e.clientOrderId = some (offenerEintrag e) ∧ e.clientOrderId ∉ a.read
  | .fortSetzen coid m e => a.lese coid = some e ∧ e.zustand.rang < m.ziel.rang
  | .raumLesen coid rest _ => coid :: rest <+: a.read
  | .raumPop coid rest _ => coid :: rest <+: a.read ∧ a.Erledigt coid
  | .raumLoeschen coid rest _ => rest <+: a.read ∧ coid ∉ a.read ∧ a.Erledigt coid

/-- What a port call under the lock `n` can do to the store. -/
inductive Wirkung (n : String) (a : Ablage) : Ablage → Prop where
  | nichts : Wirkung n a a
  /-- A new entry is written as `offen`. -/
  | neu {e : OutboxEintrag} : n = e.clientOrderId → a.get n = none → e.zustand = .offen →
      Wirkung n a (a.set n e.alsJson)
  /-- An entry is written over one of lower rank. -/
  | fort {m : Meldung} {e : OutboxEintrag} : n = e.clientOrderId → a.lese n = some e →
      e.zustand.rang < m.ziel.rang → Wirkung n a (a.set n (m.auf e).alsJson)
  | anhaengen {e : OutboxEintrag} : a.lese n = some e → e.zustand = .offen → n ∉ a.read →
      Wirkung n a (a.append n)
  | entnehmen {coid : String} {rest : List String} : n = "verzeichnis" →
      a.read = coid :: rest → a.Erledigt coid → Wirkung n a a.pop
  | loeschen {coid : String} : n = "verzeichnis" → coid ∉ a.read → a.Erledigt coid →
      Wirkung n a (a.delete coid)

/-! ## The outline -/

theorem Ablage.Erledigt.ne_none {a : Ablage} {coid : String} (h : a.Erledigt coid) :
    a.get coid ≠ none := by
  obtain ⟨e, he, _⟩ := h
  intro hn
  simp [Ablage.lese, hn] at he

theorem Ablage.Erledigt.not_rang_lt {a : Ablage} {coid : String} (h : a.Erledigt coid)
    {e : OutboxEintrag} (he : a.lese coid = some e) (m : Meldung) :
    ¬ e.zustand.rang < m.ziel.rang := by
  obtain ⟨e', he', hz⟩ := h
  rw [he] at he'
  cases he'
  exact Nat.not_lt.mpr (Zustand.rang_le_of_erledigt hz m)

theorem Ablage.Erledigt.not_offen {a : Ablage} {coid : String} (h : a.Erledigt coid)
    {e : OutboxEintrag} (he : a.lese coid = some e) : e.zustand ≠ .offen := by
  obtain ⟨e', he', hz⟩ := h
  rw [he] at he'
  cases he'
  intro ho
  simp [ho, Zustand.erledigt] at hz

theorem Ablage.Erledigt.ne {a : Ablage} {c coid : String} (h : a.Erledigt c)
    {e : OutboxEintrag} (he : a.lese coid = some e) (hz : e.zustand.erledigt = false) :
    coid ≠ c := by
  rintro rfl
  obtain ⟨d, hd, hdz⟩ := h
  rw [he] at hd
  cases hd
  rw [hz] at hdz
  cases hdz

/-- The entry read under a key is the one stored there, and the key is its own. -/
theorem Ablage.Ordentlich.schluessel {a : Ablage} (ha : a.Ordentlich) {coid : String}
    {e : OutboxEintrag} (he : a.lese coid = some e) : e.clientOrderId = coid := by
  cases hg : a.get coid with
  | none => simp [Ablage.lese, hg] at he
  | some roh =>
      obtain ⟨e', rfl, hk⟩ := ha.lesbar coid roh hg
      simp only [Ablage.lese, hg, Option.bind_some, ausJson_alsJson, Option.some.injEq] at he
      exact he ▸ hk

theorem ordentlich_leer : Ablage.leer.Ordentlich where
  einmal := List.nodup_nil
  belegt _ h := nomatch h
  lesbar _ _ h := nomatch h

/-- A directory line that the clean-up may remove belongs to a final entry. -/
theorem Ablage.Ordentlich.erledigt_of_raeumbar {a : Ablage} (ha : a.Ordentlich) {coid : String}
    (hc : coid ∈ a.read) (hr : a.raeumbar coid = true) : a.Erledigt coid := by
  obtain ⟨e, he⟩ := ha.belegt coid hc
  have hk : a.get coid = some e.alsJson := by
    cases hg : a.get coid with
    | none => simp [Ablage.lese, hg] at he
    | some roh =>
        obtain ⟨e', rfl, _⟩ := ha.lesbar coid roh hg
        simp [Ablage.lese, hg] at he
        rw [he]
  exact ⟨e, he, by simpa [Ablage.raeumbar, hk] using hr⟩

/-- Every port call of a section has one of the listed effects. -/
theorem weiter_wirkung {a : Ablage} (ha : a.Ordentlich) {p : Stelle} (hp : p.weiss a) :
    Wirkung p.sperrname a (weiter a p).1 := by
  cases p with
  | festLesen e => rw [weiter_festLesen]; exact .nichts
  | festSetzen e => exact .neu (e := offenerEintrag e) rfl hp rfl
  | festAnhaengen e => exact .anhaengen hp.1 rfl hp.2
  | fortLesen coid m => rw [weiter_fortLesen]; exact .nichts
  | fortSetzen coid m e => exact .fort (ha.schluessel hp.1).symm hp.1 hp.2
  | raumVerzeichnis => exact .nichts
  | raumLesen coid rest n => rw [weiter_raumLesen]; exact .nichts
  | raumPop coid rest n =>
      obtain ⟨⟨mehr, hmehr⟩, he⟩ := hp
      exact .entnehmen rfl hmehr.symm he
  | raumLoeschen coid rest n => exact .loeschen rfl hp.2.1 hp.2.2

theorem Wirkung.ordentlich {n : String} {a a' : Ablage} (ha : a.Ordentlich)
    (h : Wirkung n a a') : a'.Ordentlich := by
  cases h with
  | nichts => exact ha
  | @neu e hn hnone hz =>
      refine ⟨ha.einmal, fun coid hc => ?_, fun coid roh hg => ?_⟩
      · by_cases hcn : coid = n
        · subst hcn; exact ⟨e, by simp⟩
        · rw [Ablage.lese_set_of_ne a n _ hcn]; exact ha.belegt coid hc
      · by_cases hcn : coid = n
        · subst hcn
          rw [Ablage.get_set_self] at hg
          cases hg
          exact ⟨e, rfl, hn.symm⟩
        · rw [Ablage.get_set_of_ne a n _ hcn] at hg; exact ha.lesbar coid roh hg
  | @fort m e hn he hr =>
      refine ⟨ha.einmal, fun coid hc => ?_, fun coid roh hg => ?_⟩
      · by_cases hcn : coid = n
        · subst hcn; exact ⟨m.auf e, by simp⟩
        · rw [Ablage.lese_set_of_ne a n _ hcn]; exact ha.belegt coid hc
      · by_cases hcn : coid = n
        · subst hcn
          rw [Ablage.get_set_self] at hg
          cases hg
          exact ⟨m.auf e, rfl, by simp [hn]⟩
        · rw [Ablage.get_set_of_ne a n _ hcn] at hg; exact ha.lesbar coid roh hg
  | @anhaengen e he hz hmem =>
      refine ⟨?_, fun coid hc => ?_, ha.lesbar⟩
      · rw [Ablage.read_append]
        exact ha.einmal.append (List.nodup_singleton n) (by simpa using hmem)
      · rcases List.mem_append.mp hc with hc | hc
        · exact ha.belegt coid hc
        · rw [List.mem_singleton.mp hc]; exact ⟨e, he⟩
  | entnehmen =>
      refine ⟨ha.einmal.sublist (List.tail_sublist _), fun coid hc => ?_, ha.lesbar⟩
      exact ha.belegt coid (List.mem_of_mem_tail hc)
  | @loeschen d hn hd hz =>
      refine ⟨ha.einmal, fun coid hc => ?_, fun coid roh hg => ?_⟩
      · have hne : coid ≠ d := fun h => hd (h ▸ hc)
        rw [Ablage.lese_delete_of_ne a d hne]
        exact ha.belegt coid hc
      · by_cases hcd : coid = d
        · subst hcd; simp at hg
        · rw [Ablage.get_delete_of_ne a d hcd] at hg; exact ha.lesbar coid roh hg

/-- A final entry stays as it is, whatever a port call under any lock does,
unless it is deleted. -/
theorem Wirkung.erledigt {n : String} {a a' : Ablage} (h : Wirkung n a a') {coid : String}
    (hc : a.Erledigt coid) (hget : a'.get coid ≠ none) : a'.Erledigt coid := by
  cases h with
  | nichts | anhaengen | entnehmen => exact hc
  | @neu e hn hnone hz =>
      have hne : coid ≠ n := fun h => hc.ne_none (h ▸ hnone)
      obtain ⟨d, hd, hz'⟩ := hc
      exact ⟨d, by rw [Ablage.lese_set_of_ne a n _ hne]; exact hd, hz'⟩
  | @fort m e hn he hr =>
      have hne : coid ≠ n := by rintro rfl; exact hc.not_rang_lt he m hr
      obtain ⟨d, hd, hz'⟩ := hc
      exact ⟨d, by rw [Ablage.lese_set_of_ne a n _ hne]; exact hd, hz'⟩
  | @loeschen d hn hd hz =>
      have hne : coid ≠ d := by rintro rfl; simp at hget
      obtain ⟨x, hx, hz'⟩ := hc
      exact ⟨x, by rw [Ablage.lese_delete_of_ne a d hne]; exact hx, hz'⟩

/-- Port calls under another lock than the clean-up's keep the front of the
directory. -/
theorem Wirkung.vorne {n : String} {a a' : Ablage} (h : Wirkung n a a') (hn : n ≠ "verzeichnis")
    {lines : List String} (hl : lines <+: a.read) : lines <+: a'.read := by
  cases h with
  | nichts | neu | fort => exact hl
  | anhaengen => exact hl.trans (List.prefix_append _ _)
  | entnehmen hv => exact absurd hv hn
  | loeschen hv => exact absurd hv hn

/-- Port calls under another lock than the clean-up's delete nothing. -/
theorem Wirkung.get_ne_none {n : String} {a a' : Ablage} (h : Wirkung n a a')
    (hn : n ≠ "verzeichnis") {coid : String} (hc : a.get coid ≠ none) : a'.get coid ≠ none := by
  cases h with
  | nichts | anhaengen => exact hc
  | neu | fort =>
      by_cases hcn : coid = n
      · subst hcn; simp
      · rwa [Ablage.get_set_of_ne _ _ _ hcn]
  | entnehmen hv => exact absurd hv hn
  | loeschen hv => exact absurd hv hn

/-- An entry that a report may still move is changed only under its own lock. -/
theorem Wirkung.lese_eq {n : String} {a a' : Ablage} (h : Wirkung n a a') {coid : String}
    (hn : coid ≠ n) (hc : ¬ a.Erledigt coid) : a'.lese coid = a.lese coid := by
  cases h with
  | nichts | anhaengen | entnehmen => rfl
  | neu | fort => exact Ablage.lese_set_of_ne a n _ hn
  | @loeschen d _ _ hz =>
      exact Ablage.lese_delete_of_ne a d fun h => hc (h ▸ hz)

/-- What a section knows survives the port calls under other locks. -/
theorem Wirkung.weiss {n : String} {a a' : Ablage} (h : Wirkung n a a') {p : Stelle}
    (hn : n ≠ p.sperrname) (hp : p.weiss a) : p.weiss a' := by
  cases p with
  | festLesen | fortLesen | raumVerzeichnis => trivial
  | festSetzen e =>
      simp only [Stelle.weiss] at hp ⊢
      cases h with
      | nichts | anhaengen | entnehmen => exact hp
      | neu | fort => exact (Ablage.get_set_of_ne a n _ hn.symm).trans hp
      | @loeschen d _ _ hz =>
          have hne : e.clientOrderId ≠ d := fun h => hz.ne_none (h ▸ hp)
          exact (Ablage.get_delete_of_ne a d hne).trans hp
  | festAnhaengen e =>
      obtain ⟨he, hmem⟩ := hp
      have hnot : ¬ a.Erledigt e.clientOrderId := fun h => h.not_offen he rfl
      refine ⟨(h.lese_eq hn.symm hnot).trans he, ?_⟩
      cases h with
      | nichts | neu | fort | loeschen => exact hmem
      | anhaengen =>
          intro hc
          rcases List.mem_append.mp hc with hc | hc
          · exact hmem hc
          · exact hn (List.mem_singleton.mp hc).symm
      | entnehmen => exact fun hc => hmem (List.mem_of_mem_tail hc)
  | fortSetzen coid m e =>
      obtain ⟨he, hr⟩ := hp
      have hnot : ¬ a.Erledigt coid := fun h => h.not_rang_lt he m hr
      exact ⟨(h.lese_eq hn.symm hnot).trans he, hr⟩
  | raumLesen coid rest k => exact h.vorne hn hp
  | raumPop coid rest k =>
      exact ⟨h.vorne hn hp.1, h.erledigt hp.2 (h.get_ne_none hn hp.2.ne_none)⟩
  | raumLoeschen coid rest k =>
      obtain ⟨hpre, hmem, hz⟩ := hp
      refine ⟨h.vorne hn hpre, ?_, h.erledigt hz (h.get_ne_none hn hz.ne_none)⟩
      cases h with
      | nichts | neu | fort | loeschen => exact hmem
      | anhaengen he ho _ =>
          intro hc
          rcases List.mem_append.mp hc with hc | hc
          · exact hmem hc
          · rw [List.mem_singleton.mp hc] at hz
            exact hz.not_offen he ho
      | entnehmen hv => exact absurd hv hn

theorem weiter_weiss {a : Ablage} (ha : a.Ordentlich) {p p' : Stelle} (hp : p.weiss a)
    (h : (weiter a p).2 = .inl p') : p'.weiss (weiter a p).1 ∧ p'.auftrag = p.auftrag := by
  cases p with
  | festLesen e =>
      simp only [weiter] at h ⊢
      split at h
      next => cases h
      next hg =>
        cases h
        rw [if_neg hg]
        exact ⟨by simpa [Stelle.weiss] using hg, rfl⟩
  | festSetzen e =>
      cases h
      have hmem : e.clientOrderId ∉ a.read := by
        intro hc
        obtain ⟨d, hd⟩ := ha.belegt _ hc
        simp only [Stelle.weiss] at hp
        simp [Ablage.lese, hp] at hd
      exact ⟨⟨by simp [weiter], by simpa [weiter] using hmem⟩, rfl⟩
  | festAnhaengen e => cases h
  | fortLesen coid m =>
      simp only [weiter] at h ⊢
      split at h
      next => cases h
      next e he =>
        split at h
        next => cases h
        next hr =>
          cases h
          simp only [if_neg hr]
          exact ⟨⟨he, Nat.lt_of_not_le hr⟩, rfl⟩
  | fortSetzen coid m e => cases h
  | raumVerzeichnis =>
      simp only [weiter] at h ⊢
      cases hr : a.read with
      | nil => simp [hr, raumSchleife] at h
      | cons coid rest =>
          simp only [hr, raumSchleife, Sum.inl.injEq] at h
          subst h
          exact ⟨by simp [Stelle.weiss, hr], rfl⟩
  | raumLesen coid rest n =>
      simp only [weiter] at h ⊢
      split at h
      next hr =>
        cases h
        rw [if_pos hr]
        have hc : coid ∈ a.read := hp.subset List.mem_cons_self
        exact ⟨⟨hp, ha.erledigt_of_raeumbar hc hr⟩, rfl⟩
      next => cases h
  | raumPop coid rest n =>
      cases h
      obtain ⟨⟨mehr, hmehr⟩, hz⟩ := hp
      have hnd : (coid :: (rest ++ mehr)).Nodup := by
        rw [← List.cons_append, hmehr]
        exact ha.einmal
      refine ⟨⟨?_, ?_, hz⟩, rfl⟩
      · simp [weiter, ← hmehr]
      · simpa [weiter, ← hmehr] using (List.nodup_cons.mp hnd).1
  | raumLoeschen coid rest n =>
      simp only [weiter] at h ⊢
      cases rest with
      | nil => simp [raumSchleife] at h
      | cons d rest =>
          simp only [raumSchleife, Sum.inl.injEq] at h
          subst h
          exact ⟨hp.1, rfl⟩

/-- The outline of the outbox: the store is in order, and every section knows
what its point says. -/
theorem outboxGliederung : outboxProgramm.ProofOutline Ablage.Ordentlich
    fun k p a => p.auftrag = k ∧ p.weiss a where
  entry k a _ := by cases k <;> exact ⟨rfl, trivial⟩
  keeps _ _ _ ha hp := (weiter_wirkung ha hp.2).ordentlich ha
  leads _ _ _ _ ha hp h := by
    obtain ⟨hw, hs⟩ := weiter_weiss ha hp.2 h
    exact ⟨hs.trans hp.1, hw⟩
  undisturbed _ p _ p' _ ha hp hp' hne := by
    refine ⟨hp'.1, (weiter_wirkung ha hp.2).weiss ?_ hp'.2⟩
    rw [Stelle.sperrname, Stelle.sperrname, hp.1, hp'.1]
    exact hne

/-- The outline holds in every configuration an exclusive run from the empty
store reaches. -/
theorem gliederung_gilt {G : Konf → Aktion → Prop} {c : Konf}
    (hc : (outboxProgramm.exclusive (· = Ablage.leer) G).Reach c) :
    LeaseProgram.Annotated Ablage.Ordentlich (fun k p a => p.auftrag = k ∧ p.weiss a) c := by
  refine outboxGliederung.sound _ ?_ hc
  rintro a rfl
  exact ordentlich_leer

/-- What a step of a reached configuration does to the store: nothing, or the
effect of the port call it makes. -/
theorem schritt_wirkung {G : Konf → Aktion → Prop} {c c' : Konf} {a : Aktion}
    (hc : (outboxProgramm.exclusive (· = Ablage.leer) G).Reach c)
    (h : outboxProgramm.act c a = some c') :
    c'.store = c.store ∨
      ∃ t f p, a = .store t ∧ c.calls t = .inside p.auftrag f p ∧ p.weiss c.store ∧
        c'.store = (weiter c.store p).1 := by
  cases LeaseProgram.Step.of_act _ h with
  | time | begin | wait | giveUp | raise | crash => exact .inl rfl
  | acquire | release => exact .inl rfl
  | @store t k f p s' p' hin hn | @finish t k f p s' r hin hn =>
      obtain ⟨rfl, hw⟩ := (gliederung_gilt hc).2 t k f p hin
      exact .inr ⟨t, f, p, rfl, hin, hw, (congrArg Prod.fst hn).symm⟩

/-! ## Sections alone

A section nobody interferes with computes the operation of `Ablage`. -/

/-- A section run to its end with no other port call in between. -/
inductive Ablauf : Ablage → Stelle → Ablage → Ergebnis → Prop where
  | ende {a p a' r} : weiter a p = (a', .inr r) → Ablauf a p a' r
  | weiter {a p a' r} (b : Ablage) (q : Stelle) : Outbox.weiter a p = (b, .inl q) →
      Ablauf b q a' r → Ablauf a p a' r

theorem ablauf_raeumeKopf (coid : String) (rest : List String) (a : Ablage) (n : Nat) :
    Ablauf a (.raumLesen coid rest n) (a.raeumeKopf (coid :: rest) n).2
      (.anzahl (a.raeumeKopf (coid :: rest) n).1) := by
  induction rest generalizing coid a n with
  | nil =>
      by_cases h : a.raeumbar coid = true
      · refine .weiter a (.raumPop coid [] n) (by simp [weiter, h]) ?_
        refine .weiter a.pop (.raumLoeschen coid [] n) rfl (.ende ?_)
        simp [weiter, raumSchleife, Ablage.raeumeKopf, h]
      · exact .ende (by simp [weiter, Ablage.raeumeKopf, h])
  | cons d rest ih =>
      by_cases h : a.raeumbar coid = true
      · refine .weiter a (.raumPop coid (d :: rest) n) (by simp [weiter, h]) ?_
        refine .weiter a.pop (.raumLoeschen coid (d :: rest) n) rfl ?_
        refine .weiter (a.pop.delete coid) (.raumLesen d rest (n + 1)) rfl ?_
        have hstep : a.raeumeKopf (coid :: d :: rest) n =
            (a.pop.delete coid).raeumeKopf (d :: rest) (n + 1) := by
          conv_lhs => rw [Ablage.raeumeKopf.eq_def]
          simp [h]
        rw [hstep]
        exact ih d (a.pop.delete coid) (n + 1)
      · exact .ende (by simp [weiter, Ablage.raeumeKopf, h])

def Auftrag.allein (a : Ablage) : Auftrag → Ergebnis × Ablage
  | .festschreiben e => (a.festschreiben true e).map .erfolg id
  | .melde coid m => (a.schreibeFort true coid m).map .erfolg id
  | .aufraeumen => (a.aufraeumen true).map .anzahl id

theorem ablauf_allein (a : Ablage) (k : Auftrag) :
    Ablauf a k.eintritt (k.allein a).2 (k.allein a).1 := by
  cases k with
  | festschreiben e =>
      by_cases h : (a.get e.clientOrderId).isSome = true
      · exact .ende (by simp [Auftrag.eintritt, weiter, Auftrag.allein, Ablage.festschreiben, h])
      · refine .weiter a (.festSetzen e) (by simp [Auftrag.eintritt, weiter, h]) ?_
        refine .weiter _ (.festAnhaengen e) rfl (.ende ?_)
        simp [weiter, Auftrag.allein, Ablage.festschreiben, h, offenerEintrag]
  | melde coid m =>
      cases he : a.lese coid with
      | none =>
          exact .ende (by
            simp [Auftrag.eintritt, weiter, Auftrag.allein, Ablage.schreibeFort, he])
      | some e =>
          by_cases h : m.ziel.rang ≤ e.zustand.rang
          · exact .ende (by
              simp [Auftrag.eintritt, weiter, Auftrag.allein, Ablage.schreibeFort, he, h])
          · refine .weiter a (.fortSetzen coid m e)
              (by simp [Auftrag.eintritt, weiter, he, h]) (.ende ?_)
            simp [weiter, Auftrag.allein, Ablage.schreibeFort, he, h]
  | aufraeumen =>
      cases hr : a.read with
      | nil =>
          exact .ende (by simp [Auftrag.eintritt, weiter, raumSchleife, Auftrag.allein,
            Ablage.aufraeumen, Ablage.raeumeKopf, hr])
      | cons coid rest =>
          refine .weiter a (.raumLesen coid rest 0)
            (by simp [Auftrag.eintritt, weiter, raumSchleife, hr]) ?_
          simpa [Auftrag.allein, Ablage.aufraeumen, hr] using ablauf_raeumeKopf coid rest a 0

end Outbox
