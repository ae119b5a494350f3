import AutonomousEngine.Basis.Transition
import AutonomousEngine.State.Soll

/-!
# The two backends side by side

The same operations run on both backends at the same times.  Whether they answer
alike is told from the operations so far (`soll`).  They do as long as none of
these is met (`Vertraeglich`):

* the two ends of a time to live, the exact one and the one in milliseconds, are
  on different sides of the clock (`FristEinig`);
* a value whose time is over is deleted, released or broken, where SQLite still
  finds its row and Redis does not (`OhneRest`);
* a counter with a time to live is incremented without one, where SQLite drops
  the expiry and Redis keeps it;
* a counter is read as a text, where SQLite has what Python writes and Redis what
  its own arithmetic writes (`Inhalt.EinText`), or the two sums differ
  (`Inhalt.EineZahl`);
* one key is used for a value and for a queue (`OhneQueue`, `OhneWert`);
* a queue is bounded by less than one;
* a lock meets its own token under a key without a time to live.

Both stores follow the store behind the port (`Gepaart`), and every compatible
operation keeps that.  That the results are the same is read off it.
-/

namespace State

open Basis

/-! ## What the two stores have -/

def Eintrag.zeile (R : Rechnung) (e : Eintrag R.F) : Option Zeile :=
  (e.python R).map fun value => ⟨value, e.frist.map fun f => f.1 + f.2⟩

def Eintrag.due {F : Type} (e : Eintrag F) : Option Int :=
  e.frist.map fun f => millis f.1 + ttlMillis f.2

def Redis.liste (r : Redis) (key : String) : List String :=
  match r key with
  | some (.liste entries) => entries
  | _ => []

def Redis.OhneText (r : Redis) (key : String) : Prop :=
  ∀ value due, r key ≠ some (.text value due)

/-- What the two stores have of an entry.  Redis may have put a queue in the place
of a text whose time was over. -/
structure Hat (R : Rechnung) (s : Sqlite) (r : Redis) (jetzt : ℚ) (key : String)
    (e : Eintrag R.F) : Prop where
  zeile : (e.python R).isSome ∧ s.engineState key = e.zeile R
  text : (∃ value, e.redis R = some value ∧ r key = some (.text value e.due)) ∨
    r.OhneText key ∧ e.Vorbei jetzt ∧ e.VorbeiMs jetzt

/-- What the two stores have under one key. -/
structure Gepaart (R : Rechnung) (s : Sqlite) (r : Redis) (l : Soll R.F) (jetzt : ℚ)
    (key : String) : Prop where
  leer : l.werte key = none → s.engineState key = none ∧ r.OhneText key
  wert : ∀ e, l.werte key = some e → Hat R s r jetzt key e
  queue : s.engineStateQueue key = l.queues key
  liste : r.liste key = l.queues key
  nichtLeer : r key ≠ some (.liste [])

/-- The two stores follow the store behind the port. -/
def Gleich (R : Rechnung) (s : Sqlite) (r : Redis) (l : Soll R.F) (jetzt : ℚ) : Prop :=
  ∀ key, Gepaart R s r l jetzt key

/-! ## Conditions on an operation -/

section Bedingungen

variable (R : Rechnung) (l : Soll R.F) (jetzt : ℚ) (key : String)

def OhneQueue : Prop := l.queues key = []

def OhneWert : Prop := ∀ e, l.werte key = some e → e.Vorbei jetzt ∧ e.VorbeiMs jetzt

/-- The two ends of the time to live are both past or both ahead. -/
def FristEinig : Prop := ∀ e, l.werte key = some e → e.Einig jetzt

def EinText : Prop := ∀ e, l.lebt jetzt key = some e → e.EinText R

/-- A value that belongs to the token has a time to live. -/
def MitFrist (token : String) : Prop :=
  ∀ e, l.lebt jetzt key = some e → e.python R = some token → e.frist ≠ none

def OhneRest : Prop := ∀ e, l.werte key = some e → ¬e.Vorbei jetzt

/-- None is left that belongs to the token. -/
def TokenOhneRest (token : String) : Prop :=
  ∀ e, l.werte key = some e → e.python R = some token → ¬e.Vorbei jetzt

/-- A value of the key has no time to live. -/
def OhneFrist : Prop := ∀ e, l.lebt jetzt key = some e → e.frist = none

end Bedingungen

/-- When an operation meets nothing the backends treat differently. -/
def Vertraeglich (R : Rechnung) (l : Soll R.F) (jetzt : ℚ) : Operation R.F → Prop
  | .get key => OhneQueue R l key ∧ FristEinig R l jetzt key ∧ EinText R l jetzt key
  | .set key _ _ => OhneQueue R l key
  | .delete key => OhneQueue R l key ∧ FristEinig R l jetzt key ∧ OhneRest R l jetzt key
  | .increment key amount ttl =>
      OhneQueue R l key ∧ FristEinig R l jetzt key ∧ (ttl = none → OhneFrist R l jetzt key) ∧
        ((l.inhalt jetzt key).plus R amount).EineZahl R
  | .append key _ maxLength => OhneWert R l jetzt key ∧ ∀ m, maxLength = some m → 1 ≤ m
  | .read key => ∀ e, l.werte key = some e → e.VorbeiMs jetzt
  | .pop key => ∀ e, l.werte key = some e → e.VorbeiMs jetzt
  | .acquire name _ _ => OhneQueue R l (lockKey name) ∧ FristEinig R l jetzt (lockKey name)
  | .renew name token _ =>
      OhneQueue R l (lockKey name) ∧ FristEinig R l jetzt (lockKey name) ∧
        EinText R l jetzt (lockKey name) ∧ MitFrist R l jetzt (lockKey name) token
  | .held name token =>
      OhneQueue R l (lockKey name) ∧ FristEinig R l jetzt (lockKey name) ∧
        EinText R l jetzt (lockKey name) ∧ MitFrist R l jetzt (lockKey name) token
  | .release name token =>
      OhneQueue R l (lockKey name) ∧ FristEinig R l jetzt (lockKey name) ∧
        EinText R l jetzt (lockKey name) ∧ TokenOhneRest R l jetzt (lockKey name) token
  | .brechen name token fremdes =>
      fremdes = "" ∨ fremdes = token ∨
        OhneQueue R l (lockKey name) ∧ FristEinig R l jetzt (lockKey name) ∧
          EinText R l jetzt (lockKey name) ∧ TokenOhneRest R l jetzt (lockKey name) fremdes

/-! ## Time -/

theorem millis_mono {t t' : ℚ} (h : t ≤ t') : millis t ≤ millis t' :=
  Int.floor_mono (mul_le_mul_of_nonneg_right h (by norm_num))

section Zeit

variable {R : Rechnung} {s : Sqlite} {r : Redis} {l : Soll R.F} {e : Eintrag R.F} {t t' : ℚ}

theorem Eintrag.Vorbei.mono (h : e.Vorbei t) (ht : t ≤ t') : e.Vorbei t' := by
  obtain ⟨f, hf, hle⟩ := h
  exact ⟨f, hf, le_trans hle ht⟩

theorem Eintrag.VorbeiMs.mono (h : e.VorbeiMs t) (ht : t ≤ t') : e.VorbeiMs t' := by
  obtain ⟨f, hf, hlt⟩ := h
  exact ⟨f, hf, lt_of_lt_of_le hlt (millis_mono ht)⟩

theorem Gleich.mono (h : Gleich R s r l t) (ht : t ≤ t') : Gleich R s r l t' := fun key =>
  ⟨(h key).leer, fun e he =>
    ⟨((h key).wert e he).zeile,
      ((h key).wert e he).text.imp_right fun ⟨hr, hv, hm⟩ => ⟨hr, hv.mono ht, hm.mono ht⟩⟩,
    (h key).queue, (h key).liste, (h key).nichtLeer⟩

/-- Redis drops a text when its time is over in milliseconds. -/
theorem verfallen_due_iff : Verfallen e.due t ↔ e.VorbeiMs t := by
  simp [Verfallen, Eintrag.due, Eintrag.VorbeiMs]

/-- SQLite passes over a row when its time is over. -/
theorem abgelaufen_iff {value : String} :
    Zeile.Abgelaufen ⟨value, e.frist.map fun f => f.1 + f.2⟩ t ↔ e.Vorbei t := by
  simp [Zeile.Abgelaufen, Eintrag.Vorbei]

end Zeit

/-! ## One key -/

section Schluessel

variable {R : Rechnung} {s s' : Sqlite} {r r' : Redis} {l l' : Soll R.F} {key : String} {jetzt : ℚ}

/-- What an operation on a value finds: nothing on both sides, or the same entry. -/
inductive Ansicht (R : Rechnung) (s : Sqlite) (r : Redis) (l : Soll R.F) (jetzt : ℚ)
    (key : String) : Prop where
  | nichts (hl : l.lebt jetzt key = none)
      (hs : ∀ z, s.engineState key = some z → z.Abgelaufen jetzt ∧
        ∃ e, l.werte key = some e ∧ e.Vorbei jetzt ∧ e.python R = some z.value)
      (hr : r.lies key jetzt = none)
  | eintrag (e : Eintrag R.F) (z : Zeile) (value : String) (hl : l.lebt jetzt key = some e)
      (hz : s.engineState key = some z) (hz' : e.zeile R = some z) (hab : ¬z.Abgelaufen jetzt)
      (hpy : e.python R = some z.value) (hre : e.redis R = some value)
      (hr : r.lies key jetzt = some (.text value e.due))

theorem Redis.lies_of_ohneText (h : r.OhneText key) (hl : r.liste key = [])
    (hn : r key ≠ some (.liste [])) : r.lies key jetzt = none := by
  unfold Redis.liste at hl
  unfold Redis.lies
  cases hr : r key with
  | none => rfl
  | some w =>
      cases w with
      | text value due => exact absurd hr (h value due)
      | liste entries =>
          simp only [hr] at hl
          exact absurd (hl ▸ hr) hn

/-- Under a key without a queue both sides find the same. -/
theorem Gepaart.ansicht (h : Gepaart R s r l jetzt key) (hq : OhneQueue R l key)
    (hf : FristEinig R l jetzt key) : Ansicht R s r l jetzt key := by
  have hliste : r.liste key = [] := h.liste.trans hq
  cases he : l.werte key with
  | none =>
      obtain ⟨hs, hr⟩ := h.leer he
      exact .nichts (by simp [Soll.lebt, he]) (by simp [hs])
        (Redis.lies_of_ohneText hr hliste h.nichtLeer)
  | some e =>
      obtain ⟨⟨hpy, hz⟩, htext⟩ := h.wert e he
      obtain ⟨value, hpy⟩ := Option.isSome_iff_exists.mp hpy
      have hz' : e.zeile R = some ⟨value, e.frist.map fun f => f.1 + f.2⟩ := by
        simp [Eintrag.zeile, hpy]
      rw [hz'] at hz
      by_cases hv : e.Vorbei jetzt
      · have hms : e.VorbeiMs jetzt := (hf e he).mp hv
        refine .nichts (by simp [Soll.lebt, he, hv]) (fun z hz'' => ?_) ?_
        · obtain rfl := Option.some.inj (hz.symm.trans hz'')
          exact ⟨abgelaufen_iff.mpr hv, e, he, hv, hpy⟩
        · rcases htext with ⟨text, -, hr⟩ | ⟨hr, -, -⟩
          · simp [Redis.lies, hr, verfallen_due_iff.mpr hms]
          · exact Redis.lies_of_ohneText hr hliste h.nichtLeer
      · rcases htext with ⟨text, hre, hr⟩ | ⟨-, hv', -⟩
        · have hms : ¬Verfallen e.due jetzt := fun hd =>
            hv ((hf e he).mpr (verfallen_due_iff.mp hd))
          exact .eintrag e _ text (by simp [Soll.lebt, he, hv]) hz hz'
            (fun hab => hv (abgelaufen_iff.mp hab)) hpy hre (by simp [Redis.lies, hr, hms])
        · exact absurd hv' hv

/-- An operation on one key leaves the others alone. -/
theorem Gleich.an (h : Gleich R s r l jetzt)
    (hs : ∀ k, k ≠ key → s'.engineState k = s.engineState k)
    (hq : ∀ k, k ≠ key → s'.engineStateQueue k = s.engineStateQueue k)
    (hr : ∀ k, k ≠ key → r' k = r k) (hw : ∀ k, k ≠ key → l'.werte k = l.werte k)
    (hlq : ∀ k, k ≠ key → l'.queues k = l.queues k) (hk : Gepaart R s' r' l' jetzt key) :
    Gleich R s' r' l' jetzt := by
  intro k
  by_cases heq : k = key
  · exact heq ▸ hk
  · obtain ⟨hleer, hwert, hqueue, hliste, hn⟩ := h k
    have htext : r'.OhneText k ↔ r.OhneText k := by simp only [Redis.OhneText, hr k heq]
    refine ⟨fun hnone => ?_, fun e he => ?_, ?_, ?_, ?_⟩
    · rw [hs k heq, htext]
      exact hleer (hw k heq ▸ hnone)
    · obtain ⟨hz, ht⟩ := hwert e (hw k heq ▸ he)
      exact ⟨hs k heq ▸ hz, by rwa [htext, hr k heq]⟩
    · rw [hq k heq, hlq k heq, hqueue]
    · rw [hlq k heq, ← hliste, Redis.liste, Redis.liste, hr k heq]
    · rwa [hr k heq]

theorem Gleich.schreibe {e : Eintrag R.F} {z : Zeile} {value : String}
    (h : Gleich R s r l jetzt) (hq : OhneQueue R l key) (hz : e.zeile R = some z)
    (hre : e.redis R = some value) {due : Option Int} (hdue : due = e.due) :
    Gleich R (s.schreibe key z) (r.schreibe key (.text value due)) (l.schreibe key (some e))
      jetzt := by
  subst hdue
  refine h.an (fun k hk => Sqlite.schreibe_of_ne s key z hk) (fun _ _ => rfl)
    (fun k hk => Redis.schreibe_of_ne r key _ hk) (fun k hk => l.schreibe_of_ne _ hk)
    (fun _ _ => rfl) ⟨by simp, fun e' he' => ?_, ?_, ?_, by simp⟩
  · obtain rfl : e = e' := by simpa using he'
    have hpy : (e.python R).isSome := by
      obtain ⟨value, hv, -⟩ := Option.map_eq_some_iff.mp hz
      exact Option.isSome_of_mem hv
    exact ⟨⟨hpy, by simp [hz]⟩, .inl ⟨value, hre, by simp⟩⟩
  · exact (h key).queue
  · simpa [Redis.liste, Soll.schreibe] using hq.symm

theorem Gleich.loesche (h : Gleich R s r l jetzt) (hq : OhneQueue R l key) :
    Gleich R (s.loesche key) (r.loesche key) (l.schreibe key none) jetzt := by
  refine h.an (fun k hk => Sqlite.loesche_of_ne s key hk) (fun _ _ => rfl)
    (fun k hk => Redis.loesche_of_ne r key hk) (fun k hk => l.schreibe_of_ne _ hk)
    (fun _ _ => rfl) ⟨fun _ => ⟨by simp, by simp [Redis.OhneText]⟩, by simp, ?_, ?_, by simp⟩
  · exact (h key).queue
  · simpa [Redis.liste, Soll.schreibe] using hq.symm

end Schluessel

/-! ## The operations -/

section Operationen

variable {R : Rechnung} {s : Sqlite} {r : Redis} {l : Soll R.F} {key : String} {jetzt : ℚ}

theorem get_gleich (ha : Ansicht R s r l jetzt key) (ht : EinText R l jetzt key) :
    r.get key jetzt = some (s.get key jetzt) := by
  cases ha with
  | nichts hl hs hr =>
      have hget : s.get key jetzt = none := by
        unfold Sqlite.get
        split
        next => rfl
        next z hz => exact if_pos (hs z hz).1
      simp [Redis.get, hr, hget]
  | eintrag e z value hl hz hz' hab hpy hre hr =>
      have heq : z.value = value := Option.some.inj (hpy.symm.trans ((ht e hl).eq.trans hre))
      simp [Redis.get, hr, Sqlite.get, hz, hab, heq]

/-- Both find something to delete or neither does. -/
theorem delete_gleich (h : Gleich R s r l jetzt) (hq : OhneQueue R l key)
    (hf : FristEinig R l jetzt key) (ho : OhneRest R l jetzt key) :
    (s.delete key).2 = (r.delete key jetzt).2 ∧
      Gleich R (s.delete key).1 (r.delete key jetzt).1 (l.schreibe key none) jetzt := by
  refine ⟨?_, h.loesche hq⟩
  cases (h key).ansicht hq hf with
  | nichts hl hs hr =>
      have hz : s.engineState key = none := by
        cases hz : s.engineState key with
        | none => rfl
        | some z =>
            obtain ⟨-, e, he, hv, -⟩ := hs z hz
            exact absurd hv (ho e he)
      simp [Sqlite.delete, Redis.delete, hz, hr]
  | eintrag e z value hl hz hz' hab hpy hre hr => simp [Sqlite.delete, Redis.delete, hz, hr]

theorem acquire_gleich (h : Gleich R s r l jetzt) (hq : OhneQueue R l key)
    (hf : FristEinig R l jetzt key) (token : String) (ttl : ℚ) :
    (s.acquire key token ttl jetzt).2 = (r.acquire key jetzt token ttl).2 ∧
      Gleich R (s.acquire key token ttl jetzt).1 (r.acquire key jetzt token ttl).1
        (if (l.lebt jetzt key).isSome then l
          else l.schreibe key (some ⟨⟨some token, []⟩, some (jetzt, ttl)⟩)) jetzt := by
  cases (h key).ansicht hq hf with
  | nichts hl hs hr =>
      have hacq : s.acquire key token ttl jetzt =
          (s.schreibe key ⟨token, some (jetzt + ttl)⟩, true) := by
        unfold Sqlite.acquire
        split
        next => rfl
        next z hz => exact if_pos (hs z hz).1
      have hneu : Gleich R (s.schreibe key ⟨token, some (jetzt + ttl)⟩)
          (r.schreibe key (.text token (some (millis jetzt + ttlMillis ttl))))
          (l.schreibe key (some ⟨⟨some token, []⟩, some (jetzt, ttl)⟩)) jetzt :=
        h.schreibe hq rfl rfl rfl
      simpa [hacq, Redis.acquire, hr, hl] using hneu
  | eintrag e z value hl hz hz' hab hpy hre hr =>
      simpa [Sqlite.acquire, hz, hab, Redis.acquire, hr, hl] using h

/-- A row that has an expiry and is not past it has time left. -/
theorem Zeile.befristet_of_ne_none {z : Zeile} (h : z.expiresAt ≠ none) (hab : ¬z.Abgelaufen jetzt) :
    z.Befristet jetzt := by
  obtain ⟨d, hd⟩ := Option.ne_none_iff_exists'.mp h
  exact ⟨d, hd, lt_of_not_ge fun hle => hab ⟨d, hd, hle⟩⟩

theorem Zeile.Abgelaufen.not_befristet {z : Zeile} (h : z.Abgelaufen jetzt) :
    ¬z.Befristet jetzt := fun hb => hb.not_abgelaufen le_rfl h

/-- What the token's row needs besides, when the token has a time to live. -/
theorem befristet_of_mitFrist {e : Eintrag R.F} {z : Zeile} {token : String}
    (hm : MitFrist R l jetzt key token) (hl : l.lebt jetzt key = some e) (hz : e.zeile R = some z)
    (hab : ¬z.Abgelaufen jetzt) (hpy : e.python R = some token) : z.Befristet jetzt := by
  obtain ⟨value, -, rfl⟩ := Option.map_eq_some_iff.mp hz
  exact Zeile.befristet_of_ne_none (by simpa using hm e hl hpy) hab

theorem gehoert_iff {e : Eintrag R.F} {z : Zeile} {token : String} (hl : l.lebt jetzt key = some e)
    (hpy : e.python R = some z.value) : l.Gehoert jetzt key token ↔ z.value = token := by
  simp [Soll.Gehoert, hl, hpy]

theorem not_gehoert {token : String} (hl : l.lebt jetzt key = none) :
    ¬l.Gehoert jetzt key token := by
  simp [Soll.Gehoert, hl]

theorem renew_gleich (h : Gleich R s r l jetzt) (hq : OhneQueue R l key)
    (hf : FristEinig R l jetzt key) (ht : EinText R l jetzt key) {token : String}
    (hm : MitFrist R l jetzt key token) (ttl : ℚ) :
    .wahr (s.renew key token ttl jetzt).2 = (r.renew (F := R.F) key jetzt token ttl).2 ∧
      Gleich R (s.renew key token ttl jetzt).1 (r.renew (F := R.F) key jetzt token ttl).1
        (if l.Gehoert jetzt key token then
          l.schreibe key ((l.werte key).map fun e => { e with frist := some (jetzt, ttl) })
        else l) jetzt := by
  have hget := get_gleich ((h key).ansicht hq hf) ht
  cases (h key).ansicht hq hf with
  | nichts hl hs hr =>
      have hren : s.renew key token ttl jetzt = (s, false) := by
        unfold Sqlite.renew
        split
        next => rfl
        next z hz => exact if_neg fun hb => (hs z hz).1.not_befristet hb.2
      have hkein : s.get key jetzt = none := by
        simpa [Redis.get, hr] using hget.symm
      rw [hren, if_neg (not_gehoert hl)]
      simpa [Redis.renew, Redis.wennGehoert, hget, hkein] using h
  | eintrag e z value hl hz hz' hab hpy hre hr =>
      have hsget : s.get key jetzt = some z.value := by simp [Sqlite.get, hz, hab]
      by_cases hval : z.value = token
      · have hb : z.Befristet jetzt := befristet_of_mitFrist hm hl hz' hab (hval ▸ hpy)
        have hre' : e.redis R = some token := by rw [← (ht e hl).eq, hpy, hval]
        have he : l.werte key = some e := (l.lebt_eq_some_iff.mp hl).1
        have hzeile : Eintrag.zeile R { e with frist := some (jetzt, ttl) } =
            some { z with expiresAt := some (jetzt + ttl) } := by
          obtain ⟨value, hv, rfl⟩ := Option.map_eq_some_iff.mp hz'
          simp [Eintrag.zeile, hv]
        have hdue : some (millis jetzt + ttlMillis ttl) =
            ({ e with frist := some (jetzt, ttl) } : Eintrag R.F).due := rfl
        have hneu := h.schreibe hq hzeile hre' hdue
        rw [if_pos ((gehoert_iff hl hpy).mpr hval), he]
        simpa [Sqlite.renew, hz, hval, hb, Redis.renew, Redis.wennGehoert, hget, hsget] using hneu
      · rw [if_neg fun hg => hval ((gehoert_iff hl hpy).mp hg)]
        simpa [Sqlite.renew, hz, hval, Redis.renew, Redis.wennGehoert, hget, hsget] using h

theorem held_gleich (ha : Ansicht R s r l jetzt key) (ht : EinText R l jetzt key) {token : String}
    (hm : MitFrist R l jetzt key token) :
    .wahr (s.held key token jetzt) = r.held (F := R.F) key jetzt token := by
  have hget := get_gleich ha ht
  cases ha with
  | nichts hl hs hr =>
      have hkein : s.get key jetzt = none := by
        simpa [Redis.get, hr] using hget.symm
      have hheld : s.held key token jetzt = false := by
        rw [Bool.eq_false_iff, ne_eq, Sqlite.held_iff]
        rintro ⟨z, hz, -, hb⟩
        exact (hs z hz).1.not_befristet hb
      simp [Redis.held, hget, hkein, hheld]
  | eintrag e z value hl hz hz' hab hpy hre hr =>
      have hsget : s.get key jetzt = some z.value := by simp [Sqlite.get, hz, hab]
      by_cases hval : z.value = token
      · have hb : z.Befristet jetzt := befristet_of_mitFrist hm hl hz' hab (hval ▸ hpy)
        simp [Sqlite.held, hz, hval, hb, Redis.held, hget, hsget]
      · simp [Sqlite.held, hz, hval, Redis.held, hget, hsget]

theorem release_gleich (h : Gleich R s r l jetzt) (hq : OhneQueue R l key)
    (hf : FristEinig R l jetzt key) (ht : EinText R l jetzt key) {token : String}
    (ho : TokenOhneRest R l jetzt key token) :
    .wahr (s.release key token).2 = (r.release (F := R.F) key jetzt token).2 ∧
      Gleich R (s.release key token).1 (r.release (F := R.F) key jetzt token).1
        (if l.Gehoert jetzt key token then l.schreibe key none else l) jetzt := by
  have hget := get_gleich ((h key).ansicht hq hf) ht
  cases (h key).ansicht hq hf with
  | nichts hl hs hr =>
      have hrel : s.release key token = (s, false) := by
        unfold Sqlite.release
        split
        next => rfl
        next z hz =>
          refine if_neg fun hval => ?_
          obtain ⟨-, e, he, hv, hpy⟩ := hs z hz
          exact ho e he (hval ▸ hpy) hv
      have hkein : s.get key jetzt = none := by
        simpa [Redis.get, hr] using hget.symm
      rw [hrel, if_neg (not_gehoert hl)]
      simpa [Redis.release, Redis.wennGehoert, hget, hkein] using h
  | eintrag e z value hl hz hz' hab hpy hre hr =>
      have hsget : s.get key jetzt = some z.value := by simp [Sqlite.get, hz, hab]
      by_cases hval : z.value = token
      · rw [if_pos ((gehoert_iff hl hpy).mpr hval)]
        simpa [Sqlite.release, hz, hval, Redis.release, Redis.wennGehoert, hget, hsget] using
          h.loesche hq
      · rw [if_neg fun hg => hval ((gehoert_iff hl hpy).mp hg)]
        simpa [Sqlite.release, hz, hval, Redis.release, Redis.wennGehoert, hget, hsget] using h

/-- What an addition starts from on each side: the number of the text in SQLite,
the text in Redis, and the expiry Redis keeps. -/
theorem Ansicht.inhalt (ha : Ansicht R s r l jetzt key) :
    s.stand key R jetzt = (l.inhalt jetzt key).summe R ∧
      ∃ due, (∀ e, l.lebt jetzt key = some e → e.due = due) ∧ (l.lebt jetzt key = none → due = none) ∧
        ∀ amount ttl, r.increment key jetzt R amount ttl =
          match ((l.inhalt jetzt key).plus R amount).redis R with
          | none => (r, .fehler)
          | some neu => (r.schreibe key (.text neu (Redis.faelligNach jetzt ttl due)),
              (R.float neu).elim .fehler .zahl) := by
  cases ha with
  | nichts hl hs hr =>
      have hget : s.get key jetzt = none := by
        unfold Sqlite.get
        split
        next => rfl
        next z hz => exact if_pos (hs z hz).1
      refine ⟨by simp [Sqlite.stand, hget, Soll.inhalt, hl, Inhalt.summe], none, by simp [hl],
        fun _ => rfl, fun amount ttl => ?_⟩
      rw [Inhalt.redis_plus]
      rw [Redis.increment, hr, Soll.inhalt, hl]
      rfl
  | eintrag e z value hl hz hz' hab hpy hre hr =>
      have hget : s.get key jetzt = some z.value := by simp [Sqlite.get, hz, hab]
      have hi : l.inhalt jetzt key = e.toInhalt := by simp [Soll.inhalt, hl]
      refine ⟨by simp [Sqlite.stand, hget, hi, Inhalt.float_python hpy], e.due, by simp [hl],
        by simp [hl], fun amount ttl => ?_⟩
      rw [Inhalt.redis_plus, hi, hre]
      cases hneu : R.incrbyfloat (some value) (R.repr amount) with
      | none => simp [Redis.increment, hr, hneu]
      | some neu => simp [Redis.increment, hr, hneu]

/-- Both count to the same number, or neither has a counter. -/
theorem increment_gleich (h : Gleich R s r l jetzt) (hq : OhneQueue R l key)
    (hf : FristEinig R l jetzt key) {amount : R.F} {ttl : Option ℚ}
    (ho : ttl = none → OhneFrist R l jetzt key)
    (hz : ((l.inhalt jetzt key).plus R amount).EineZahl R) :
    (s.increment key R amount ttl jetzt).2 = (r.increment key jetzt R amount ttl).2 ∧
      Gleich R (s.increment key R amount ttl jetzt).1 (r.increment key jetzt R amount ttl).1
        (if ((l.inhalt jetzt key).summe R).isSome then
          l.schreibe key (some ⟨(l.inhalt jetzt key).plus R amount, ttl.map (jetzt, ·)⟩)
        else l) jetzt := by
  obtain ⟨hstand, due, hdue, hdue', hred⟩ := ((h key).ansicht hq hf).inhalt
  rw [hred]
  unfold Inhalt.EineZahl at hz
  rw [Inhalt.summe_plus] at hz
  cases hs : (l.inhalt jetzt key).summe R with
  | none =>
      -- what Redis writes is a number, so it writes nothing either
      have hnone : ((l.inhalt jetzt key).plus R amount).redis R = none := by
        cases hneu : ((l.inhalt jetzt key).plus R amount).redis R with
        | none => rfl
        | some neu =>
            have hfl := R.float_incrbyfloat _ _ _ (Inhalt.redis_plus (R := R) amount ▸ hneu)
            simp [hneu, hs] at hz
            simp [hz] at hfl
      simpa [Sqlite.increment, hstand, hs, hnone] using h
  | some stand =>
      obtain ⟨neu, hneu, hfl⟩ : ∃ neu, ((l.inhalt jetzt key).plus R amount).redis R = some neu ∧
          R.float neu = some (R.add stand amount) := by
        simpa [hs, Option.bind_eq_some_iff] using hz
      have hpy : ((l.inhalt jetzt key).plus R amount).python R =
          some (R.repr (R.add stand amount)) := by
        simp [Inhalt.python_plus, hs]
      have hfrist : Redis.faelligNach jetzt ttl due =
          Eintrag.due (F := R.F) ⟨(l.inhalt jetzt key).plus R amount, ttl.map (jetzt, ·)⟩ := by
        cases ttl with
        | some ttl => simp [Redis.faelligNach, Eintrag.due]
        | none =>
            cases hl : l.lebt jetzt key with
            | none => simp [Redis.faelligNach, Eintrag.due, hdue' hl]
            | some e => simp [Redis.faelligNach, ← hdue e hl, Eintrag.due, ho rfl e hl]
      have hneu' := h.schreibe (z := ⟨R.repr (R.add stand amount), Sqlite.frist ttl jetzt⟩) hq
        (by simp [Eintrag.zeile, hpy, Sqlite.frist, Function.comp_def]) hneu hfrist
      simpa [Sqlite.increment, hstand, hs, hneu, hfl] using hneu'

/-! ### Queues -/

@[simp] theorem Redis.mitListe_self (entries : List String) :
    r.mitListe key entries key = if entries = [] then none else some (.liste entries) := by
  unfold Redis.mitListe
  split <;> simp

theorem Redis.mitListe_of_ne {k : String} (entries : List String) (hk : k ≠ key) :
    r.mitListe key entries k = r k := by
  unfold Redis.mitListe
  split
  next => exact Redis.loesche_of_ne r key hk
  next => exact Redis.schreibe_of_ne r key _ hk

theorem Redis.ohneText_mitListe (entries : List String) :
    (r.mitListe key entries).OhneText key := by
  intro value due
  rw [Redis.mitListe_self]
  split <;> simp

/-- Both write a queue, under a key without a value. -/
theorem Gleich.mitListe (h : Gleich R s r l jetzt) (hw : OhneWert R l jetzt key)
    (entries : List String) :
    Gleich R (s.mitQueue key entries) (r.mitListe key entries) (l.mitQueue key entries) jetzt := by
  refine h.an (fun _ _ => rfl) (fun k hk => by simp [Sqlite.mitQueue, hk])
    (fun k hk => Redis.mitListe_of_ne entries hk) (fun _ _ => rfl)
    (fun k hk => l.mitQueue_of_ne entries hk) ⟨fun hn => ?_, fun e he => ?_, ?_, ?_, ?_⟩
  · exact ⟨((h key).leer hn).1, Redis.ohneText_mitListe entries⟩
  · exact ⟨((h key).wert e he).zeile, .inr ⟨Redis.ohneText_mitListe entries, hw e he⟩⟩
  · simp [Sqlite.mitQueue]
  · rw [Redis.liste, Redis.mitListe_self]
    by_cases he : entries = [] <;> simp [he]
  · rw [Redis.mitListe_self]
    by_cases he : entries = [] <;> simp [he]

/-- What Redis finds where no value is left: the queue. -/
theorem Gleich.lies (h : Gleich R s r l jetzt)
    (hw : ∀ e, l.werte key = some e → e.VorbeiMs jetzt) :
    r.lies key jetzt = none ∧ l.queues key = [] ∨
      r.lies key jetzt = some (.liste (l.queues key)) ∧ l.queues key ≠ [] ∧
        OhneWert R l jetzt key := by
  have hq := (h key).liste
  cases hv : r key with
  | none => exact .inl ⟨by simp [Redis.lies, hv], by simpa [Redis.liste, hv] using hq.symm⟩
  | some w =>
      cases w with
      | text value due =>
          have hd : Verfallen due jetzt := by
            cases he : l.werte key with
            | none => exact absurd hv (((h key).leer he).2 value due)
            | some e =>
                rcases ((h key).wert e he).text with ⟨text, -, ht⟩ | ⟨ht, -⟩
                · obtain ⟨-, rfl⟩ : text = value ∧ e.due = due := by simpa [ht] using hv
                  exact verfallen_due_iff.mpr (hw e he)
                · exact absurd hv (ht value due)
          exact .inl ⟨by simp [Redis.lies, hv, hd], by simpa [Redis.liste, hv] using hq.symm⟩
      | liste entries =>
          have he : entries = l.queues key := by simpa [Redis.liste, hv] using hq
          refine .inr ⟨by simp [Redis.lies, hv, he], fun hn => ?_, fun e hl => ?_⟩
          · have hnil := (h key).nichtLeer
            rw [hv, he, hn] at hnil
            exact hnil rfl
          · rcases ((h key).wert e hl).text with ⟨text, -, ht⟩ | ⟨-, hvor⟩
            · simp [hv] at ht
            · exact hvor

theorem read_gleich (h : Gleich R s r l jetzt)
    (hw : ∀ e, l.werte key = some e → e.VorbeiMs jetzt) :
    s.read (F := R.F) key = r.read key jetzt := by
  have hq := (h key).queue
  rcases h.lies hw with ⟨hl, hn⟩ | ⟨hl, -⟩
  · simp [Sqlite.read, Redis.read, hl, hq, hn]
  · simp [Sqlite.read, Redis.read, hl, hq]

theorem pop_gleich (h : Gleich R s r l jetzt)
    (hw : ∀ e, l.werte key = some e → e.VorbeiMs jetzt) :
    (s.pop (F := R.F) key).2 = (r.pop key jetzt).2 ∧
      Gleich R (s.pop (F := R.F) key).1 (r.pop (F := R.F) key jetzt).1
        (l.mitQueue key (l.queues key).tail) jetzt := by
  have hq := (h key).queue
  rcases h.lies hw with ⟨hl, hn⟩ | ⟨hl, hn, hwert⟩
  · have htail : (l.queues key).tail = l.queues key := by rw [hn, List.tail_nil]
    have hgleich : l.mitQueue key (l.queues key).tail = l := by
      rw [htail, Soll.mitQueue, Function.update_eq_self]
    rw [hgleich]
    simpa [Sqlite.pop, Redis.pop, hl, hq, hn] using h
  · cases he : l.queues key with
    | nil => exact absurd he hn
    | cons value entries =>
        rw [he] at hl hq
        simpa [Sqlite.pop, Redis.pop, hl, hq] using h.mitListe hwert entries

/-- The last entries of a queue, as both find them. -/
theorem juengste_eq_ltrim (entries : List String) {m : Int} (hm : 1 ≤ m) :
    Sqlite.juengste entries m = Redis.ltrim entries (-m) := by
  have habs : (-m).natAbs = m.toNat := by omega
  rw [Sqlite.juengste, Redis.ltrim, if_neg (by omega), if_pos (by omega), habs]

theorem length_juengste {entries : List String} {m : Int} (hm : 1 ≤ m)
    (hlt : m < entries.length) : ((Sqlite.juengste entries m).length : Int) = m := by
  rw [Sqlite.juengste, if_neg (by omega), List.length_drop]
  omega

/-- A bound that is not exceeded drops nothing. -/
theorem juengste_eq_self {entries : List String} {m : Int} (hle : (entries.length : Int) ≤ m) :
    Sqlite.juengste entries m = entries := by
  rw [Sqlite.juengste, if_neg (by omega), show entries.length - m.toNat = 0 by omega, List.drop_zero]

/-- What Redis does when no value is left: it appends to the queue. -/
theorem Redis.append_eq (h : Gleich R s r l jetzt) (hw : OhneWert R l jetzt key) (value : String)
    (maxLength : Option Int) :
    r.append (F := R.F) key jetzt value maxLength =
      match maxLength with
      | some m =>
          if m < (l.queues key ++ [value]).length then
            (r.mitListe key (ltrim (l.queues key ++ [value]) (-m)), .laenge m)
          else (r.mitListe key (l.queues key ++ [value]), .laenge (l.queues key ++ [value]).length)
      | none => (r.mitListe key (l.queues key ++ [value]),
          .laenge (l.queues key ++ [value]).length) := by
  have hne : l.queues key ++ [value] ≠ [] := by simp
  rcases h.lies fun e he => (hw e he).2 with ⟨hl, hq⟩ | ⟨hl, -⟩
  · cases maxLength <;> simp [Redis.append, hl, hq, Redis.mitListe]
  · cases maxLength <;> simp [Redis.append, hl, Redis.mitListe]

theorem append_gleich (h : Gleich R s r l jetzt) (hw : OhneWert R l jetzt key) (value : String)
    {maxLength : Option Int} (hm : ∀ m, maxLength = some m → 1 ≤ m) :
    (s.append (F := R.F) key value maxLength).2 = (r.append key jetzt value maxLength).2 ∧
      Gleich R (s.append (F := R.F) key value maxLength).1
        (r.append (F := R.F) key jetzt value maxLength).1
        (l.nach R jetzt (.append key value maxLength)) jetzt := by
  have hq := (h key).queue
  rw [Redis.append_eq h hw]
  cases maxLength with
  | none =>
      have hang : s.angehaengt key value none = l.queues key ++ [value] := by
        simp [Sqlite.angehaengt, hq]
      refine ⟨congrArg Ergebnis.laenge (by rw [hang]), ?_⟩
      simpa [Sqlite.append, hang, Soll.nach] using h.mitListe hw (l.queues key ++ [value])
  | some m =>
      have hpos : 1 ≤ m := hm m rfl
      have hang : s.angehaengt key value (some m) = Sqlite.juengste (l.queues key ++ [value]) m := by
        simp [Sqlite.angehaengt, hq]
      have hnach : l.nach R jetzt (.append key value (some m)) =
          l.mitQueue key (Sqlite.juengste (l.queues key ++ [value]) m) := by
        simp [Soll.nach, Sqlite.juengste, show ¬m < 0 by omega]
      rw [hnach]
      simp only [Sqlite.append, hang]
      split
      next hlt =>
        refine ⟨congrArg Ergebnis.laenge (length_juengste hpos hlt), ?_⟩
        rw [← juengste_eq_ltrim _ hpos]
        exact h.mitListe hw _
      next hle =>
        rw [juengste_eq_self (by omega)]
        exact ⟨rfl, h.mitListe hw _⟩

end Operationen

/-! ## All runs -/

/-- A compatible operation has the same result on both backends, and both follow
the store behind the port. -/
theorem fuehreAus_gleich {R : Rechnung} {s : Sqlite} {r : Redis} {l : Soll R.F} {jetzt : ℚ}
    (h : Gleich R s r l jetzt) {op : Operation R.F} (hv : Vertraeglich R l jetzt op) :
    (s.fuehreAus R jetzt op).2 = (r.fuehreAus jetzt R op).2 ∧
      Gleich R (s.fuehreAus R jetzt op).1 (r.fuehreAus jetzt R op).1 (l.nach R jetzt op) jetzt := by
  cases op with
  | get key =>
      obtain ⟨hq, hf, ht⟩ := hv
      have hget := get_gleich ((h key).ansicht hq hf) ht
      exact ⟨by simp [Sqlite.fuehreAus, Redis.fuehreAus, hget], h⟩
  | set key value ttl =>
      refine ⟨rfl, h.schreibe hv ?_ rfl ?_⟩
      · simp [Eintrag.zeile, Inhalt.python, Sqlite.frist, Function.comp_def]
      · simp [Redis.faellig, Eintrag.due, Function.comp_def]
  | delete key =>
      obtain ⟨hq, hf, ho⟩ := hv
      exact (delete_gleich h hq hf ho).imp_left (congrArg Ergebnis.wahr)
  | increment key amount ttl =>
      obtain ⟨hq, hf, ho, hz⟩ := hv
      exact increment_gleich h hq hf ho hz
  | append key value maxLength => exact append_gleich h hv.1 value hv.2
  | read key => exact ⟨read_gleich h hv, h⟩
  | pop key => exact pop_gleich h hv
  | acquire name token ttl =>
      exact (acquire_gleich h hv.1 hv.2 token ttl).imp_left (congrArg Ergebnis.wahr)
  | renew name token ttl =>
      obtain ⟨hq, hf, ht, hm⟩ := hv
      exact renew_gleich h hq hf ht hm ttl
  | release name token =>
      obtain ⟨hq, hf, ht, ho⟩ := hv
      exact release_gleich h hq hf ht ho
  | held name token =>
      obtain ⟨hq, hf, ht, hm⟩ := hv
      exact ⟨held_gleich ((h _).ansicht hq hf) ht hm, h⟩
  | brechen name token fremdes =>
      by_cases hab : fremdes = "" ∨ fremdes = token
      · have hnach : l.nach R jetzt (.brechen name token fremdes) = l :=
          if_neg fun ⟨hne, hne', _⟩ => hab.elim hne hne'
        rw [hnach]
        simpa [Sqlite.fuehreAus, Redis.fuehreAus, Sqlite.brechen, Redis.brechen, hab] using h
      · obtain ⟨hq, hf, ht, ho⟩ := (or_assoc.mpr hv).resolve_left hab
        obtain ⟨hne, hne'⟩ := not_or.mp hab
        simpa [Sqlite.fuehreAus, Redis.fuehreAus, Sqlite.brechen, Redis.brechen, hab, Soll.nach,
          hne, hne'] using release_gleich h hq hf ht ho

/-- Both backends, the operations so far, and the results of all. -/
structure Welt (R : Rechnung) where
  jetzt : ℚ
  sqlite : Sqlite
  redis : Redis
  verlauf : Verlauf R
  protokoll : List (Ergebnis R.F × Ergebnis R.F)

def Welt.fuehreAus {R : Rechnung} (w : Welt R) (t : ℚ) (op : Operation R.F) : Welt R where
  jetzt := t
  sqlite := (w.sqlite.fuehreAus R t op).1
  redis := (w.redis.fuehreAus t R op).1
  verlauf := w.verlauf ++ [(t, op)]
  protokoll :=
    w.protokoll ++ [((w.sqlite.fuehreAus R t op).2, (w.redis.fuehreAus t R op).2)]

/-- The same operations on both backends, at times that do not go back. -/
def system (R : Rechnung) : System (Welt R) (ℚ × Operation R.F) where
  start w :=
    (∀ key, w.sqlite.engineState key = none ∧ w.sqlite.engineStateQueue key = [] ∧
      w.redis key = none) ∧ w.verlauf = [] ∧ w.protokoll = []
  step w a w' := w.jetzt ≤ a.1 ∧ w' = w.fuehreAus a.1 a.2

/-- After the operations so far, this one meets nothing the backends treat
differently. -/
def Vereinbar (R : Rechnung) (w : Welt R) (a : ℚ × Operation R.F) (_ : Welt R) : Prop :=
  Vertraeglich R (soll R w.verlauf) a.1 a.2

/-- A run goes on with a compatible operation. -/
theorem reach_weiter {R : Rechnung} {w : Welt R} (h : ((system R).restrict (Vereinbar R)).Reach w)
    (t : ℚ) (op : Operation R.F) (ht : w.jetzt ≤ t) (hv : Vertraeglich R (soll R w.verlauf) t op) :
    ((system R).restrict (Vereinbar R)).Reach (w.fuehreAus t op) :=
  .step (a := (t, op)) h ⟨⟨ht, rfl⟩, hv⟩

/-- The results of the two backends are the same at every operation. -/
def Uebereinstimmend {R : Rechnung} (w : Welt R) : Prop := ∀ e ∈ w.protokoll, e.1 = e.2

/-- While every operation is compatible with those before it, the backends answer
alike. -/
theorem backends_gleich (R : Rechnung) {w : Welt R}
    (h : ((system R).restrict (Vereinbar R)).Reach w) : Uebereinstimmend w := by
  have hinv : Gleich R w.sqlite w.redis (soll R w.verlauf) w.jetzt ∧ Uebereinstimmend w := by
    refine h.invariant (I := fun w =>
      Gleich R w.sqlite w.redis (soll R w.verlauf) w.jetzt ∧ Uebereinstimmend w) ?_ ?_
    · rintro w ⟨hleer, hverlauf, hp⟩
      refine ⟨fun key => ?_, by simp [Uebereinstimmend, hp]⟩
      obtain ⟨hs, hq, hr⟩ := hleer key
      rw [hverlauf]
      exact ⟨fun _ => ⟨hs, by simp [Redis.OhneText, hr]⟩, by simp [soll, Soll.leer],
        by simp [hq, soll, Soll.leer], by simp [Redis.liste, hr, soll, Soll.leer], by simp [hr]⟩
    · rintro w a w' ⟨hg, hu⟩ ⟨⟨ht, rfl⟩, hv⟩
      obtain ⟨hres, hg'⟩ := fuehreAus_gleich (hg.mono ht) hv
      refine ⟨?_, fun e he => ?_⟩
      · simpa only [Welt.fuehreAus, soll_concat] using hg'
      · rcases List.mem_append.mp he with he | he
        · exact hu e he
        · obtain rfl := List.mem_singleton.mp he
          exact hres
  exact hinv.2

section Beispiel

/-- `float` of the text of a whole number, with or without the `.0` of Python. -/
def floatGanz (text : String) : Option Nat :=
  let ziffern := text.toList.takeWhile Char.isDigit
  let rest := text.toList.dropWhile Char.isDigit
  if ziffern ≠ [] ∧ (rest = [] ∨ rest = ['.', '0']) then some (Nat.ofDigitChars 10 ziffern 0)
  else none

/-- Both texts of a whole number are read back. -/
theorem floatGanz_repr_append {n : Nat} {rest : String} (h : rest = "" ∨ rest = ".0") :
    floatGanz (n.repr ++ rest) = some n := by
  have hziffern : ∀ c ∈ Nat.toDigits 10 n, c.isDigit = true := fun c hc =>
    Nat.isDigit_of_mem_toDigits (by omega) (by omega) hc
  unfold floatGanz
  rw [String.toList_append, Nat.toList_repr, List.takeWhile_append_of_pos hziffern,
    List.dropWhile_append_of_pos hziffern]
  rcases h with rfl | rfl <;> simp

/-- The arithmetic of whole numbers: Python writes `2.0`, `INCRBYFLOAT` writes `2`. -/
def rechnungGanz : Rechnung where
  F := Nat
  null := 0
  add := (· + ·)
  float := floatGanz
  repr n := n.repr ++ ".0"
  incrbyfloat alt amount :=
    (alt.elim (some 0) floatGanz).bind fun stand =>
      (floatGanz amount).map fun amount => (stand + amount).repr
  float_repr _ := floatGanz_repr_append (.inr rfl)
  float_incrbyfloat alt amount neu h := by
    obtain ⟨stand, -, h⟩ := Option.bind_eq_some_iff.mp h
    obtain ⟨amount, -, rfl⟩ := Option.map_eq_some_iff.mp h
    rw [← String.append_empty (s := (stand + amount).repr), floatGanz_repr_append (.inl rfl)]
    rfl

instance : DecidableEq rechnungGanz.F := inferInstanceAs (DecidableEq Nat)

/-- Five operations: a value with a time to live, a counter, the value before and
after its time, and a lock. -/
def lauf : Verlauf rechnungGanz :=
  [(0, .set "halt" "1" (some 10)), (1, .increment "tag" (2 : Nat) none), (5, .get "halt"),
    (20, .get "halt"), (20, .acquire "run" "a" 30)]

def nachLauf (verlauf : Verlauf rechnungGanz) : Welt rechnungGanz :=
  verlauf.foldl (fun w a => w.fuehreAus a.1 a.2)
    ⟨0, ⟨fun _ => none, fun _ => []⟩, fun _ => none, [], []⟩

def halt : Eintrag rechnungGanz.F := ⟨⟨some "1", []⟩, some (0, 10)⟩

theorem halt_einig_fuenf : halt.Einig 5 := by
  have hms : max 1 ⌊(10 : ℚ) * 1000⌋ = 10000 := by norm_num
  simp [Eintrag.Einig, Eintrag.Vorbei, Eintrag.VorbeiMs, halt, millis, ttlMillis, hms]
  norm_num

theorem halt_einig_zwanzig : halt.Einig 20 := by
  have hms : max 1 ⌊(10 : ℚ) * 1000⌋ = 10000 := by norm_num
  simp [Eintrag.Einig, Eintrag.Vorbei, Eintrag.VorbeiMs, halt, millis, ttlMillis, hms]
  norm_num

/-- The counter's first amount is the same number in both arithmetics. -/
theorem eineZahl_tag : (Inhalt.mk none [(2 : Nat)]).EineZahl rechnungGanz := by
  have h : floatGanz "2.0" = some 2 := by decide
  have h' : floatGanz "2" = some 2 := by decide
  show ((rechnungGanz.incrbyfloat none "2.0").bind floatGanz) = some (0 + 2)
  simp [rechnungGanz, h]
  exact h'

/-- The value is read before its time is over and not after, and the counter and
the lock come out the same. -/
theorem backends_gleich_lauf : ∃ w,
    ((system rechnungGanz).restrict (Vereinbar rechnungGanz)).Reach w ∧ w.verlauf = lauf ∧
      w.protokoll.map Prod.fst =
        [.nichts, .zahl (2 : Nat), .wert (some "1"), .wert none, .wahr true] ∧
      Uebereinstimmend w := by
  have h₀ : ((system rechnungGanz).restrict (Vereinbar rechnungGanz)).Reach (nachLauf []) :=
    .start ⟨fun _ => ⟨rfl, rfl, rfl⟩, rfl, rfl⟩
  have h₁ := reach_weiter h₀ 0 (.set "halt" "1" (some 10)) le_rfl rfl
  have h₂ := reach_weiter h₁ 1 (.increment "tag" (2 : Nat) none) zero_le_one
    ⟨rfl, nofun, fun _ => nofun, eineZahl_tag⟩
  have h₃ := reach_weiter h₂ 5 (.get "halt") (by norm_num [Welt.fuehreAus])
    ⟨rfl, fun e he => Option.some.inj he ▸ halt_einig_fuenf, ?_⟩
  have h₄ := reach_weiter h₃ 20 (.get "halt") (by norm_num [Welt.fuehreAus])
    ⟨rfl, fun e he => Option.some.inj he ▸ halt_einig_zwanzig, ?_⟩
  have h₅ := reach_weiter h₄ 20 (.acquire "run" "a" 30) le_rfl ⟨rfl, nofun⟩
  · exact ⟨_, h₅, rfl, by decide +kernel, backends_gleich rechnungGanz h₅⟩
  all_goals
    intro e he
    obtain rfl : halt = e := Option.some.inj (Soll.lebt_eq_some_iff _ |>.mp he).1
    exact .inl rfl

/-- A row past its expiry is still there to delete, and in Redis it is not. -/
theorem backends_nicht_gleich : ∃ w : Welt rechnungGanz,
    (system rechnungGanz).Reach w ∧ ¬Uebereinstimmend w := by
  have h₀ : (system rechnungGanz).Reach (nachLauf []) := .start ⟨fun _ => ⟨rfl, rfl, rfl⟩, rfl, rfl⟩
  have h₁ : (system rechnungGanz).Reach (nachLauf [(0, .set "halt" "1" (some 10))]) :=
    .step (a := (0, .set "halt" "1" (some 10))) h₀ ⟨le_rfl, rfl⟩
  have h₂ : (system rechnungGanz).Reach
      (nachLauf [(0, .set "halt" "1" (some 10)), (20, .delete "halt")]) :=
    .step (a := (20, .delete "halt")) h₁ ⟨by norm_num [nachLauf, Welt.fuehreAus], rfl⟩
  refine ⟨_, h₂, fun h => ?_⟩
  have heq := h (.wahr true, .wahr false) (by decide +kernel)
  cases heq

end Beispiel

end State
