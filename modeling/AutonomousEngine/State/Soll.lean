import AutonomousEngine.State.Redis

/-!
# The store behind the port

What a caller of the port believes to be stored, told from the operations so far
and the times they were asked for.  It knows neither tables nor commands: a key
has the text that was last written under it, the amounts that were added since,
and the time to live that was last given with the moment it was given at.

A counter has two texts, since its amounts are added in two arithmetics
(`Inhalt.python`, `Inhalt.redis`), and a time to live has two ends, an exact one
and one in milliseconds (`Eintrag.Vorbei`, `Eintrag.VorbeiMs`).
-/

namespace State

/-- The text last written under a key, none where counting began without one,
and the amounts added since. -/
structure Inhalt (F : Type) where
  geschrieben : Option String
  addiert : List F

namespace Inhalt

variable (R : Rechnung) (i : Inhalt R.F)

def plus (amount : R.F) : Inhalt R.F := { i with addiert := i.addiert ++ [amount] }

def summe : Option R.F :=
  (i.geschrieben.elim (some R.null) R.float).map (i.addiert.foldl R.add)

/-- The text Python has: what was written, and `repr` of the sum after an addition. -/
def python : Option String :=
  if i.addiert.isEmpty then i.geschrieben else (i.summe R).map R.repr

/-- The text after the same additions by `INCRBYFLOAT`. -/
def redis : Option String :=
  i.addiert.foldl (fun alt amount => R.incrbyfloat alt (R.repr amount)) i.geschrieben

/-- The two texts are the same where nothing was added. -/
def EinText : Prop := i.addiert = [] ∨ i.python R = i.redis R

/-- `INCRBYFLOAT` comes to the number that Python comes to. -/
def EineZahl : Prop := (i.redis R).bind R.float = i.summe R

variable {R i}

theorem summe_plus (amount : R.F) :
    (i.plus R amount).summe R = (i.summe R).map (R.add · amount) := by
  simp [summe, plus, List.foldl_append, Function.comp_def]

theorem redis_plus (amount : R.F) :
    (i.plus R amount).redis R = R.incrbyfloat (i.redis R) (R.repr amount) := by
  simp [redis, plus, List.foldl_append]

theorem python_plus (amount : R.F) :
    (i.plus R amount).python R = (i.summe R).map fun x => R.repr (R.add x amount) := by
  have hne : (i.plus R amount).addiert.isEmpty = false := by simp [plus]
  simp [python, hne, summe_plus, Function.comp_def]

/-- Python reads its own text as the number. -/
theorem float_python {value : String} (h : i.python R = some value) : R.float value = i.summe R := by
  unfold python at h
  split at h
  next hnil => simp [summe, h, List.isEmpty_iff.mp hnil]
  next =>
    obtain ⟨x, hx, rfl⟩ := Option.map_eq_some_iff.mp h
    rw [hx, R.float_repr]

theorem EinText.eq (h : i.EinText R) : i.python R = i.redis R := by
  rcases h with hnil | h
  · simp [python, redis, hnil]
  · exact h

end Inhalt

/-- What is under a key: the content, and the time to live with the moment it
was given at. -/
structure Eintrag (F : Type) extends Inhalt F where
  frist : Option (ℚ × ℚ)

namespace Eintrag

variable {F : Type} (e : Eintrag F) (jetzt : ℚ)

def Vorbei : Prop := ∃ f, e.frist = some f ∧ f.1 + f.2 ≤ jetzt

/-- It is over in whole milliseconds, of the moment and of the time to live. -/
def VorbeiMs : Prop := ∃ f, e.frist = some f ∧ millis f.1 + ttlMillis f.2 < millis jetzt

/-- The two ends are on the same side of the clock. -/
def Einig : Prop := e.Vorbei jetzt ↔ e.VorbeiMs jetzt

instance : Decidable (e.Vorbei jetzt) :=
  match h : e.frist with
  | none => .isFalse fun ⟨_, hf, _⟩ => by simp [h] at hf
  | some f => decidable_of_iff (f.1 + f.2 ≤ jetzt) (by simp [Vorbei, h])

end Eintrag

/-- The values and the queues. -/
structure Soll (F : Type) where
  werte : String → Option (Eintrag F)
  queues : String → List String

namespace Soll

variable {R : Rechnung} (l : Soll R.F)

def leer (F : Type) : Soll F := ⟨fun _ => none, fun _ => []⟩

def schreibe (key : String) (e : Option (Eintrag R.F)) : Soll R.F :=
  { l with werte := Function.update l.werte key e }

def mitQueue (key : String) (entries : List String) : Soll R.F :=
  { l with queues := Function.update l.queues key entries }

@[simp] theorem schreibe_self (key : String) (e : Option (Eintrag R.F)) :
    (l.schreibe key e).werte key = e := by
  simp [schreibe]

@[simp] theorem schreibe_of_ne {key k : String} (e : Option (Eintrag R.F)) (h : k ≠ key) :
    (l.schreibe key e).werte k = l.werte k := by
  simp [schreibe, h]

@[simp] theorem mitQueue_self (key : String) (entries : List String) :
    (l.mitQueue key entries).queues key = entries := by
  simp [mitQueue]

@[simp] theorem mitQueue_of_ne {key k : String} (entries : List String) (h : k ≠ key) :
    (l.mitQueue key entries).queues k = l.queues k := by
  simp [mitQueue, h]

/-- The entry of a key whose time to live is not over. -/
def lebt (jetzt : ℚ) (key : String) : Option (Eintrag R.F) :=
  (l.werte key).filter fun e => !decide (e.Vorbei jetzt)

theorem lebt_eq_some_iff {jetzt : ℚ} {key : String} {e : Eintrag R.F} :
    l.lebt jetzt key = some e ↔ l.werte key = some e ∧ ¬e.Vorbei jetzt := by
  simp [lebt, Option.filter_eq_some_iff]

/-- The content that an addition starts from. -/
def inhalt (jetzt : ℚ) (key : String) : Inhalt R.F :=
  ((l.lebt jetzt key).map Eintrag.toInhalt).getD ⟨none, []⟩

def Gehoert (jetzt : ℚ) (key token : String) : Prop :=
  ∃ e, l.lebt jetzt key = some e ∧ e.python R = some token

instance (jetzt : ℚ) (key token : String) : Decidable (l.Gehoert jetzt key token) :=
  match h : l.lebt jetzt key with
  | none => .isFalse fun ⟨_, he, _⟩ => by simp [h] at he
  | some e => decidable_of_iff (e.python R = some token) (by simp [Gehoert, h])

def nach (R : Rechnung) (l : Soll R.F) (jetzt : ℚ) : Operation R.F → Soll R.F
  | .get _ | .read _ | .held _ _ => l
  | .set key value ttl => l.schreibe key (some ⟨⟨some value, []⟩, ttl.map (jetzt, ·)⟩)
  | .delete key => l.schreibe key none
  | .increment key amount ttl =>
      -- a text that is no number stays
      if ((l.inhalt jetzt key).summe R).isSome then
        l.schreibe key (some ⟨(l.inhalt jetzt key).plus R amount, ttl.map (jetzt, ·)⟩)
      else l
  | .append key value maxLength =>
      let entries := l.queues key ++ [value]
      l.mitQueue key (entries.drop (maxLength.elim 0 fun m => entries.length - m.toNat))
  | .pop key => l.mitQueue key (l.queues key).tail
  | .acquire name token ttl =>
      if (l.lebt jetzt (lockKey name)).isSome then l
      else l.schreibe (lockKey name) (some ⟨⟨some token, []⟩, some (jetzt, ttl)⟩)
  | .renew name token ttl =>
      if l.Gehoert jetzt (lockKey name) token then
        l.schreibe (lockKey name)
          ((l.werte (lockKey name)).map fun e => { e with frist := some (jetzt, ttl) })
      else l
  | .release name token =>
      if l.Gehoert jetzt (lockKey name) token then l.schreibe (lockKey name) none else l
  | .brechen name token fremdes =>
      if fremdes ≠ "" ∧ fremdes ≠ token ∧ l.Gehoert jetzt (lockKey name) fremdes then
        l.schreibe (lockKey name) none
      else l

end Soll

/-- The operations of a run and their times, the first one first. -/
abbrev Verlauf (R : Rechnung) : Type := List (ℚ × Operation R.F)

def soll (R : Rechnung) (verlauf : Verlauf R) : Soll R.F :=
  verlauf.foldl (fun l a => l.nach R a.1 a.2) (.leer R.F)

theorem soll_concat (R : Rechnung) (verlauf : Verlauf R) (a : ℚ × Operation R.F) :
    soll R (verlauf ++ [a]) = (soll R verlauf).nach R a.1 a.2 := by
  simp [soll, List.foldl_append]

end State
