import AutonomousEngine.LocalState.Client

/-!
# The commands of Redis that the client stands for

A key of Redis holds one value of one type and may carry the time it expires at.
Past this time it is not there for any command.  `Step` says which reply a command may
have and what it leaves: a command on a key of another type has none, the keys come in
any order, and the id of a new stream entry is any that is greater than those before.
-/

namespace LocalState

open Basis

inductive Value where
  | text (value : String)
  | hash (fields : Dict String String)
  | list (values : List String)
  | stream (entries : List (StreamId × Fields))

structure Entry where
  value : Value
  expires : Option ℚ

def Entry.liveAt (e : Entry) (now : ℚ) : Bool := e.expires.all fun exp => now ≤ exp

def live (now : ℚ) (e : Option Entry) : Option Entry := e.filter fun e => e.liveAt now

abbrev Redis : Type := String → Option Entry

/-- `LRANGE`: both indexes count from the end when they are negative. -/
def redisRange {α : Type} (xs : List α) (start stop : ℤ) : List α :=
  let start := if start < 0 then max 0 (xs.length + start) else start
  let stop := if stop < 0 then xs.length + stop else stop
  (xs.drop start.toNat).take (stop + 1 - start).toNat

/-- The entries of a stream that `XREAD` gives. -/
def readEntries (count : ℕ) (last : LastId) (entries : List (StreamId × Fields)) :
    List (StreamId × Fields) :=
  match last with
  | .dollar => []
  | .zero => entries.take count
  | .id id => (entries.filter fun e => id.lt e.1).take count

namespace Redis

def empty : Redis := fun _ => none

variable (r : Redis) (now : ℚ) (key : String)

def lookup : Option Entry := live now (r key)

/-- The text of a key; `none` is the error for another type. -/
def textAt : Option (Option String) :=
  match r.lookup now key with
  | none => some none
  | some ⟨.text v, _⟩ => some (some v)
  | some _ => none

def hashAt : Option (Dict String String) :=
  match r.lookup now key with
  | none => some .empty
  | some ⟨.hash h, _⟩ => some h
  | some _ => none

def listAt : Option (List String) :=
  match r.lookup now key with
  | none => some []
  | some ⟨.list xs, _⟩ => some xs
  | some _ => none

def streamAt : Option (List (StreamId × Fields)) :=
  match r.lookup now key with
  | none => some []
  | some ⟨.stream es, _⟩ => some es
  | some _ => none

/-- A new value under a key that keeps its expiry. -/
def modify (value : Value) : Redis :=
  Function.update r key (some ⟨value, (r.lookup now key).bind Entry.expires⟩)

/-- A list under a key; an empty one is no key. -/
def putList (xs : List String) : Redis :=
  if xs = [] then Function.update r key none else r.modify now key (.list xs)

def Batched (r : Redis) : PipelineCommand → PipelineReply → Redis → Prop
  | .rpush key values, a, r' => ∃ xs, r.listAt now key = some xs ∧ values ≠ [] ∧
      a = .length (xs ++ values).length ∧ r' = r.putList now key (xs ++ values)
  | .ltrim key start stop, a, r' => ∃ xs, r.listAt now key = some xs ∧
      a = .ok ∧ r' = r.putList now key (redisRange xs start stop)

/-- Batched commands one after the other. -/
def Pipeline : Redis → List PipelineCommand → List PipelineReply → Redis → Prop
  | r, [], as, r' => as = [] ∧ r' = r
  | r, b :: bs, as, r' => ∃ a r₁ rest, Batched now r b a r₁ ∧ as = a :: rest ∧ Pipeline r₁ bs rest r'

/-- A command at a time, a reply it may have, and what is there after it. -/
def Step (r : Redis) : Command → Reply → Redis → Prop
  | .get key, a, r' => ∃ v, r.textAt now key = some v ∧ a = .value v ∧ r' = r
  | .set key value px nx, a, r' =>
      if nx ∧ (r.lookup now key).isSome then a = .done false ∧ r' = r
      else a = .done true ∧
        r' = Function.update r key (some ⟨.text value, px.map fun px : ℤ => now + px⟩)
  | .delete keys, a, r' =>
      a = .number (keys.dedup.countP fun k => (r.lookup now k).isSome) ∧
        r' = fun k => if k ∈ keys then none else r k
  | .keys pattern, a, r' => r' = r ∧ ∃ names, a = .names names ∧ names.Nodup ∧
      ∀ k, k ∈ names ↔ (r.lookup now k).isSome ∧ redisGlob k pattern
  | .pexpire key timeMs, a, r' =>
      match r.lookup now key with
      | none => a = .done false ∧ r' = r
      | some e => a = .done true ∧
          r' = Function.update r key
            (if 0 < timeMs then some { e with expires := some (now + timeMs) } else none)
  | .hset name field value, a, r' => ∃ h, r.hashAt now name = some h ∧
      a = .number (if (h.get? field).isSome then 0 else 1) ∧
      r' = r.modify now name (.hash (h.set field value))
  | .hget name field, a, r' => ∃ h, r.hashAt now name = some h ∧
      a = .value (h.get? field) ∧ r' = r
  | .rpush key values, a, r' => ∃ xs, r.listAt now key = some xs ∧ values ≠ [] ∧
      a = .number (xs ++ values).length ∧ r' = r.putList now key (xs ++ values)
  | .ltrim key start stop, a, r' => ∃ xs, r.listAt now key = some xs ∧
      a = .done true ∧ r' = r.putList now key (redisRange xs start stop)
  | .lrange key start stop, a, r' => ∃ xs, r.listAt now key = some xs ∧
      a = .range (redisRange xs start stop) ∧ r' = r
  | .xadd stream fields, a, r' => ∃ es id, r.streamAt now stream = some es ∧
      (∀ e ∈ es, e.1.lt id) ∧ a = .streamId id ∧
      r' = r.modify now stream (.stream (es ++ [(id, fields)]))
  | .xread streams count, a, r' => 0 < count ∧ (∀ p ∈ streams, (r.streamAt now p.1).isSome) ∧
      a = .entries ((streams.map fun p =>
        (p.1, readEntries count p.2 ((r.streamAt now p.1).getD []))).filter fun p => !p.2.isEmpty) ∧
      r' = r
  | .pipeline commands, a, r' => ∃ as, Pipeline now r commands as r' ∧ a = .results as

/-- Commands one after the other, with the replies they had. -/
def Runs : Redis → List (ℚ × Command) → List Reply → Prop
  | _, [], as => as = []
  | r, i :: is, as => ∃ a r' rest, Step i.1 r i.2 a r' ∧ as = a :: rest ∧ Runs r' is rest

end Redis

end LocalState
