import AutonomousEngine.Basis.Dict
import AutonomousEngine.Basis.Glob
import AutonomousEngine.Basis.Mealy
import Mathlib.Data.Rat.Floor

/-!
# The state client of the desktop edition

The desktop edition keeps in memory what the other editions keep in Redis.  Texts,
expiries, hashes, lists and streams live in maps of their own, and a text whose time
has come stays in its map until an operation evicts it.

A call is made at a time, in milliseconds.
-/

namespace LocalState

open Basis

/-- The id of a stream entry, `<ms>-<seq>`. -/
structure StreamId where
  ms : ℤ
  seq : ℕ
deriving DecidableEq, Repr

/-- The order of ids: by their time, then by their number. -/
def StreamId.lt (a b : StreamId) : Prop := a.ms < b.ms ∨ a.ms = b.ms ∧ a.seq < b.seq

instance (a b : StreamId) : Decidable (a.lt b) := inferInstanceAs (Decidable (_ ∨ _))

abbrev Fields : Type := List (String × String)

/-- Where a reader of a stream stands. -/
inductive LastId where
  | dollar
  | zero
  | id (id : StreamId)
deriving DecidableEq, Repr

/-- What a pipeline batches. -/
inductive PipelineCommand where
  | rpush (key : String) (values : List String)
  | ltrim (key : String) (start stop : ℤ)
deriving DecidableEq, Repr

inductive Command where
  | get (key : String)
  | set (key value : String) (px : Option ℤ) (nx : Bool)
  | delete (keys : List String)
  | keys (pattern : String)
  | pexpire (key : String) (timeMs : ℤ)
  | hset (name field value : String)
  | hget (name field : String)
  | rpush (key : String) (values : List String)
  | ltrim (key : String) (start stop : ℤ)
  | lrange (key : String) (start stop : ℤ)
  | xadd (stream : String) (fields : Fields)
  | xread (streams : List (String × LastId)) (count : ℕ)
  | pipeline (commands : List PipelineCommand)
deriving DecidableEq, Repr

/-- A result of a batched command: a length, or `True`. -/
inductive PipelineReply where
  | length (n : ℕ)
  | ok
deriving DecidableEq, Repr

inductive Reply where
  | value (value : Option String)
  /-- `True`, or nothing. -/
  | done (b : Bool)
  | number (n : ℕ)
  | names (keys : List String)
  | range (values : List String)
  | streamId (id : StreamId)
  | entries (streams : List (String × List (StreamId × Fields)))
  | results (replies : List PipelineReply)
deriving DecidableEq, Repr

/-! ## Slices -/

/-- The place of an index in a list of some length. -/
def clampIndex (length : ℕ) (i : ℤ) : ℕ :=
  if 0 ≤ i then min i.toNat length else (length + i).toNat

/-- `xs[start:stop]`. -/
def slice {α : Type} (xs : List α) (start stop : ℤ) : List α :=
  (xs.take (clampIndex xs.length stop)).drop (clampIndex xs.length start)

/-- The part of a list from one index to another, which is included. -/
def inclusiveSlice {α : Type} (xs : List α) (start stop : ℤ) : List α :=
  if stop = -1 then xs.drop (clampIndex xs.length start) else slice xs start (stop + 1)

/-! ## The client -/

structure Client where
  store : Dict String String
  lists : String → List String
  streams : String → List (StreamId × Fields)
  hash : String → Dict String String
  expiries : String → Option ℚ

namespace Client

def empty : Client where
  store := .empty
  lists _ := []
  streams _ := []
  hash _ := .empty
  expiries _ := none

variable (c : Client) (now : ℚ)

/-- Whether the expiry of a key has passed. -/
def expired (key : String) : Bool := (c.expiries key).any fun exp => exp < now

def evictExpired (key : String) : Client :=
  if c.expired now key then
    { c with store := c.store.erase key, expiries := Function.update c.expiries key none }
  else c

def get (key : String) : Client × Option String :=
  let c := c.evictExpired now key
  (c, c.store.get? key)

/-- The expiry of a key that is set; without a time it stays. -/
def setExpiry (key : String) (px : Option ℤ) : String → Option ℚ :=
  match px with
  | some px => if px = 0 then c.expiries else Function.update c.expiries key (some (now + px))
  | none => c.expiries

def set (key value : String) (px : Option ℤ) (nx : Bool) : Client × Bool :=
  let c := c.evictExpired now key
  if nx ∧ c.store.get? key ≠ none then (c, false)
  else ({ c with store := c.store.set key value, expiries := c.setExpiry now key px }, true)

/-- The loop body of `delete`. -/
def deleteKey (key : String) : Client × ℕ :=
  if c.store.get? key ≠ none then
    ({ c with store := c.store.erase key, expiries := Function.update c.expiries key none }, 1)
  else (c, 0)

/-- `delete`, and the number of keys it removed. -/
def delete : List String → Client → Client × ℕ
  | [], c => (c, 0)
  | key :: keys, c =>
      ((delete keys (c.deleteKey key).1).1, (c.deleteKey key).2 + (delete keys (c.deleteKey key).1).2)

/-- What `keys` evicts. -/
def evictAll : Client :=
  { c with
    store := c.store.filterKeys fun k => !c.expired now k
    expiries := fun k => if c.expired now k then none else c.expiries k }

def keys (pattern : String) : Client × List String :=
  let c := c.evictAll now
  (c, (c.store.entries.map Prod.fst).filter fun k => fnmatchcase k pattern)

def pexpire (key : String) (timeMs : ℤ) : Client × Bool :=
  let c := c.evictExpired now key
  if c.store.get? key = none then (c, false)
  else ({ c with expiries := Function.update c.expiries key (some (now + timeMs)) }, true)

def hset (name field value : String) : Client × ℕ :=
  ({ c with hash := Function.update c.hash name ((c.hash name).set field value) },
    if ((c.hash name).get? field).isSome then 0 else 1)

def hget (name field : String) : Option String := (c.hash name).get? field

def rpush (key : String) (values : List String) : Client × ℕ :=
  let xs := c.lists key ++ values
  ({ c with lists := Function.update c.lists key xs }, xs.length)

def ltrim (key : String) (start stop : ℤ) : Client :=
  { c with lists := Function.update c.lists key (inclusiveSlice (c.lists key) start stop) }

def lrange (key : String) (start stop : ℤ) : List String := inclusiveSlice (c.lists key) start stop

def newId (stream : String) : StreamId := ⟨⌊now⌋, (c.streams stream).length⟩

def xadd (stream : String) (fields : Fields) : Client × StreamId :=
  ({ c with
     streams := Function.update c.streams stream
       (c.streams stream ++ [(c.newId now stream, fields)]) },
    c.newId now stream)

/-- The entries behind an id, up to a number of them.  The first one comes in any case. -/
def entriesAfter (count : ℕ) (id : StreamId) (entries : List (StreamId × Fields)) :
    List (StreamId × Fields) :=
  ((entries.dropWhile fun e => e.1 ≠ id).drop 1).take (max count 1)

/-- The entries of a stream that a reader gets. -/
def newEntries (count : ℕ) (p : String × LastId) : List (StreamId × Fields) :=
  match p.2 with
  | .dollar => []
  | .zero => (c.streams p.1).take count
  | .id id => entriesAfter count id (c.streams p.1)

def xread (streams : List (String × LastId)) (count : ℕ) :
    List (String × List (StreamId × Fields)) :=
  (streams.map fun p => (p.1, c.newEntries count p)).filter fun p => !p.2.isEmpty

def batched (b : PipelineCommand) : Client × PipelineReply :=
  match b with
  | .rpush key values => ((c.rpush key values).1, .length (c.rpush key values).2)
  | .ltrim key start stop => (c.ltrim key start stop, .ok)

def step (c : Client) (i : ℚ × Command) : Client × Reply :=
  match i.2 with
  | .get key => ((c.get i.1 key).1, .value (c.get i.1 key).2)
  | .set key value px nx => ((c.set i.1 key value px nx).1, .done (c.set i.1 key value px nx).2)
  | .delete keys => ((delete keys c).1, .number (delete keys c).2)
  | .keys pattern => ((c.keys i.1 pattern).1, .names (c.keys i.1 pattern).2)
  | .pexpire key timeMs => ((c.pexpire i.1 key timeMs).1, .done (c.pexpire i.1 key timeMs).2)
  | .hset name field value => ((c.hset name field value).1, .number (c.hset name field value).2)
  | .hget name field => (c, .value (c.hget name field))
  | .rpush key values => ((c.rpush key values).1, .number (c.rpush key values).2)
  | .ltrim key start stop => (c.ltrim key start stop, .done true)
  | .lrange key start stop => (c, .range (c.lrange key start stop))
  | .xadd stream fields => ((c.xadd i.1 stream fields).1, .streamId (c.xadd i.1 stream fields).2)
  | .xread streams count => (c, .entries (c.xread streams count))
  | .pipeline commands => ((feed batched c commands).1, .results (feed batched c commands).2)

end Client

end LocalState
