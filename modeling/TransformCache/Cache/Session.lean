/-
Stores at work: any number of them, one disk, and queues of deferred tasks.

Stores go by number, because a deferred flush belongs to the store that asked for it even after
another has taken its place. `Request` lists what can be asked of a store, and of the disk from
outside; `Shelf.act` says what each does. Asking a store to schedule a flush defers a task that
clears its pending mark and then flushes what it holds at that time.
-/
import TransformCache.Cache.Store
import TransformCache.Turn

namespace TransformCache.Cache

-- ====================================================== requests

/-- How a store is made. -/
inductive Making where
  | new (path : FilePath)
  | limited (path : FilePath) (limit : Nat)
  | opened (path : FilePath)
  | disabled (path : FilePath)
  deriving DecidableEq, Repr

/-- What can be asked of the store of a number, and of the disk. -/
inductive Request where
  | put (store : Nat) (key : String) (entry : Entry)
  | lookUp (store : Nat) (key : String)
  | holds (store : Nat) (key : String) (stamp : Stamp)
  | schedule (store : Nat) (queue : Nat)
  /-- A deferred flush begins. -/
  | deferredFlush (store : Nat)
  /-- A flush whose failure is passed over. -/
  | flush (store : Nat)
  | flushNow (store : Nat)
  | load (store : Nat)
  | clear (store : Nat)
  | disable (store : Nat)
  | snapshot (store : Nat)
  | path (store : Nat)
  | describe (store : Nat)
  | edit (change : FileSystem.Edit)
  | fileText (path : FilePath)
  | fileExists (path : FilePath)
  | count (n : Nat)

/-- What a request is answered with. -/
inductive Answer where
  | nothing
  | failure (e : Error)
  | count (n : Nat)
  | truth (b : Option Bool)
  | entry (e : Option Entry)
  | entries (e : Keyed Entry)
  | text (t : Option String)
  deriving Inhabited

-- ====================================================== the shelf

/-- The disk and the stores over it, with the answer to the last request. -/
structure Shelf where
  disk : FileSystem
  stores : Nat → Store
  /-- How many stores were made. -/
  made : Nat := 0
  answer : Answer := .nothing

namespace Shelf

def ofDisk (disk : FileSystem) : Shelf := { disk, stores := fun _ => default }

def setStore (s : Shelf) (n : Nat) (store : Store) : Shelf :=
  { s with stores := fun m => if m = n then store else s.stores m }

def modify (s : Shelf) (n : Nat) (f : Store → Store) : Shelf := s.setStore n (f (s.stores n))

def reply (s : Shelf) (a : Answer) : Shelf := { s with answer := a }

def build (disk : FileSystem) : Making → Store
  | .new path => .new path
  | .limited path limit => { Store.new path with sizeLimit := limit }
  | .opened path => .openAt path disk
  | .disabled path => .disabled path

/-- Makes a store, and answers its number. -/
def add (s : Shelf) (making : Making) : Nat × Shelf :=
  (s.made, { s.setStore s.made (build s.disk making) with made := s.made + 1 })

def flush (s : Shelf) (n : Nat) : Except Error Unit × Shelf :=
  let (result, disk) := (s.stores n).flush s.disk
  (result, { s with disk })

/-- The deferred flush of the store of a number: its pending mark goes, then it flushes. -/
def deferredFlush (s : Shelf) (n : Nat) : Shelf :=
  ((s.setStore n (s.stores n).beginFlush).flush n).2

/-- What a request does, apart from deferring. -/
def act (request : Request) (s : Shelf) : Shelf :=
  match request with
  | .put n key entry => (s.modify n (·.put key entry)).reply .nothing
  | .lookUp n key => s.reply (.entry ((s.stores n).lookUp key))
  | .holds n key stamp =>
    s.reply (.truth (((s.stores n).lookUp key).map (·.holds stamp)))
  | .schedule .. => s.reply .nothing
  | .deferredFlush n => (s.deferredFlush n).reply .nothing
  | .flush n => (s.flush n).2.reply .nothing
  | .flushNow n =>
    match s.flush n with
    | (.ok (), s) => s.reply .nothing
    | (.error e, s) => s.reply (.failure e)
  | .load n =>
    match (s.stores n).load s.disk with
    | .ok (count, store) => (s.setStore n store).reply (.count count)
    | .error e => s.reply (.failure e)
  | .clear n => (s.modify n (·.clear)).reply .nothing
  | .disable n => (s.modify n (·.disable)).reply .nothing
  | .snapshot n => s.reply (.entries (s.stores n).entries)
  | .path n => s.reply (.text (some (s.stores n).path.text))
  | .describe n => s.reply (.text (some (s.stores n).describe))
  | .edit change => { s with disk := s.disk.edit change }.reply .nothing
  | .fileText path => s.reply (.text ((s.disk.read path).toOption.map Utf8.decodeLossy))
  | .fileExists path => s.reply (.truth (some (s.disk.holds path)))
  | .count n => s.reply (.count n)

/-- What a request does, and the flush that it defers. -/
def ask (request : Request) (s : Shelf) : Shelf × Option (Nat × Request) :=
  match request with
  | .schedule n queue =>
    let (store, wanted) := (s.stores n).requestFlush
    ((s.setStore n store).reply .nothing,
      if wanted then some (queue, .deferredFlush n) else none)
  | request => (s.act request, none)

/-- Stores as a host of deferred tasks. -/
def host : Turn.Host Request Shelf := ⟨act, ask⟩

end Shelf

/-- Stores at work, with the tasks that wait. -/
abbrev Session := Turn.State Request Shelf

namespace Session

def perform (s : Session) (actions : Turn.Task Request) : Session :=
  Turn.perform Shelf.host actions s

/-- The tasks of the queue `0` that wait. -/
def pending (s : Session) : Nat := Turn.State.pending s 0

end Session

end TransformCache.Cache
