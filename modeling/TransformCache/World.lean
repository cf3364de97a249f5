/-
What a register works on besides its own state.

That is a disk, the stores over it with the flushes that are deferred, the messages that callbacks
received, and an account of every call of an engine. Several registers can share one world, and one
store in it.
-/
import TransformCache.Cache.Session
import TransformCache.Config
import TransformCache.Engine

namespace TransformCache

/-- The surroundings of registers. -/
structure World where
  session : Cache.Session
  /-- Messages in the order they were sent. -/
  messages : List Message := []
  /-- Calls of an engine in the order they were made. -/
  invocations : List Invocation := []

namespace World

def ofDisk (disk : FileSystem) : World where
  session := { host := .ofDisk disk }

def disk (w : World) : FileSystem := w.session.host.disk

def store (w : World) (n : Nat) : Cache.Store := w.session.host.stores n

/-- Changes the disk and the stores, and leaves the tasks that wait. -/
def onShelf (w : World) (f : Cache.Shelf → Cache.Shelf) : World :=
  { w with session := { w.session with host := f w.session.host } }

def modifyStore (w : World) (n : Nat) (f : Cache.Store → Cache.Store) : World :=
  w.onShelf fun s => s.setStore n (f (s.stores n))

/-- Makes a store, and answers its number. -/
def addStore (w : World) (making : Cache.Making) : Nat × World :=
  ((w.session.host.add making).1, w.onShelf fun s => (s.add making).2)

def send (w : World) (messages : List Message) : World :=
  { w with messages := w.messages ++ messages }

/-- Takes down a call of the engine. -/
def record (w : World) (call : Invocation) : World :=
  { w with invocations := w.invocations ++ [call] }

/-- Asks the store of a number to schedule a flush. -/
def scheduleFlush (w : World) (n : Nat) : World :=
  match Cache.Shelf.ask (.schedule n 0) w.session.host with
  | (host, none) => { w with session := { w.session with host } }
  | (host, some (queue, flush)) =>
    { w with session := { w.session with host }.defer queue [.effect flush] }

/-- Flushes the store of a number; a failure is passed over. -/
def flush (w : World) (n : Nat) : World := w.onShelf fun s => (s.flush n).2

/-- Carries out actions on the stores and their queue. -/
def perform (w : World) (actions : Turn.Task Cache.Request) : World :=
  { w with session := w.session.perform actions }

def edit (w : World) (change : FileSystem.Edit) : World :=
  w.onShelf fun s => { s with disk := s.disk.edit change }

end World

end TransformCache
