/-
What the operations on a world change.

A world is looked at through its disk and its stores. Each lemma is about one
operation and one of these views; messages and the account of calls are in
neither.
-/
import TransformCache.World

namespace TransformCache.World

variable {w : World} {n : Nat}

-- ================================================================ the disk

@[simp] theorem disk_send (messages : List Message) : (w.send messages).disk = w.disk := rfl

@[simp] theorem disk_modifyStore (f : Cache.Store → Cache.Store) :
    (w.modifyStore n f).disk = w.disk := rfl

theorem disk_flush : (w.flush n).disk = ((w.store n).flush w.disk).2 := rfl

-- ============================================================== the stores

@[simp] theorem store_modifyStore_self (f : Cache.Store → Cache.Store) :
    (w.modifyStore n f).store n = f (w.store n) := if_pos rfl

@[simp] theorem store_addStore_self (making : Cache.Making) :
    (w.addStore making).2.store (w.addStore making).1 = Cache.Shelf.build w.disk making :=
  if_pos rfl

@[simp] theorem store_flush (m : Nat) : (w.flush n).store m = w.store m := rfl

-- ============================================================ the messages

theorem send_nil (w : World) : w.send [] = w := by
  simp [send]

/-- Messages sent one after the other are sent together. -/
theorem send_send (first second : List Message) :
    (w.send first).send second = w.send (first ++ second) := by
  simp [send]

-- ======================================================= asking for a flush

/-- Asking for a flush changes nothing but the mark of the store. -/
theorem host_scheduleFlush (w : World) (n : Nat) :
    (w.scheduleFlush n).session.host
      = (w.session.host.setStore n (w.store n).requestFlush.1).reply .nothing := by
  unfold scheduleFlush Cache.Shelf.ask store
  simp only
  cases (w.session.host.stores n).requestFlush.2 with
  | false => rfl
  | true => rfl

@[simp] theorem disk_scheduleFlush : (w.scheduleFlush n).disk = w.disk := by
  unfold disk
  rw [host_scheduleFlush]
  rfl

@[simp] theorem store_scheduleFlush_self :
    (w.scheduleFlush n).store n = (w.store n).requestFlush.1 := by
  unfold store
  rw [host_scheduleFlush]
  exact if_pos rfl

theorem messages_scheduleFlush : (w.scheduleFlush n).messages = w.messages := by
  unfold scheduleFlush
  split
  · rfl
  · rfl

theorem invocations_scheduleFlush : (w.scheduleFlush n).invocations = w.invocations := by
  unfold scheduleFlush
  split
  · rfl
  · rfl

end TransformCache.World
