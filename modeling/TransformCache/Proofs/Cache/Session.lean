/-
What the requests to stores change, and what they leave alone.

Of all requests only a deferred flush touches the mark that a flush is
pending, and only asking for a flush sets it. Everything else that is asked of
a store changes its entries or turns it off (`act_store`).
-/
import TransformCache.Cache.Session
import TransformCache.Proofs.Cache.Flush

namespace TransformCache.Cache

@[simp] theorem Store.enabled_put (s : Store) (key : String) (entry : Entry) :
    (s.put key entry).enabled = s.enabled := by
  unfold put
  split
  · rfl
  · rfl

namespace Shelf

variable {s : Shelf}

/-- A request other than a deferred flush changes what a store holds, and
whether it is on, but nothing else about it. -/
theorem act_store (e : Request) (he : ∀ m, e ≠ .deferredFlush m) (n : Nat) :
    ∃ entries enabled, (s.act e).stores n = { s.stores n with entries, enabled } := by
  have hsame : ∃ entries enabled, s.stores n = { s.stores n with entries, enabled } :=
    ⟨_, _, rfl⟩
  have hmodify : ∀ (m : Nat) (store : Store),
      (∃ entries enabled, store = { s.stores m with entries, enabled }) →
      ∃ entries enabled, (s.setStore m store).stores n
        = { s.stores n with entries, enabled } := by
    rintro m store ⟨entries, enabled, rfl⟩
    by_cases hnm : n = m
    · subst hnm
      exact ⟨entries, enabled, by simp [setStore]⟩
    · exact ⟨_, _, by simp [setStore, hnm]; rfl⟩
  cases e with
  | deferredFlush m => exact absurd rfl (he m)
  | put m key entry =>
      refine hmodify m _ ?_
      unfold Store.put
      split
      · exact ⟨_, _, rfl⟩
      · exact ⟨_, _, rfl⟩
  | clear m => exact hmodify m _ ⟨_, _, rfl⟩
  | disable m => exact hmodify m _ ⟨_, _, rfl⟩
  | load m =>
      unfold act
      simp only
      cases hload : (s.stores m).load s.disk with
      | error e => exact hsame
      | ok found =>
          obtain ⟨count, store⟩ := found
          refine hmodify m _ ?_
          rcases Store.load_eq_ok hload with ⟨entries, -, -, rfl⟩ | ⟨-, -, rfl⟩
          · exact ⟨_, _, rfl⟩
          · exact ⟨_, _, rfl⟩
  | flushNow m =>
      unfold act
      simp only [flush]
      cases ((s.stores m).flush s.disk).1 with
      | error e => exact hsame
      | ok u => exact hsame
  | flush m => exact hsame
  | lookUp m key => exact hsame
  | holds m key stamp => exact hsame
  | schedule m queue => exact hsame
  | snapshot m => exact hsame
  | path m => exact hsame
  | describe m => exact hsame
  | edit change => exact hsame
  | fileText path => exact hsame
  | fileExists path => exact hsame
  | count k => exact hsame

theorem act_deferredFlush (n m : Nat) :
    (s.act (.deferredFlush n)).stores m
      = if m = n then (s.stores n).beginFlush else s.stores m := rfl

theorem act_made (e : Request) : (s.act e).made = s.made := by
  cases e with
  | load n =>
      unfold act
      simp only
      split <;> rfl
  | flushNow n =>
      unfold act
      simp only [flush]
      cases ((s.stores n).flush s.disk).1 <;> rfl
  | _ => rfl

/-- Asking for anything but a flush to be deferred is the request itself. -/
theorem ask_eq_act (e : Request) (he : ∀ n queue, e ≠ .schedule n queue) :
    s.ask e = (s.act e, none) := by
  cases e with
  | schedule n queue => exact absurd rfl (he n queue)
  | _ => rfl

/-- A store that is on and has no flush pending asks for one. -/
theorem ask_schedule_of_wanted {n : Nat} (queue : Nat) (hon : (s.stores n).enabled = true)
    (hp : (s.stores n).flushPending = false) :
    s.ask (.schedule n queue)
      = ((s.setStore n { s.stores n with flushPending := true }).reply .nothing,
        some (queue, .deferredFlush n)) := by
  simp [ask, Store.requestFlush, hon, hp]

/-- Any other store asks for nothing. -/
theorem ask_schedule_of_unwanted {n : Nat} (queue : Nat)
    (h : ¬ ((s.stores n).enabled = true ∧ (s.stores n).flushPending = false)) :
    s.ask (.schedule n queue)
      = ((s.setStore n (s.stores n)).reply .nothing, none) := by
  have hif : ((s.stores n).enabled && !(s.stores n).flushPending) = false := by
    simpa using h
  simp [ask, Store.requestFlush, hif]

/-- A store that is put back changes nothing. -/
theorem setStore_stores (s : Shelf) (n : Nat) : s.setStore n (s.stores n) = s := by
  have hstores : (fun m => if m = n then s.stores n else s.stores m) = s.stores := by
    funext m
    split
    next hm => rw [hm]
    next => rfl
  unfold setStore
  rw [hstores]

theorem stores_setStore (n m : Nat) (store : Store) :
    (s.setStore n store).stores m = if m = n then store else s.stores m := rfl

end Shelf

end TransformCache.Cache
