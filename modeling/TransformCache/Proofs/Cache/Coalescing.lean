/-
Flushes coalesce, and no change is lost by it.

# What is outstanding

A deferred flush is outstanding from the moment it is deferred until it
begins: in its queue, and then in the unrun rest of the batch that its queue
was emptied into. Both are work to be done, so `outstanding` counts over all
of it, wherever it stands. The mark of a store is a count of its outstanding
flushes, and the count is never more than one (`Coalesced.count`).

# Moments

A `Moment` lies between any two steps: of the work that is under way, of the
program that calls the stores, or of a task that does. Calls are worked off
before what is under way goes on, which is what a call from inside of a running
task means; and since any calls may be made at any moment, a task may decide
what to call by what it sees.

# Why no change is lost

Asking for a flush leaves the store's mark set, and only a flush that begins
takes it away (`pending_persists`). What begins later writes what the store
holds then (`begins_writes`).
-/
import TransformCache.Proofs.Cache.Session
import TransformCache.Proofs.Turn

namespace TransformCache.Cache.Coalescing

open Turn (Work)

-- ================================================================= moments

/-- What is under way, what waits, and the stores. -/
structure Moment where
  stack : List (Work Request) := []
  session : Session

def Moment.store (m : Moment) (n : Nat) : Store := m.session.host.stores n

def Moment.made (m : Moment) : Nat := m.session.host.made

/-- What happens next. -/
inductive Move where
  /-- What is under way goes on by one step, if anything is. -/
  | work
  /-- The program calls, or a task that is under way. -/
  | call (actions : Turn.Task Request)
  /-- The program makes a store. -/
  | make (making : Making)

def Move.apply (m : Moment) : Move → Moment
  | .work =>
    let next := Turn.advance Shelf.host (m.stack, m.session)
    { stack := next.1, session := next.2 }
  | .call actions => { m with stack := .task actions :: m.stack }
  | .make making =>
    { m with session := { m.session with host := (m.session.host.add making).2 } }

/-- A call to stores that were made. Nothing but a deferred task begins a
deferred flush. -/
def IsCall (made : Nat) : Request → Prop
  | .deferredFlush _ => False
  | .put n .. | .lookUp n _ | .holds n .. | .schedule n _ | .flush n | .flushNow n
  | .load n | .clear n | .disable n | .snapshot n | .path n | .describe n => n < made
  | .edit _ | .fileText _ | .fileExists _ | .count _ => True

/-- A program calls stores that it has made. The tasks that it defers do no
more than that. -/
def Move.Allowed (m : Moment) : Move → Prop
  | .call actions => Turn.taskAll (IsCall m.made) actions
  | _ => True

/-- The moments of a program that begins without stores. -/
def moment (disk : FileSystem) (moves : Nat → Move) : Nat → Moment
  | 0 => { session := { host := .ofDisk disk } }
  | t + 1 => (moves t).apply (moment disk moves t)

/-- A program that carries out actions calls, and then all of it is worked
off: what a session performs is a number of moves. -/
theorem perform_eq_moves (s : Session) (actions : Turn.Task Request) :
    ∃ k, (fun m => Move.work.apply m)^[k] ((Move.call actions).apply { session := s })
      = { session := s.perform actions } := by
  have hiterate : ∀ (k : Nat) (stack : List (Work Request)) (s : Session),
      (fun m => Move.work.apply m)^[k] ⟨stack, s⟩
        = ⟨((Turn.advance Shelf.host)^[k] (stack, s)).1,
          ((Turn.advance Shelf.host)^[k] (stack, s)).2⟩ := by
    intro k
    induction k with
    | zero => intro stack s; rfl
    | succ k ih =>
        intro stack s
        rw [Function.iterate_succ_apply, Function.iterate_succ_apply]
        exact ih _ _
  obtain ⟨k, hk⟩ := Turn.run_eq_iterate Shelf.host [.task actions] s
  exact ⟨k, by rw [Move.apply, hiterate, hk]; rfl⟩

-- ============================================================= outstanding

/-- The deferred flush of a store. -/
def flushTask (n : Nat) : Turn.Task Request := [.effect (.deferredFlush n)]

/-- The store of a deferred flush that has not begun. -/
def flushOf? : Work Request → Option Nat
  | .task [.effect (.deferredFlush n)] => some n
  | _ => none

/-- The stores of the deferred flushes among work to be done. -/
def flushes (works : List (Work Request)) : List Nat := works.filterMap flushOf?

/-- The stores of all deferred flushes that have not begun. -/
def outstanding (m : Moment) : List Nat := flushes (Turn.toDo m.stack m.session)

/-- The deferred flush of a store begins next. -/
def Begins (n : Nat) (m : Moment) : Prop :=
  ∃ rest, m.stack = .task (flushTask n) :: rest

/-- A flush is asked for next. -/
def Asks (n queue : Nat) (m : Moment) : Prop :=
  ∃ more rest, m.stack = .task (.request (.schedule n queue) :: more) :: rest

/-- Work is a deferred flush, or else calls that a program made. -/
def Proper (made : Nat) (w : Work Request) : Prop :=
  (∃ n, w = .task (flushTask n)) ∨ w.All (IsCall made)

/-- Every mark is the count of the flushes that are to be done. -/
structure Coalesced (works : List (Work Request)) (s : Shelf) : Prop where
  proper : ∀ w ∈ works, Proper s.made w
  count : ∀ n, (flushes works).count n = if (s.stores n).flushPending then 1 else 0
  /-- A store that is not yet made has no flush to wait for. -/
  fresh : ∀ n, s.made ≤ n → (s.stores n).flushPending = false

-- =========================================================== small lemmas

theorem IsCall.mono {a b : Nat} (hab : a ≤ b) (e : Request) (he : IsCall a e) :
    IsCall b e := by
  cases e with
  | deferredFlush n => exact he
  | edit change => trivial
  | fileText path => trivial
  | fileExists path => trivial
  | count k => trivial
  | _ => exact Nat.lt_of_lt_of_le he hab

theorem IsCall.ne_deferredFlush {made : Nat} {e : Request} (he : IsCall made e) (n : Nat) :
    e ≠ .deferredFlush n := by
  rintro rfl
  exact he

theorem Proper.mono {a b : Nat} (hab : a ≤ b) {w : Work Request} (hw : Proper a w) :
    Proper b w := by
  rcases hw with hflush | hall
  · exact .inl hflush
  · exact .inr (hall.mono (IsCall.mono hab) w)

/-- Calls are no deferred flushes. -/
theorem flushOf?_of_calls {made : Nat} {w : Work Request} (hw : w.All (IsCall made)) :
    flushOf? w = none := by
  unfold flushOf?
  split
  next n => exact absurd hw.1 id
  next => rfl

theorem flushes_append_calls {made : Nat} {calls : List (Work Request)}
    (h : ∀ w ∈ calls, w.All (IsCall made)) (works : List (Work Request)) :
    flushes (calls ++ works) = flushes works := by
  have hnil : calls.filterMap flushOf? = [] :=
    List.filterMap_eq_nil_iff.2 fun w hw => flushOf?_of_calls (h w hw)
  unfold flushes
  rw [List.filterMap_append, hnil, List.nil_append]

theorem flushes_cons_flush (n : Nat) (works : List (Work Request)) :
    flushes (.task (flushTask n) :: works) = n :: flushes works := rfl

theorem flushPending_build (disk : FileSystem) (making : Making) :
    (Shelf.build disk making).flushPending = false := by
  cases making with
  | new path => rfl
  | limited path limit => rfl
  | disabled path => rfl
  | opened path =>
      show (Store.openAt path disk).flushPending = false
      rcases Store.openAt_cases path disk with ⟨entries, -, heq⟩ | heq
      · rw [heq]; rfl
      · rw [heq]; rfl

-- ================================================= what happens to the marks

namespace Coalesced

variable {works before parts : List (Work Request)} {s : Shelf} {w : Work Request}

/-- The order of what is to be done does not matter. -/
theorem perm {after : List (Work Request)} (h : after.Perm works) (hc : Coalesced works s) :
    Coalesced after s where
  proper w hw := hc.proper w (h.mem_iff.1 hw)
  count n := by
    rw [← hc.count n]
    exact (h.filterMap _).count_eq n
  fresh := hc.fresh

/-- Calls that are to be made do not matter. -/
theorem append_calls (hc : Coalesced works s) (hparts : ∀ v ∈ parts, v.All (IsCall s.made)) :
    Coalesced (parts ++ works) s where
  proper v hv := by
    rcases List.mem_append.1 hv with hv | hv
    · exact .inr (hparts v hv)
    · exact hc.proper v hv
  count n := by
    rw [flushes_append_calls hparts]
    exact hc.count n
  fresh := hc.fresh

/-- Nor do calls that were made. -/
theorem of_cons_calls (hc : Coalesced (w :: before) s) (hw : w.All (IsCall s.made)) :
    Coalesced before s where
  proper v hv := hc.proper v (List.mem_cons_of_mem _ hv)
  count n := by
    have hone : ∀ v ∈ [w], v.All (IsCall s.made) := by simpa using hw
    rw [← flushes_append_calls hone before]
    exact hc.count n
  fresh := hc.fresh

theorem reply (hc : Coalesced works s) (a : Answer) : Coalesced works (s.reply a) :=
  ⟨hc.proper, hc.count, hc.fresh⟩

theorem act (hc : Coalesced works s) {e : Request} (he : IsCall s.made e) :
    Coalesced works (s.act e) := by
  have hmark : ∀ n, ((s.act e).stores n).flushPending = (s.stores n).flushPending := by
    intro n
    obtain ⟨entries, enabled, heq⟩ := Shelf.act_store e he.ne_deferredFlush n
    rw [heq]
  refine ⟨?_, fun n => ?_, fun n => ?_⟩
  · rw [Shelf.act_made]
    exact hc.proper
  · rw [hmark]
    exact hc.count n
  · rw [Shelf.act_made, hmark]
    exact hc.fresh n

/-- Asking for a flush sets a mark and adds a flush, or does neither. -/
theorem ask (hc : Coalesced works s) {e : Request} (he : IsCall s.made e) :
    Coalesced (((s.ask e).2.map fun q => Work.task [.effect q.2]).toList ++ works)
      (s.ask e).1 := by
  by_cases hschedule : ∃ n queue, e = .schedule n queue
  · obtain ⟨n, queue, rfl⟩ := hschedule
    by_cases hwanted : (s.stores n).enabled = true ∧ (s.stores n).flushPending = false
    · rw [Shelf.ask_schedule_of_wanted queue hwanted.1 hwanted.2]
      suffices hset : Coalesced (.task (flushTask n) :: works)
          (s.setStore n { s.stores n with flushPending := true }) from hset.reply .nothing
      refine ⟨fun v hv => ?_, fun k => ?_, fun k hk => ?_⟩
      · rcases List.mem_cons.1 hv with rfl | hv
        · exact .inl ⟨n, rfl⟩
        · exact hc.proper v hv
      · have hcount := hc.count k
        rw [flushes_cons_flush, List.count_cons, Shelf.stores_setStore]
        by_cases hkn : k = n
        · subst hkn
          rw [hwanted.2] at hcount
          simp [hcount]
        · rw [if_neg hkn, hcount]
          simp [Ne.symm hkn]
      · have hne : k ≠ n := fun heq => by
          subst heq
          exact absurd hk (Nat.not_le.2 he)
        rw [Shelf.stores_setStore, if_neg hne]
        exact hc.fresh k hk
    · rw [Shelf.ask_schedule_of_unwanted queue hwanted]
      have hmark : ∀ k, ((s.setStore n (s.stores n)).stores k) = s.stores k := fun k => by
        rw [Shelf.stores_setStore]
        split
        next heq => rw [heq]
        next => rfl
      suffices hset : Coalesced works (s.setStore n (s.stores n)) from hset.reply .nothing
      refine ⟨hc.proper, fun k => ?_, fun k => ?_⟩
      · rw [hmark]
        exact hc.count k
      · rw [hmark]
        exact hc.fresh k
  · rw [Shelf.ask_eq_act e fun n queue heq => hschedule ⟨n, queue, heq⟩]
    exact hc.act he

/-- A flush that begins takes its mark away. -/
theorem flush {n : Nat} (hc : Coalesced (.task (flushTask n) :: before) s) :
    Coalesced (.task [] :: before) (s.act (.deferredFlush n)) := by
  refine ⟨fun v hv => ?_, fun k => ?_, fun k hk => ?_⟩
  · rcases List.mem_cons.1 hv with rfl | hv
    · exact .inr trivial
    · exact hc.proper v (List.mem_cons_of_mem _ hv)
  · have hcount := hc.count k
    rw [flushes_cons_flush, List.count_cons] at hcount
    show (flushes before).count k = _
    rw [Shelf.act_deferredFlush]
    by_cases hkn : k = n
    · subst hkn
      rw [if_pos rfl]
      simp only [beq_self_eq_true, if_true] at hcount
      -- the flush that begins was the only one
      show _ = 0
      split at hcount <;> omega
    · rw [if_neg hkn]
      simpa [Ne.symm hkn] using hcount
  · rw [Shelf.act_deferredFlush]
    split
    next => rfl
    next => exact hc.fresh k hk

theorem make (hc : Coalesced works s) (making : Making) :
    Coalesced works (s.add making).2 := by
  have hmark : ∀ k, ((s.add making).2.stores k).flushPending
      = (s.stores k).flushPending := by
    intro k
    show ((s.setStore s.made _).stores k).flushPending = _
    rw [Shelf.stores_setStore]
    split
    next heq =>
      rw [flushPending_build, heq, hc.fresh s.made (Nat.le_refl _)]
    next => rfl
  refine ⟨fun v hv => (hc.proper v hv).mono (Nat.le_succ _), fun k => ?_, fun k hk => ?_⟩
  · rw [hmark]
    exact hc.count k
  · rw [hmark]
    exact hc.fresh k (Nat.le_of_succ_le hk)

/-- A step of work that is under way. -/
theorem step {w : Work Request} {rest : List (Work Request)} {s : Session}
    (hc : Coalesced (Turn.toDo (w :: rest) s) s.host) :
    Coalesced (Turn.toDo (Turn.step Shelf.host w rest s).1 (Turn.step Shelf.host w rest s).2)
      (Turn.step Shelf.host w rest s).2.host := by
  have hw : Proper s.host.made w := hc.proper w List.mem_cons_self
  rcases hw with ⟨n, rfl⟩ | hcalls
  · exact hc.flush
  · have hrest := hc.of_cons_calls hcalls
    have hstep := Turn.step_cases Shelf.host w rest s
    generalize (Turn.step Shelf.host w rest s).2.host = host at hstep ⊢
    cases hstep with
    | moved parts hparts hperm =>
        exact (hrest.append_calls (hparts _ hcalls)).perm hperm
    | acted e he parts hparts hperm =>
        exact ((hrest.append_calls (hparts _ hcalls)).act (he _ hcalls)).perm hperm
    | asked e he parts hparts hperm =>
        exact ((hrest.append_calls (hparts _ hcalls)).ask (he _ hcalls)).perm hperm

end Coalesced

-- ============================================================ every moment

theorem coalesced_apply {m : Moment}
    (hc : Coalesced (Turn.toDo m.stack m.session) m.session.host) {move : Move}
    (ha : move.Allowed m) :
    Coalesced (Turn.toDo (move.apply m).stack (move.apply m).session)
      (move.apply m).session.host := by
  obtain ⟨stack, session⟩ := m
  cases move with
  | work =>
      cases stack with
      | nil => exact hc
      | cons w rest => exact hc.step
  | call actions =>
      have hone : ∀ v ∈ [Work.task actions], v.All (IsCall session.host.made) := by
        intro v hv
        rw [List.mem_singleton.1 hv]
        exact ha
      exact hc.append_calls hone
  | make making => exact hc.make making

variable {disk : FileSystem} {moves : Nat → Move}

theorem coalesced_moment (h : ∀ t, (moves t).Allowed (moment disk moves t)) (t : Nat) :
    Coalesced (Turn.toDo (moment disk moves t).stack (moment disk moves t).session)
      (moment disk moves t).session.host := by
  induction t with
  | zero => exact ⟨fun _ hw => (List.not_mem_nil hw).elim, fun _ => rfl, fun _ _ => rfl⟩
  | succ t ih => exact coalesced_apply ih (h t)

-- ======================================================= marks that persist

/-- A request never takes a mark away. -/
theorem flushPending_ask {s : Shelf} {e : Request} {n : Nat} (he : ∀ k, e ≠ .deferredFlush k)
    (hp : (s.stores n).flushPending = true) :
    ((s.ask e).1.stores n).flushPending = true := by
  by_cases hschedule : ∃ k queue, e = .schedule k queue
  · obtain ⟨k, queue, rfl⟩ := hschedule
    show ((s.setStore k (s.stores k).requestFlush.1).stores n).flushPending = true
    rw [Shelf.stores_setStore]
    split
    next heq =>
      subst heq
      unfold Store.requestFlush
      split
      · rfl
      · exact hp
    next => exact hp
  · rw [Shelf.ask_eq_act e fun k queue heq => hschedule ⟨k, queue, heq⟩]
    obtain ⟨entries, enabled, heq⟩ := Shelf.act_store e he n
    rw [heq]
    exact hp

/-- A mark stays until its flush begins. -/
theorem pending_persists {m : Moment} {n : Nat} (move : Move)
    (hc : Coalesced (Turn.toDo m.stack m.session) m.session.host)
    (hp : (m.store n).flushPending = true) :
    ((move.apply m).store n).flushPending = true ∨ move = .work ∧ Begins n m := by
  obtain ⟨stack, session⟩ := m
  cases move with
  | call actions => exact .inl hp
  | make making =>
      left
      show ((session.host.setStore session.host.made _).stores n).flushPending = true
      rw [Shelf.stores_setStore]
      split
      next heq =>
        have hfresh := hc.fresh n (Nat.le_of_eq heq.symm)
        exact absurd (hfresh.symm.trans hp) Bool.false_ne_true
      next => exact hp
  | work =>
      cases stack with
      | nil => exact .inl hp
      | cons w rest =>
          rcases hc.proper w List.mem_cons_self with ⟨k, rfl⟩ | hcalls
          · by_cases hkn : n = k
            · subst hkn
              exact .inr ⟨rfl, rest, rfl⟩
            · left
              show ((session.host.act (.deferredFlush k)).stores n).flushPending = true
              rw [Shelf.act_deferredFlush, if_neg hkn]
              exact hp
          · left
            have hstep := Turn.step_cases Shelf.host w rest session
            show ((Turn.step Shelf.host w rest session).2.host.stores n).flushPending = true
            generalize (Turn.step Shelf.host w rest session).2.host = host at hstep ⊢
            cases hstep with
            | moved => exact hp
            | acted e he =>
                obtain ⟨entries, enabled, heq⟩ := Shelf.act_store (s := session.host) e
                  (he _ hcalls).ne_deferredFlush n
                show ((session.host.act e).stores n).flushPending = true
                rw [heq]
                exact hp
            | asked e he => exact flushPending_ask (he _ hcalls).ne_deferredFlush hp

/-- Where a store that is on asks for a flush, its mark is set. -/
theorem pending_of_asks {m : Moment} {n queue : Nat} (ha : Asks n queue m)
    (hon : (m.store n).enabled = true) :
    ((Move.work.apply m).store n).flushPending = true := by
  obtain ⟨stack, session⟩ := m
  obtain ⟨more, rest, hstack⟩ := ha
  obtain rfl : stack = _ := hstack
  have hmark : (((session.host.ask (.schedule n queue)).1).stores n).flushPending = true := by
    show ((session.host.setStore n (session.host.stores n).requestFlush.1).stores n).flushPending
      = true
    rw [Shelf.stores_setStore, if_pos rfl]
    have hon' : (session.host.stores n).enabled = true := hon
    unfold Store.requestFlush
    cases hp : (session.host.stores n).flushPending with
    | true => simp [hp]
    | false => simp [hon']
  show ((Turn.step Shelf.host _ rest session).2.host.stores n).flushPending = true
  simp only [Turn.step]
  split
  next host hask =>
    have hhost : host = (session.host.ask (.schedule n queue)).1 := (congrArg Prod.fst hask).symm
    rw [hhost]
    exact hmark
  next host k e hask =>
    have hhost : host = (session.host.ask (.schedule n queue)).1 := (congrArg Prod.fst hask).symm
    show (host.stores n).flushPending = true
    rw [hhost]
    exact hmark

/-- A flush that begins writes what its store holds at that moment. -/
theorem begins_writes {m : Moment} {n : Nat} (hb : Begins n m) :
    (Move.work.apply m).store n = (m.store n).beginFlush ∧
      (Move.work.apply m).session.host.disk
        = ((m.store n).flush m.session.host.disk).2 := by
  obtain ⟨stack, session⟩ := m
  obtain ⟨rest, hstack⟩ := hb
  obtain rfl : stack = _ := hstack
  refine ⟨?_, ?_⟩
  · show (session.host.act (.deferredFlush n)).stores n = (session.host.stores n).beginFlush
    rw [Shelf.act_deferredFlush, if_pos rfl]
  · show (((session.host.setStore n (session.host.stores n).beginFlush).stores n).flush
      session.host.disk).2 = ((session.host.stores n).flush session.host.disk).2
    rw [Shelf.stores_setStore, if_pos rfl, Store.flush_beginFlush]

/-- A mark that is set stays from moment to moment until a flush begins. -/
theorem pending_until_begins (h : ∀ t, (moves t).Allowed (moment disk moves t)) {n j t : Nat}
    (hp : ((moment disk moves (j + 1)).store n).flushPending = true) (ht : j < t) :
    ((moment disk moves t).store n).flushPending = true ∨
      ∃ l, j < l ∧ l < t ∧ moves l = .work ∧ Begins n (moment disk moves l) := by
  induction ht with
  | refl => exact .inl hp
  | @step t ht ih =>
      rcases ih with hp | ⟨l, hjl, hlt, hwork, hbegins⟩
      · rcases pending_persists (moves t) (coalesced_moment h t) hp with hp | hb
        · exact .inl hp
        · exact .inr ⟨t, ht, Nat.lt_succ_self t, hb⟩
      · exact .inr ⟨l, hjl, Nat.lt_succ_of_lt hlt, hwork, hbegins⟩

-- ============================================================ main statement

/-- At every moment of every run: the mark of a store is set when exactly one
flush of it is outstanding, and there are never more. Once a store that is on
has asked for a flush, one is outstanding until one begins. A flush that
begins takes the mark away and, if its store is on, writes what the store
holds at that moment, or fails. -/
theorem flushes_coalesce (disk : FileSystem) (moves : Nat → Move)
    (h : ∀ t, (moves t).Allowed (moment disk moves t)) (n : Nat) :
    let at_ := moment disk moves
    (∀ t, (outstanding (at_ t)).count n ≤ 1 ∧
      (((at_ t).store n).flushPending = true ↔ (outstanding (at_ t)).count n = 1)) ∧
    (∀ j queue, moves j = .work → Asks n queue (at_ j) →
      ((at_ j).store n).enabled = true →
      ∀ t, j < t → (outstanding (at_ t)).count n = 1 ∨
        ∃ l, j < l ∧ l < t ∧ moves l = .work ∧ Begins n (at_ l)) ∧
    ∀ t, moves t = .work → Begins n (at_ t) →
      let s := (at_ t).store n
      let before := (at_ t).session.host.disk
      let after := (at_ (t + 1)).session.host.disk
      (at_ (t + 1)).store n = s.beginFlush ∧ after = (s.flush before).2 ∧
      (s.enabled = false → after = before) ∧
      (s.enabled = true → (s.flush before).1 = .ok () →
        after.read s.path = .ok (entriesFile s.entries)) := by
  intro at_
  have hcount : ∀ t, (outstanding (at_ t)).count n
      = if ((at_ t).store n).flushPending then 1 else 0 := fun t =>
    (coalesced_moment h t).count n
  refine ⟨fun t => ?_, ?_, ?_⟩
  · rw [hcount t]
    cases ((at_ t).store n).flushPending with
    | true => simp
    | false => simp
  · intro j queue hmove ha hon t ht
    have hset : ((at_ (j + 1)).store n).flushPending = true := by
      show (((moves j).apply (at_ j)).store n).flushPending = true
      rw [hmove]
      exact pending_of_asks ha hon
    rcases pending_until_begins h hset ht with hp | hbegun
    · left
      rw [hcount t, hp]
      rfl
    · exact .inr hbegun
  · intro t hmove hb s before after
    have hnext : at_ (t + 1) = Move.work.apply (at_ t) := by
      show (moves t).apply (at_ t) = _
      rw [hmove]
    obtain ⟨hstore, hdisk⟩ := begins_writes hb
    have hafter : after = (s.flush before).2 := by
      show (at_ (t + 1)).session.host.disk = _
      rw [hnext]
      exact hdisk
    refine ⟨by rw [hnext]; exact hstore, hafter, fun hoff => ?_, fun hon hok => ?_⟩
    · rw [hafter, Store.flush_of_disabled hoff]
    · rw [hafter]
      exact Store.read_of_flush hon (Prod.ext hok rfl)

/-- Two changes in one turn, each with a flush asked for, and the turn that
follows. -/
def twoPuts : Nat → Move
  | 0 => .make (.new ⟨"/store"⟩)
  | 1 => .call
      [.effect (.put 0 "a" ⟨"1", none, .mtime 0⟩), .request (.schedule 0 0),
        .effect (.put 0 "b" ⟨"2", none, .mtime 0⟩), .request (.schedule 0 0),
        .runTurn 0 .count]
  | _ => .work

/-- The general statement over two changes: one flush is outstanding after
both, and when it has begun the file holds both. -/
theorem flushes_coalesce_twoPuts :
    (∀ t, (twoPuts t).Allowed (moment .empty twoPuts t)) ∧
      (outstanding (moment .empty twoPuts 6)).count 0 = 1 ∧
      (moment .empty twoPuts 8).session.host.disk.read ⟨"/store"⟩
        = .ok (entriesFile ((moment .empty twoPuts 7).store 0).entries) := by
  have hallowed : ∀ t, (twoPuts t).Allowed (moment .empty twoPuts t) := by
    intro t
    match t with
    | 0 => trivial
    | 1 =>
        have hmade : 0 < (moment .empty twoPuts 1).made := Nat.zero_lt_one
        exact ⟨hmade, hmade, hmade, hmade, fun _ => trivial, trivial⟩
    | t + 2 => trivial
  have h := flushes_coalesce .empty twoPuts hallowed 0
  have hwrites := h.2.2 7 rfl ⟨_, rfl⟩
  have hok : ∀ r : Except Error Unit, r.toBool = true → r = .ok () := fun r hr => by
    cases r with
    | ok u => rfl
    | error e => cases hr
  exact ⟨hallowed, (h.1 6).2.1 rfl, hwrites.2.2.2 rfl (hok _ (by decide +kernel))⟩

end TransformCache.Cache.Coalescing
