/-
The file of a store is a whole snapshot of the store, at every moment.

# The file

The file of a store is what is in the place that its path leads to. Whether the
path can be followed is another matter: there is no way along `a/../store` to
`store` before there is a directory `a`, and a flush that fails may have made
it. Whoever reads at the path reads the file, or nothing.

# Failures

A step comes with the `Hindrance` that a flush meets in it. So flushes fail at
any moments and for any reasons, besides those that the disk has.

# Why nothing else is in the file

Only three requests try a flush (`Request.Tries`). Everything else that can be
asked of a store spares the disk (`Spared`), and no request changes the path or
the limit of a store (`Kept`). A flush that is tried leaves the file as it was,
or as a whole snapshot of what the store holds (`Tried`).

A deferred flush begins nowhere but in a turn or a drain. These are frames on
the stack of what is under way, below the tasks that they run, and the stack
keeps to that (`Framed`).
-/
import TransformCache.Proofs.Cache.Coalescing
import TransformCache.Proofs.Cache.Hindrance

namespace TransformCache.Cache

open FileSystem (goal)

-- ============================================ what requests do to the file

/-- A request that tries a flush of a store. -/
def Request.Tries (n : Nat) : Request → Prop
  | .flush m | .flushNow m | .deferredFlush m => m = n
  | _ => False

/-- A call to a store, or one that looks at the disk. -/
def Request.Calls (n : Nat) : Request → Prop
  | .deferredFlush _ | .edit _ => False
  | .put m .. | .lookUp m _ | .holds m .. | .schedule m _ | .flush m | .flushNow m
  | .load m | .clear m | .disable m | .snapshot m | .path m | .describe m => m = n
  | .fileText _ | .fileExists _ | .count _ => True

/-- A call, or the deferred flush of the store. -/
def Request.Due (n : Nat) (e : Request) : Prop := e.Calls n ∨ e = .deferredFlush n

namespace Shelf

/-- What is in the place of the file of a store. -/
def file (s : Shelf) (n : Nat) : Option Bytes :=
  s.disk.contents (goal s.disk.workingDirectory (s.stores n).path)

/-- A store keeps its path and its limit, and paths begin where they did. -/
structure Kept (n : Nat) (s s' : Shelf) : Prop where
  path : (s'.stores n).path = (s.stores n).path
  sizeLimit : (s'.stores n).sizeLimit = (s.stores n).sizeLimit
  workingDirectory : s'.disk.workingDirectory = s.disk.workingDirectory

/-- No flush was tried. -/
structure Spared (n : Nat) (s s' : Shelf) : Prop where
  disk : s'.disk = s.disk
  path : (s'.stores n).path = (s.stores n).path
  sizeLimit : (s'.stores n).sizeLimit = (s.stores n).sizeLimit

/-- A flush of a store was tried, and the store is as it was but for its mark. -/
structure Tried (h : Hindrance) (n : Nat) (s s' : Shelf) : Prop where
  disk : s'.disk = ((s.stores n).flushUnder h s.disk).2
  store : ∃ flushPending, s'.stores n = { s.stores n with flushPending }

variable {s s' s'' : Shelf} {h : Hindrance} {n : Nat} {e : Request}

theorem Kept.refl (n : Nat) (s : Shelf) : Kept n s s := ⟨rfl, rfl, rfl⟩

theorem Kept.trans (hk : Kept n s s') (hk' : Kept n s' s'') : Kept n s s'' where
  path := hk'.path.trans hk.path
  sizeLimit := hk'.sizeLimit.trans hk.sizeLimit
  workingDirectory := hk'.workingDirectory.trans hk.workingDirectory

theorem Spared.kept (hs : Spared n s s') : Kept n s s' :=
  ⟨hs.path, hs.sizeLimit, by rw [hs.disk]⟩

theorem Spared.file_eq (hs : Spared n s s') : s'.file n = s.file n := by
  unfold file
  rw [hs.disk, hs.path]

theorem Tried.kept (ht : Tried h n s s') : Kept n s s' := by
  obtain ⟨flushPending, hstore⟩ := ht.store
  refine ⟨by rw [hstore], by rw [hstore], ?_⟩
  rw [ht.disk, Store.workingDirectory_flushUnder]

theorem Tried.file_of_saves (ht : Tried h n s s') (hsaves : (s.stores n).SavesUnder h s.disk) :
    s'.file n = some (entriesFile (s.stores n).entries) := by
  unfold file
  rw [ht.kept.path, ht.kept.workingDirectory, ht.disk]
  exact (Store.saved hsaves).1

theorem Tried.file_of_not_saves (ht : Tried h n s s')
    (hno : ¬ (s.stores n).SavesUnder h s.disk) : s'.file n = s.file n := by
  unfold file
  rw [ht.kept.path, ht.kept.workingDirectory, ht.disk]
  exact Store.not_saved hno _

theorem tried_actUnder (he : e.Tries n) : Tried h n s (s.actUnder h e) := by
  cases e with
  | flush m =>
      obtain rfl : m = n := he
      exact ⟨rfl, _, rfl⟩
  | flushNow m =>
      obtain rfl : m = n := he
      unfold actUnder flushUnder
      simp only
      cases ((s.stores m).flushUnder h s.disk).1 with
      | ok u => exact ⟨rfl, _, rfl⟩
      | error reason => exact ⟨rfl, _, rfl⟩
  | deferredFlush m =>
      obtain rfl : m = n := he
      have hstore : (s.setStore m (s.stores m).beginFlush).stores m = (s.stores m).beginFlush :=
        by rw [stores_setStore, if_pos rfl]
      refine ⟨?_, false, hstore⟩
      show (((s.setStore m (s.stores m).beginFlush).stores m).flushUnder h s.disk).2 = _
      rw [hstore]
      rfl
  | _ => cases he

theorem spared_actUnder (hc : e.Calls n) (hno : ¬ e.Tries n) : Spared n s (s.actUnder h e) := by
  have hact : s.actUnder h e = s.act e := by
    cases e with
    | flush m => exact absurd hc hno
    | flushNow m => exact absurd hc hno
    | deferredFlush m => exact hc.elim
    | _ => rfl
  have hdisk : (s.act e).disk = s.disk := by
    cases e with
    | flush m => exact absurd hc hno
    | flushNow m => exact absurd hc hno
    | deferredFlush m => exact hc.elim
    | edit change => exact hc.elim
    | load m =>
        unfold act
        simp only
        split
        · rfl
        · rfl
    | _ => rfl
  have hdeferred : ∀ m, e ≠ .deferredFlush m := by
    rintro m rfl
    exact hc
  obtain ⟨entries, enabled, hstore⟩ := act_store (s := s) e hdeferred n
  rw [hact]
  exact ⟨hdisk, by rw [hstore], by rw [hstore]⟩

theorem askUnder_of_tries (he : e.Tries n) : (s.askUnder h e).1 = s.actUnder h e := by
  cases e with
  | schedule m queue => exact he.elim
  | _ => rfl

theorem spared_askUnder (hc : e.Calls n) (hno : ¬ e.Tries n) :
    Spared n s (s.askUnder h e).1 := by
  cases e with
  | schedule m queue =>
      have hstore : ∃ flushPending,
          (s.askUnder h (.schedule m queue)).1.stores n = { s.stores n with flushPending } := by
        show ∃ flushPending, (s.setStore m (s.stores m).requestFlush.1).stores n
          = { s.stores n with flushPending }
        obtain rfl : m = n := hc
        rw [stores_setStore, if_pos rfl]
        unfold Store.requestFlush
        split
        · exact ⟨_, rfl⟩
        · exact ⟨_, rfl⟩
      obtain ⟨flushPending, hstore⟩ := hstore
      exact ⟨rfl, by rw [hstore], by rw [hstore]⟩
  | _ => exact spared_actUnder (h := h) hc hno

/-- Nothing is deferred but the flush of the store. -/
theorem due_askUnder (he : e.Due n) : ∀ q ∈ (s.askUnder h e).2, q.2.Due n := by
  cases e with
  | schedule m queue =>
      obtain rfl : m = n := he.resolve_right (by rintro ⟨⟩)
      intro q hq
      have hif : (if (s.stores m).requestFlush.2 then some (queue, Request.deferredFlush m)
          else none) = some q := hq
      split at hif
      · cases hif
        exact .inr rfl
      · cases hif
  | _ => exact fun q hq => by cases hq

/-- Flushing at once answers with what the flush came to. -/
theorem answer_flushNow (reason : Error) :
    (s.actUnder h (.flushNow n)).answer = .failure reason ↔
      ((s.stores n).flushUnder h s.disk).1 = .error reason := by
  unfold actUnder flushUnder
  simp only
  cases ((s.stores n).flushUnder h s.disk).1 with
  | ok u => simp [reply]
  | error reason' => simp [reply]

/-- How a shelf is left by a step, which serves a request or does nothing. -/
inductive Served (h : Hindrance) (s : Shelf) : Option Request → Shelf → Prop
  | idle : Served h s none s
  | acted (e : Request) : Served h s (some e) (s.actUnder h e)
  | asked (e : Request) : Served h s (some e) (s.askUnder h e).1

theorem Served.tried (hs : Served h s (some e) s') (he : e.Tries n) : Tried h n s s' := by
  cases hs with
  | acted => exact tried_actUnder he
  | asked => exact askUnder_of_tries he ▸ tried_actUnder he

theorem Served.spared {next : Option Request} (hs : Served h s next s')
    (hno : ∀ e, next = some e → e.Calls n ∧ ¬ e.Tries n) : Spared n s s' := by
  cases hs with
  | idle => exact ⟨rfl, rfl, rfl⟩
  | acted e => exact spared_actUnder (hno e rfl).1 (hno e rfl).2
  | asked e => exact spared_askUnder (hno e rfl).1 (hno e rfl).2

end Shelf

namespace Snapshot

open Turn (Work Orderly)
open TransformCache.Cache.Shelf (Kept Tried Spared Served)
open Coalescing (Moment)

-- ================================================================= moments

/-- What happens next. -/
inductive Move where
  /-- What is under way goes on by one step, and a flush meets a hindrance. -/
  | work (h : Hindrance)
  /-- The program calls, or a task that is under way. -/
  | call (actions : Turn.Task Request)

def Move.apply (m : Moment) : Move → Moment
  | .work h =>
    let next := Turn.advance (Shelf.hostUnder h) (m.stack, m.session)
    { stack := next.1, session := next.2 }
  | .call actions => { m with stack := .task actions :: m.stack }

/-- Calls are calls to one store, and the tasks that they defer do no more than
that. -/
def Move.Allowed (n : Nat) : Move → Prop
  | .work _ => True
  | .call actions => Turn.taskAll (Request.Calls n) actions

/-- The moments of a program over stores and a disk as they are found. -/
def moment (host : Shelf) (moves : Nat → Move) : Nat → Moment
  | 0 => { session := { host } }
  | t + 1 => (moves t).apply (moment host moves t)

/-- The request that is served next, if the next step serves one. -/
def next? : List (Work Request) → Option Request
  | .task (.effect e :: _) :: _ => some e
  | .task (.request e :: _) :: _ => some e
  | .report e :: _ => some e
  | _ => none

/-- A turn or a drain is under way. -/
def Turning (stack : List (Work Request)) : Prop :=
  ∃ w ∈ stack, ∀ actions, w ≠ .task actions

/-- Whatever is under way only calls, or else it is in a turn or a drain. -/
def Framed (n : Nat) : List (Work Request) → Prop
  | [] => True
  | w :: rest => (w.All (Request.Calls n) ∨ Turning rest) ∧ Framed n rest

/-- Nothing but calls and the deferred flush is to be done, and the flush only
in its frame. -/
structure InOrder (n : Nat) (m : Moment) : Prop where
  due : Orderly (Request.Due n) (fun _ => True) m.stack m.session
  framed : Framed n m.stack

/-- A flush of a store is tried next. -/
def Tries (n : Nat) (m : Moment) : Prop := ∃ e, next? m.stack = some e ∧ e.Tries n

/-- A move with which a flush of a store that is on succeeds. -/
def Saves (n : Nat) (m : Moment) (move : Move) : Prop :=
  ∃ h, move = .work h ∧ Tries n m ∧ (m.store n).SavesUnder h m.session.host.disk

-- ============================================================= every moment

theorem served_step (h : Hindrance) (w : Work Request) (rest : List (Work Request))
    (s : Session) :
    Served h s.host (next? (w :: rest)) (Turn.step (Shelf.hostUnder h) w rest s).2.host := by
  cases w with
  | report e => exact .acted e
  | drain queue ran report =>
      simp only [Turn.step]
      split
      · exact .idle
      · exact .idle
  | task actions =>
      cases actions with
      | nil => exact .idle
      | cons a more =>
          cases a with
          | effect e => exact .acted e
          | defer queue task => exact .idle
          | runTurn queue report => exact .idle
          | drain queue report => exact .idle
          | request e =>
              have hasked : ∀ host, host = (s.host.askUnder h e).1 →
                  Served h s.host (some e) host := by
                rintro host rfl
                exact .asked e
              simp only [Turn.step]
              split
              next host hask => exact hasked host (congrArg Prod.fst hask).symm
              next host queue e' hask => exact hasked host (congrArg Prod.fst hask).symm

theorem served_work (h : Hindrance) (m : Moment) :
    Served h m.session.host (next? m.stack) ((Move.work h).apply m).session.host := by
  obtain ⟨stack, session⟩ := m
  cases stack with
  | nil => exact .idle
  | cons w rest => exact served_step h w rest session

variable {n : Nat} {m : Moment} {w : Work Request} {rest stack : List (Work Request)}
  {s : Session}

theorem Turning.append (hturning : Turning stack) (front : List (Work Request)) :
    Turning (front ++ stack) := by
  obtain ⟨frame, hmem, hframe⟩ := hturning
  exact ⟨frame, List.mem_append_right front hmem, hframe⟩

/-- A frame frames what is on top of it. -/
theorem turning_cons {frame : Work Request} (hframe : ∀ actions, frame ≠ .task actions) :
    Turning (frame :: stack) := ⟨frame, List.mem_cons_self, hframe⟩

/-- Tasks that a turn or a drain runs are framed by it. -/
theorem framed_batch (hframed : Framed n stack) (hturning : Turning stack)
    (batch : List (Turn.Task Request)) : Framed n (batch.map .task ++ stack) := by
  induction batch with
  | nil => exact hframed
  | cons task batch ih => exact ⟨.inr (hturning.append _), ih⟩

theorem framed_step {h : Hindrance} (hframed : Framed n (w :: rest)) :
    Framed n (Turn.step (Shelf.hostUnder h) w rest s).1 := by
  obtain ⟨hw, hrest⟩ := hframed
  cases w with
  | report e => exact hrest
  | drain queue ran report =>
      simp only [Turn.step]
      split
      next => exact ⟨hw.imp_left (· ran), hrest⟩
      next task tasks hbatch =>
        have hdrain : Framed n (.drain queue (ran + (task :: tasks).length) report :: rest) :=
          ⟨hw, hrest⟩
        exact framed_batch hdrain (turning_cons fun _ heq => by cases heq) (task :: tasks)
  | task actions =>
      cases actions with
      | nil => exact hrest
      | cons a more =>
          have hmore : Framed n (.task more :: rest) := ⟨hw.imp_left (·.2), hrest⟩
          -- what a task has under way is framed if the task is
          have hframe : ∀ frame : Work Request,
              (a.All (Request.Calls n) → frame.All (Request.Calls n)) →
              Framed n (frame :: .task more :: rest) := by
            intro frame hcalls
            exact ⟨hw.imp (fun hall => hcalls hall.1) fun hturning => hturning.append [_], hmore⟩
          cases a with
          | effect e => exact hmore
          | request e =>
              simp only [Turn.step]
              split
              · exact hmore
              · exact hmore
          | defer queue task => exact hmore
          | runTurn queue report =>
              exact framed_batch (hframe (.report (report (Turn.State.pending s queue))) (· _))
                (turning_cons fun _ heq => by cases heq) _
          | drain queue report => exact hframe (.drain queue 0 report) id

theorem InOrder.apply (ho : InOrder n m) {move : Move} (ha : move.Allowed n) :
    InOrder n (move.apply m) := by
  obtain ⟨stack, session⟩ := m
  cases move with
  | call actions =>
      refine ⟨⟨trivial, fun v hv => ?_⟩, .inl ha, ho.framed⟩
      rcases List.mem_cons.1 hv with rfl | hv
      · exact Turn.taskAll_mono (fun _ => .inl) actions ha
      · exact ho.due.toDo v hv
  | work h =>
      cases stack with
      | nil => exact ho
      | cons w rest =>
          refine ⟨ho.due.step (fun _ _ _ _ => trivial) fun e he s _ => ?_, framed_step ho.framed⟩
          exact ⟨trivial, Shelf.due_askUnder he⟩

/-- What is served next is of the kind that the work is of. -/
theorem next?_all {p : Request → Prop} {e : Request} (hw : w.All p)
    (he : next? (w :: rest) = some e) : p e := by
  unfold next? at he
  split at he
  next hstack =>
    cases hstack
    exact Option.some.inj he ▸ hw.1
  next hstack =>
    cases hstack
    exact Option.some.inj he ▸ hw.1
  next hstack =>
    cases hstack
    exact Option.some.inj he ▸ hw
  next => cases he

/-- What is served next is a call, or a deferred flush in a turn or a drain. -/
theorem InOrder.next (ho : InOrder n m) {e : Request} (he : next? m.stack = some e) :
    e.Calls n ∨ e = .deferredFlush n ∧ Turning m.stack := by
  obtain ⟨stack, session⟩ := m
  cases stack with
  | nil => cases he
  | cons w rest =>
      rcases ho.framed.1 with hcalls | hturning
      · exact .inl (next?_all hcalls he)
      · have hdue : e.Due n := next?_all (ho.due.toDo w List.mem_cons_self) he
        exact hdue.imp_right fun hflush => ⟨hflush, hturning.append [w]⟩

variable {host : Shelf} {moves : Nat → Move}

theorem inOrder_moment (h : ∀ t, (moves t).Allowed n) (t : Nat) :
    InOrder n (moment host moves t) := by
  induction t with
  | zero => exact ⟨⟨trivial, fun _ hw => (List.not_mem_nil hw).elim⟩, trivial⟩
  | succ t ih => exact ih.apply (h t)

-- ============================================================ moves and files

/-- A move tries a flush, under some hindrance, or spares the disk. -/
theorem move_cases (ho : InOrder n m) (move : Move) :
    (∃ h, move = .work h ∧ Tries n m ∧
      Tried h n m.session.host (move.apply m).session.host) ∨
    ((∀ h, move = .work h → ¬ Tries n m) ∧
      Spared n m.session.host (move.apply m).session.host) := by
  cases move with
  | call actions => exact .inr ⟨fun _ heq => (by cases heq), rfl, rfl, rfl⟩
  | work h =>
      have hserved := served_work h m
      by_cases htries : Tries n m
      · obtain ⟨e, hnext, he⟩ := htries
        rw [hnext] at hserved
        exact .inl ⟨h, rfl, ⟨e, hnext, he⟩, hserved.tried he⟩
      · refine .inr ⟨fun _ _ => htries, hserved.spared fun e hnext => ?_⟩
        have hno : ¬ e.Tries n := fun he => htries ⟨e, hnext, he⟩
        rcases ho.next hnext with hcalls | ⟨rfl, -⟩
        · exact ⟨hcalls, hno⟩
        · exact absurd rfl hno

theorem kept_apply (ho : InOrder n m) (move : Move) :
    Kept n m.session.host (move.apply m).session.host := by
  rcases move_cases ho move with ⟨h, -, -, htried⟩ | ⟨-, hspared⟩
  · exact htried.kept
  · exact hspared.kept

/-- A move that saves leaves a whole snapshot in the file. -/
theorem file_of_saves (ho : InOrder n m) {move : Move} (hsaves : Saves n m move) :
    (move.apply m).session.host.file n = some (entriesFile (m.store n).entries) := by
  obtain ⟨h, rfl, htries, hstore⟩ := hsaves
  rcases move_cases ho (.work h) with ⟨h', heq, -, htried⟩ | ⟨hno, -⟩
  · obtain rfl := Move.work.inj heq
    exact htried.file_of_saves hstore
  · exact absurd htries (hno h rfl)

/-- Any other move leaves the file as it is. -/
theorem file_of_not_saves (ho : InOrder n m) {move : Move} (hno : ¬ Saves n m move) :
    (move.apply m).session.host.file n = m.session.host.file n := by
  rcases move_cases ho move with ⟨h, rfl, htries, htried⟩ | ⟨-, hspared⟩
  · exact htried.file_of_not_saves fun hstore => hno ⟨h, rfl, htries, hstore⟩
  · exact hspared.file_eq

/-- What flushing at once is answered with. -/
theorem tooLarge_of_flushNow {h : Hindrance} (hnext : next? m.stack = some (.flushNow n)) :
    (∃ size limit, ((Move.work h).apply m).session.host.answer
        = .failure (.tooLarge size limit)) ↔
      (m.store n).enabled = true ∧
        (m.store n).sizeLimit < (entriesFile (m.store n).entries).length := by
  have hserved := served_work h m
  rw [hnext] at hserved
  have hshelf : ((Move.work h).apply m).session.host
      = m.session.host.actUnder h (.flushNow n) := by
    generalize ((Move.work h).apply m).session.host = after at hserved ⊢
    cases hserved with
    | acted => rfl
    | asked => rfl
  rw [hshelf]
  simp only [Shelf.answer_flushNow]
  exact Store.tooLarge_iff

/-- A flush that fails leaves the file and the store as they are. -/
theorem file_of_failure {h : Hindrance} {reason : Error} (htries : Tries n m)
    (hfails : ((m.store n).flushUnder h m.session.host.disk).1 = .error reason) :
    ((Move.work h).apply m).session.host.file n = m.session.host.file n ∧
      (((Move.work h).apply m).store n).entries = (m.store n).entries ∧
      (((Move.work h).apply m).store n).enabled = (m.store n).enabled := by
  obtain ⟨e, hnext, he⟩ := htries
  have hserved := served_work h m
  rw [hnext] at hserved
  have htried := hserved.tried he
  have hno : ¬ (m.store n).SavesUnder h m.session.host.disk := by
    rintro ⟨-, hok⟩
    rw [hfails] at hok
    cases hok
  obtain ⟨flushPending, hstore⟩ := htried.store
  have hstore' : ((Move.work h).apply m).store n = { m.store n with flushPending } := hstore
  exact ⟨htried.file_of_not_saves hno, by rw [hstore'], by rw [hstore']⟩

theorem kept_moment (h : ∀ t, (moves t).Allowed n) (t : Nat) :
    Kept n host (moment host moves t).session.host := by
  induction t with
  | zero => exact .refl n host
  | succ t ih => exact ih.trans (kept_apply (inOrder_moment h t) (moves t))

/-- The file is that of the last move that saved, or the first file. -/
theorem file_of_last_save (h : ∀ t, (moves t).Allowed n) (t : Nat) :
    let at_ := moment host moves
    (at_ t).session.host.file n = host.file n ∧ (∀ k < t, ¬ Saves n (at_ k) (moves k)) ∨
    ∃ j < t, Saves n (at_ j) (moves j) ∧
      (∀ k, j < k → k < t → ¬ Saves n (at_ k) (moves k)) ∧
      (at_ t).session.host.file n = some (entriesFile ((at_ j).store n).entries) := by
  intro at_
  induction t with
  | zero => exact .inl ⟨rfl, fun k hk => absurd hk (Nat.not_lt_zero k)⟩
  | succ t ih =>
      have ho : InOrder n (at_ t) := inOrder_moment h t
      by_cases hsaves : Saves n (at_ t) (moves t)
      · exact .inr ⟨t, Nat.lt_succ_self t, hsaves, fun k htk hkt => by omega,
          file_of_saves ho hsaves⟩
      · have hfile : (at_ (t + 1)).session.host.file n = (at_ t).session.host.file n :=
          file_of_not_saves ho hsaves
        have hlast : ∀ k, k < t + 1 → (k < t → ¬ Saves n (at_ k) (moves k)) →
            ¬ Saves n (at_ k) (moves k) := by
          intro k hk hbefore
          rcases Nat.lt_succ_iff_lt_or_eq.1 hk with hkt | rfl
          · exact hbefore hkt
          · exact hsaves
        rcases ih with ⟨hfirst, hnone⟩ | ⟨j, hj, hsaved, hsince, hentries⟩
        · exact .inl ⟨hfile.trans hfirst, fun k hk => hlast k hk (hnone k)⟩
        · exact .inr ⟨j, Nat.lt_succ_of_lt hj, hsaved,
            fun k hjk hk => hlast k hk (hsince k hjk), hfile.trans hentries⟩

-- ============================================================ main statement

/-- At every moment of every run over a store, whichever flushes are hindered:
the file of the store is as it was found, or it is what the store held when a
flush succeeded last, written out whole and within the limit; whoever reads at
the path reads that. The file changes only with a flush that the program asks
for, or in a turn or a drain. Flushing at once is answered with the file being
too large when the store is on and its entries are beyond the limit, and only
then. A flush that fails leaves the file, the entries and the store being on
as they were. -/
theorem file_is_snapshot (host : Shelf) (n : Nat) (moves : Nat → Move)
    (h : ∀ t, (moves t).Allowed n) :
    let at_ := moment host moves
    let file := fun t => (at_ t).session.host.file n
    let limit := (host.stores n).sizeLimit
    (∀ t,
      (file t = file 0 ∧ ∀ k < t, ¬ Saves n (at_ k) (moves k)) ∨
      ∃ j < t, Saves n (at_ j) (moves j) ∧
        (∀ k, j < k → k < t → ¬ Saves n (at_ k) (moves k)) ∧
        file t = some (entriesFile ((at_ j).store n).entries) ∧
        (entriesFile ((at_ j).store n).entries).length ≤ limit) ∧
    (∀ t bytes, (at_ t).session.host.disk.read (host.stores n).path = .ok bytes →
      file t = some bytes) ∧
    (∀ t, file (t + 1) ≠ file t →
      ∃ hindrance e, moves t = .work hindrance ∧ next? (at_ t).stack = some e ∧
        (e = .flush n ∨ e = .flushNow n ∨ e = .deferredFlush n ∧ Turning (at_ t).stack)) ∧
    (∀ t hindrance, moves t = .work hindrance → next? (at_ t).stack = some (.flushNow n) →
      ((∃ size limit, (at_ (t + 1)).session.host.answer = .failure (.tooLarge size limit)) ↔
        ((at_ t).store n).enabled = true ∧
          limit < (entriesFile ((at_ t).store n).entries).length)) ∧
    ∀ t hindrance reason, moves t = .work hindrance → Tries n (at_ t) →
      (((at_ t).store n).flushUnder hindrance (at_ t).session.host.disk).1 = .error reason →
      file (t + 1) = file t ∧
        ((at_ (t + 1)).store n).entries = ((at_ t).store n).entries ∧
        ((at_ (t + 1)).store n).enabled = ((at_ t).store n).enabled := by
  intro at_ file limit
  have horder : ∀ t, InOrder n (at_ t) := inOrder_moment h
  have hkept : ∀ t, Kept n host (at_ t).session.host := kept_moment h
  have hlimit : ∀ t, ((at_ t).store n).sizeLimit = limit := fun t => (hkept t).sizeLimit
  have hwork : ∀ t hindrance, moves t = .work hindrance →
      at_ (t + 1) = (Move.work hindrance).apply (at_ t) := by
    intro t hindrance hmove
    show (moves t).apply (at_ t) = _
    rw [hmove]
  refine ⟨fun t => ?_, fun t bytes hread => ?_, fun t hne => ?_, fun t hindrance hmove hnext => ?_,
    fun t hindrance reason hmove htries hfails => ?_⟩
  · rcases file_of_last_save h t with hfirst | ⟨j, hj, hsaved, hsince, hentries⟩
    · exact .inl hfirst
    · refine .inr ⟨j, hj, hsaved, hsince, hentries, ?_⟩
      obtain ⟨hindrance, -, -, hstore⟩ := hsaved
      rw [← hlimit j]
      exact (Store.saved hstore).2
  · show (at_ t).session.host.disk.contents _ = some bytes
    rw [(hkept t).path]
    exact FileSystem.contents_of_read hread
  · obtain ⟨hindrance, hmove, ⟨e, hnext, he⟩, -⟩ : Saves n (at_ t) (moves t) :=
      Classical.not_not.1 fun hno => hne (file_of_not_saves (horder t) hno)
    refine ⟨hindrance, e, hmove, hnext, ?_⟩
    rcases (horder t).next hnext with hcalls | hdeferred
    · cases e with
      | flush m => exact .inl (congrArg _ he)
      | flushNow m => exact .inr (.inl (congrArg _ he))
      | deferredFlush m => exact hcalls.elim
      | _ => exact he.elim
    · exact .inr (.inr hdeferred)
  · rw [hwork t hindrance hmove, ← hlimit t]
    exact tooLarge_of_flushNow hnext
  · rw [show file (t + 1) = (at_ (t + 1)).session.host.file n from rfl,
      hwork t hindrance hmove]
    exact file_of_failure htries hfails

/-- A store with a limit over an empty disk. -/
def limited : Shelf := ((Shelf.ofDisk .empty).add (.limited ⟨"/cache/store"⟩ 1000)).2

/-- A change whose deferred flush may not write the file, and then a flush at
once that may. -/
def missedTurn : Nat → Move
  | 0 => .call
      [.effect (.put 0 "a" ⟨"1", none, .mtime 0⟩), .request (.schedule 0 0), .runTurn 0 .count,
        .effect (.flushNow 0)]
  | 4 => .work (.file .permissionDenied)
  | _ => .work .none

/-- The general statement over a flush that fails and one that does not: no
file comes of the first, and a whole one of the second. -/
theorem file_is_snapshot_missedTurn :
    (∀ t, (missedTurn t).Allowed 0) ∧
      (moment limited missedTurn 5).session.host.file 0 = none ∧
      (moment limited missedTurn 8).session.host.file 0
        = some (entriesFile ((moment limited missedTurn 7).store 0).entries) := by
  have hallowed : ∀ t, (missedTurn t).Allowed 0 := by
    intro t
    unfold missedTurn
    split
    · exact ⟨rfl, rfl, fun _ => trivial, rfl, trivial⟩
    · trivial
    · trivial
  obtain ⟨hfile, -, -, -, hfailure⟩ := file_is_snapshot limited 0 missedTurn hallowed
  have hsaves : Saves 0 (moment limited missedTurn 7) (missedTurn 7) :=
    ⟨.none, rfl, ⟨.flushNow 0, by rfl, rfl⟩, by rfl, by decide +kernel⟩
  refine ⟨hallowed, ?_, ?_⟩
  · have hkept := hfailure 4 (.file .permissionDenied)
      (.unwritable ⟨"/cache/store"⟩ .permissionDenied) rfl ⟨.deferredFlush 0, by rfl, rfl⟩
      (by decide +kernel)
    exact hkept.1.trans (by decide +kernel)
  · rcases hfile 8 with ⟨-, hnone⟩ | ⟨j, hj, -, hlast, hentries, -⟩
    · exact absurd hsaves (hnone 7 (by decide))
    · obtain rfl : j = 7 := by
        by_contra hne
        exact hlast 7 (by omega) (by decide) hsaves
      exact hentries

end Snapshot

end TransformCache.Cache
