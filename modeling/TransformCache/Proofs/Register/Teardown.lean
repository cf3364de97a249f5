/-
What is left of a register that was torn down.

# Once in a life

`tearDown` puts every displaced loader back, flushes the store, and marks the
register; a register with the mark is not torn down a second time. But nothing
keeps it from being used. What it hooks from then on stays hooked when it is
torn down again, hands its table back or is dropped, which are all the same
call, and what it files from then on is not in the file.

`left_by_tearDown` says for every run of a register, which is torn down
somewhere in it, what there is at its end. Exactly if the last installation
after the first tear down asked for no extension, or there was none, are no
extensions hooked and is the table the one that the register began with. The
file is the one that the first tear down wrote.

# Why

For the table a call is an installation or nothing, so the register has always
taken over some extensions of the table of the beginning (`Over`), and `wants`
says which.
The disk is written by flushes alone, and of the calls only the first tear
down flushes. Flushes that were put off are run in turns; a run may have turns
in it, but of the file nothing is said once there was one after the first tear
down.
-/
import TransformCache.Proofs.Cache.Flush
import TransformCache.Proofs.Register.Compile
import TransformCache.Proofs.Register.Hooks

namespace TransformCache.Teardown

open Register (Over over_compile over_configure over_create over_hookExtensions over_tearDown)

-- ==================================================================== runs

/-- A call of a register, or a turn in between. -/
inductive Call where
  | configure (options : Options)
  | hook (extensions : List String)
  | compile (path : FilePath) (inline : Option String)
  | tearDown
  /-- What waits in a queue is run. -/
  | turn (queue : Nat)

/-- A register and the world that it lives in. -/
abbrev State := Register × World

def Call.apply (s : State) : Call → State
  | .configure options => ((s.1.configure s.2 options).register, (s.1.configure s.2 options).world)
  | .hook extensions => s.1.hookExtensions s.2 extensions
  | .compile path inline =>
    ((s.1.compile s.2 path inline).register, (s.1.compile s.2 path inline).world)
  | .tearDown => s.1.tearDown s.2
  | .turn queue => (s.1, s.2.perform [.runTurn queue .count])

def run (s : State) (calls : List Call) : State := calls.foldl Call.apply s

variable {s : State} {c : Call} {calls : List Call} {table : ExtensionTable Loader}
  {wanted : List String}

theorem run_append (s : State) (before after : List Call) :
    run s (before ++ after) = run (run s before) after := List.foldl_append

-- ===================================================== what a call installs

/-- The extensions that a register is to intercept after a call, where `wanted`
were to be intercepted before it. -/
def Call.wants (r : Register) (wanted : List String) : Call → List String
  | .configure options =>
    match r.config.merge options with
    | .error _ => wanted
    | .ok _ => options.extensions.getD wanted
  | .hook extensions => extensions
  | .compile .. => wanted
  | .tearDown => if r.tornDown then wanted else []
  | .turn _ => wanted

/-- The extensions to be intercepted after a run: those of its last
installation. -/
def wants (s : State) (wanted : List String) : List Call → List String
  | [] => wanted
  | c :: rest => wants (c.apply s) (c.wants s.1 wanted) rest

theorem wants_append (before after : List Call) :
    ∀ (s : State) (wanted : List String),
      wants s wanted (before ++ after) = wants (run s before) (wants s wanted before) after := by
  induction before with
  | nil => intro s wanted; rfl
  | cons c rest ih => intro s wanted; exact ih (c.apply s) (c.wants s.1 wanted)

theorem over_apply (h : Over table wanted s.1) (c : Call) :
    Over table (c.wants s.1 wanted) (c.apply s).1 := by
  cases c with
  | configure options => exact over_configure h s.2 options
  | hook extensions => exact over_hookExtensions h s.2 extensions
  | compile path inline => exact over_compile h s.2 path inline
  | tearDown => exact over_tearDown h s.2
  | turn queue => exact h

theorem over_run (calls : List Call) :
    ∀ {s : State} {wanted : List String}, Over table wanted s.1 →
      Over table (wants s wanted calls) (run s calls).1 := by
  induction calls with
  | nil => intro s wanted h; exact h
  | cons c rest ih => intro s wanted h; exact ih (over_apply h c)

-- ================================================ what calls leave as it is

/-- A call leaves a register its engine, its environment and its store, and only
`tearDown` marks it. -/
theorem register_apply (s : State) (c : Call) :
    ∃ config hooks table maps tornDown,
      (c.apply s).1 = { s.1 with config, hooks, table, maps, tornDown } ∧
        (c ≠ .tearDown → tornDown = s.1.tornDown) := by
  cases c with
  | configure options =>
      simp only [Call.apply]
      rcases s.1.configure_cases s.2 options with ⟨hsame, -⟩ | ⟨_, _, _, _, -, hregister, -⟩
      · rw [hsame]
        exact ⟨_, _, _, _, _, rfl, fun _ => rfl⟩
      · rw [hregister]
        exact ⟨_, _, _, _, _, rfl, fun _ => rfl⟩
  | hook extensions => exact ⟨_, _, _, _, _, rfl, fun _ => rfl⟩
  | compile path inline =>
      obtain ⟨maps, hregister⟩ := Register.register_compile s.1 s.2 path inline
      simp only [Call.apply]
      rw [hregister]
      exact ⟨_, _, _, _, _, rfl, fun _ => rfl⟩
  | tearDown =>
      simp only [Call.apply]
      rcases s.1.tearDown_cases s.2 with hsame | ⟨_, _, hdone⟩
      · rw [hsame]
        exact ⟨_, _, _, _, _, rfl, fun _ => rfl⟩
      · rw [hdone]
        exact ⟨_, _, _, _, _, rfl, fun hc => absurd rfl hc⟩
  | turn queue => exact ⟨_, _, _, _, _, rfl, fun _ => rfl⟩

theorem store_apply (s : State) (c : Call) : (c.apply s).1.store = s.1.store := by
  obtain ⟨_, _, _, _, _, hregister, -⟩ := register_apply s c
  rw [hregister]

theorem tornDown_apply (s : State) (hc : c ≠ .tearDown) :
    (c.apply s).1.tornDown = s.1.tornDown := by
  obtain ⟨_, _, _, _, tornDown, hregister, hmark⟩ := register_apply s c
  rw [hregister]
  exact hmark hc

theorem tearDown_of_unmarked {r : Register} (h : r.tornDown = false) (w : World) :
    (r.tearDown w).1.tornDown = true ∧ (r.tearDown w).2 = w.flush r.store := by
  unfold Register.tearDown
  rw [h]
  exact ⟨rfl, rfl⟩

/-- A configuration may turn a store off, and changes no more of the stores and
the disk. -/
theorem world_configure (r : Register) (w : World) (options : Options) :
    (r.configure w options).world.disk = w.disk ∧
      ∀ n, ((r.configure w options).world.store n).entries = (w.store n).entries := by
  rcases r.configure_cases w options with ⟨-, hsame⟩ | ⟨_, _, _, _, -, -, hsession | hsession⟩
  · rw [hsame]
    exact ⟨rfl, fun _ => rfl⟩
  · unfold World.disk World.store
    rw [hsession]
    exact ⟨rfl, fun _ => rfl⟩
  · unfold World.disk World.store
    rw [hsession]
    refine ⟨rfl, fun n => ?_⟩
    show (if n = r.store then (w.store r.store).disable else w.store n).entries = _
    split
    next hn => rw [hn]; rfl
    next => rfl

/-- Between turns no call but `tearDown` writes to the disk. -/
theorem disk_apply (s : State) (hc : c ≠ .tearDown) (hturn : ∀ queue, c ≠ .turn queue) :
    (c.apply s).2.disk = s.2.disk := by
  cases c with
  | configure options => exact (world_configure s.1 s.2 options).1
  | hook extensions => rfl
  | compile path inline => exact Register.disk_compile ..
  | tearDown => exact absurd rfl hc
  | turn queue => exact absurd rfl (hturn queue)

/-- Between turns no call but `compile` files a result. -/
theorem entries_apply (s : State) (hc : ∀ path inline, c ≠ .compile path inline)
    (hturn : ∀ queue, c ≠ .turn queue) (n : Nat) :
    ((c.apply s).2.store n).entries = (s.2.store n).entries := by
  cases c with
  | configure options => exact (world_configure s.1 s.2 options).2 n
  | hook extensions => rfl
  | compile path inline => exact absurd rfl (hc path inline)
  | tearDown =>
      simp only [Call.apply]
      rcases s.1.tearDown_cases s.2 with hsame | ⟨_, _, hdone⟩
      · rw [hsame]
      · rw [hdone]
        exact congrArg Cache.Store.entries (World.store_flush n)
  | turn queue => exact absurd rfl (hturn queue)

-- ============================================================= over a run

theorem store_run (s : State) (calls : List Call) : (run s calls).1.store = s.1.store := by
  induction calls generalizing s with
  | nil => rfl
  | cons c rest ih => exact (ih (c.apply s)).trans (store_apply s c)

theorem tornDown_run (s : State) (h : Call.tearDown ∉ calls) :
    (run s calls).1.tornDown = s.1.tornDown := by
  induction calls generalizing s with
  | nil => rfl
  | cons c rest ih =>
      obtain ⟨hc, hrest⟩ := List.ne_and_not_mem_of_not_mem_cons h
      exact (ih (c.apply s) hrest).trans (tornDown_apply s hc.symm)

/-- Whatever is done with a register that was torn down, the disk stays as it is
between turns. -/
theorem disk_run_of_tornDown (hturn : ∀ queue, Call.turn queue ∉ calls) :
    s.1.tornDown = true → (run s calls).2.disk = s.2.disk := by
  induction calls generalizing s with
  | nil => exact fun _ => rfl
  | cons c rest ih =>
      intro h
      have hrest := ih (s := c.apply s) fun queue hmem => hturn queue (List.mem_cons_of_mem _ hmem)
      by_cases hc : c = .tearDown
      · have hsame : c.apply s = s := by
          rw [hc]
          exact if_pos h
        rw [hsame] at hrest
        rw [← hrest h]
        exact congrArg (fun s => (run s rest).2.disk) hsame
      · have hdisk := disk_apply s hc fun queue heq => hturn queue (heq ▸ List.mem_cons_self)
        exact (hrest ((tornDown_apply s hc).trans h)).trans hdisk

/-- Between turns the entries in memory change by compiles alone. -/
theorem entries_run (s : State) (hturn : ∀ queue, Call.turn queue ∉ calls)
    (hcompile : ∀ path inline, Call.compile path inline ∉ calls) (n : Nat) :
    ((run s calls).2.store n).entries = (s.2.store n).entries := by
  induction calls generalizing s with
  | nil => rfl
  | cons c rest ih =>
      have hrest := ih (c.apply s) (fun queue hmem => hturn queue (List.mem_cons_of_mem _ hmem))
        fun path inline hmem => hcompile path inline (List.mem_cons_of_mem _ hmem)
      exact hrest.trans <| entries_apply s
        (fun path inline heq => hcompile path inline (heq ▸ List.mem_cons_self))
        (fun queue heq => hturn queue (heq ▸ List.mem_cons_self)) n

-- ========================================================== main statement

/-- For every run of a register, `before` being what was done before it was torn
down for the first time: at the end no extension is hooked, and the table is
the one of the beginning, exactly if the last installation since left nothing
to be intercepted. Without turns since, the file holds what the store held when
the register was torn down for the first time, which are the entries in memory
if nothing was compiled since. -/
theorem left_by_tearDown (w : World) (table : ExtensionTable Loader) (engine : Engine)
    (store : Nat) (env : Environment) (workingDirectory : FilePath) {before after : List Call}
    (hfirst : Call.tearDown ∉ before) :
    let begun := Register.create w table engine store env workingDirectory
    let first := run begun before
    let done := run begun (before ++ .tearDown :: after)
    let left := wants (Call.tearDown.apply first) [] after
    let kept := first.2.store store
    (done.1.hookedExtensions = [] ↔ left = []) ∧
    (done.1.table = table ↔ left = []) ∧
    ((∀ queue, Call.turn queue ∉ after) →
      (kept.enabled = true → (kept.flush first.2.disk).1 = .ok () →
        done.2.disk.read kept.path = .ok (Cache.entriesFile kept.entries)) ∧
      ((∀ path inline, Call.compile path inline ∉ after) →
        (done.2.store store).entries = kept.entries)) := by
  intro begun first done left kept
  have hmark : first.1.tornDown = false := tornDown_run begun hfirst
  have hstore : first.1.store = store := store_run begun before
  obtain ⟨hmarked, hflushed⟩ := tearDown_of_unmarked hmark first.2
  have hdone : done = run (Call.tearDown.apply first) after := run_append begun before _
  have hwants : wants begun engine.extensions (before ++ .tearDown :: after) = left := by
    rw [wants_append, wants, Call.wants, hmark]
    rfl
  have hover : Over table left done.1 := by
    rw [← hwants]
    exact over_run _ (over_create w table engine store env workingDirectory)
  refine ⟨hover.hookedExtensions_eq_nil_iff, hover.table_eq_iff, fun hturn =>
    ⟨fun hon hflush => ?_, fun hcompile => ?_⟩⟩
  · have hstays : done.2.disk = (first.1.tearDown first.2).2.disk :=
      hdone ▸ disk_run_of_tornDown hturn hmarked
    rw [hstays, hflushed, World.disk_flush, hstore]
    exact Cache.Store.read_of_flush hon (Prod.ext hflush rfl)
  · rw [hdone, entries_run _ hturn hcompile]
    exact entries_apply first (fun _ _ h => by cases h) (fun _ h => by cases h) store

-- --------------------------------------------------- used after its tear down

/-- An engine that hands over the text of scripts. -/
def scripts : Engine where
  version := "1"
  extensions := [".js"]
  transform text _ := .ok ⟨text, none⟩

/-- One file, and a store whose file is not there. -/
def oneScript : World :=
  ((World.ofDisk (.set .empty ["a.js"] (.file (Utf8.encode "a") 5000))).addStore
    (.opened ⟨"/store"⟩)).2

/-- A register over them and an empty table. -/
def living : State := Register.create oneScript ∅ scripts 0 {} ⟨"/"⟩

def worked : List Call := [.compile ⟨"/a.js"⟩ none, .hook [".ts"]]

/-- The general statement for a register that works and is then torn down
twice. -/
theorem left_by_tearDown_twice :
    Call.tearDown ∉ worked ∧
      let done := run living (worked ++ [.tearDown, .tearDown])
      done.1.hookedExtensions = [] ∧ done.1.table = ∅ ∧
      (done.2.store 0).entries.size = 1 ∧
      done.2.disk.read ⟨"/store"⟩ = .ok (Cache.entriesFile (done.2.store 0).entries) := by
  have hfirst : Call.tearDown ∉ worked := by simp [worked]
  obtain ⟨hhooked, htable, hkept⟩ :=
    @left_by_tearDown oneScript ∅ scripts 0 {} ⟨"/"⟩ worked [.tearDown] hfirst
  obtain ⟨hfile, hentries⟩ := hkept (by simp)
  refine ⟨hfirst, hhooked.2 (by decide +kernel), htable.2 (by decide +kernel), by decide +kernel, ?_⟩
  have hread := hfile (by decide +kernel) (toOption_eq_some.1 (by decide +kernel))
  rw [← hentries (by simp)] at hread
  exact hread

def reused : State :=
  run living [.tearDown, .hook [".js"], .compile ⟨"/a.js"⟩ none, .tearDown]

/-- A register that hooks an extension and compiles a file after it was torn
down has both left when it is torn down again: the extension is hooked, the
table that was empty is not, and the entry is missing in the file, although the
store is on and can be flushed. -/
theorem reused_not_reverted :
    reused.1.hookedExtensions = [".js"] ∧ (reused.1.table.get? ".js").isSome = true ∧
      (reused.2.store 0).enabled = true ∧
      ((reused.2.store 0).flush reused.2.disk).1.toOption = some () ∧
      (reused.2.store 0).entries.size = 1 ∧
      ((reused.2.disk.read ⟨"/store"⟩).toOption.map Utf8.decodeLossy) = some "\x7b\x7d" := by
  decide +kernel

end TransformCache.Teardown
