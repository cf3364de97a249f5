/-
What becomes of a store's file is not seen by those who use the register.

# Two lives side by side

Two lives of one register in which the same is done with it, and the same
happens to the files that it is used for, may differ in all that concerns the
store's file: when turns are run, when the store is flushed, how large the file
may be, and what is found in the place where it is to be written
(`Move.interlude`). At every step they answer the same, and have sent the same
messages, called the engine for the same and hold the same entries and source
maps (`persistence_unseen`).

# Why

A flush writes what the store holds and reads nothing back; it changes the disk
only on the way of its file, and where there was no directory at the beginning
(`Exposed`). As long as no file that is used has such a place on its way, an
interlude leaves a world that is `Level` with the one before. And in two worlds
that are level the same move does the same, and leaves worlds that are level
again: a compile has the same view of its file and of the entries, so it does
the same deed.

Without interludes a run is the sequence of what is done with the register, so
it is enough to compare each run with that one (`scenes_eq`).
-/
import TransformCache.Proofs.Register.Life

namespace TransformCache.Life

open Cache (Request Shelf)
open FileSystem (Agree Edit Filling goal way)
open Register (Deed Over View)
open Teardown (Call State)

variable {begun disk disk' : FileSystem} {file path : FilePath} {n : Nat} {r : Register}
  {v w : World} {s s' : State} {m : Move} {moves : List Move} {inline : Option String}
  {table : ExtensionTable Loader}

-- ================================================== what flushes can change

/-- A place that flushes to a file can change: it is on the file's way, and there
was no directory to begin with. -/
def Exposed (begun : FileSystem) (file : FilePath) (l : Location) : Prop :=
  l ∈ way begun.workingDirectory file ∧ begun.entry l ≠ some .directory

instance (begun : FileSystem) (file : FilePath) (l : Location) :
    Decidable (Exposed begun file l) := inferInstanceAs (Decidable (_ ∧ _))

/-- A place that they leave alone. -/
def Safe (begun : FileSystem) (file : FilePath) (l : Location) : Prop := ¬ Exposed begun file l

instance (begun : FileSystem) (file : FilePath) (l : Location) :
    Decidable (Safe begun file l) := inferInstanceAs (Decidable (¬ _))

/-- A path all of whose way is left alone. -/
def Clear (begun : FileSystem) (file path : FilePath) : Prop :=
  ∀ l ∈ way begun.workingDirectory path, Safe begun file l

instance (begun : FileSystem) (file path : FilePath) : Decidable (Clear begun file path) :=
  inferInstanceAs (Decidable (∀ l ∈ way begun.workingDirectory path, Safe begun file l))

/-- The directories still stand that a file's way led through at the beginning. -/
structure Stands (begun : FileSystem) (file : FilePath) (disk : FileSystem) : Prop where
  workingDirectory : disk.workingDirectory = begun.workingDirectory
  directory : ∀ l ∈ way begun.workingDirectory file, begun.entry l = some .directory →
    disk.entry l = some .directory

/-- What is filled in on the file's way lies in exposed places. -/
theorem Stands.fill (h : Stands begun file disk)
    (hfilled : Filling (way disk.workingDirectory file) disk disk') :
    Stands begun file disk' ∧ Agree (Safe begun file) disk disk' := by
  refine ⟨⟨hfilled.workingDirectory.trans h.workingDirectory, fun l hl hd =>
    hfilled.directory (h.directory l hl hd)⟩, fun l hsafe => ?_, hfilled.workingDirectory.symm,
    hfilled.clock.symm⟩
  rcases hfilled.entry l with hsame | ⟨hl, hno⟩
  · exact hsame.symm
  · rw [h.workingDirectory] at hl
    exact absurd ⟨hl, fun hd => hno (h.directory l hl hd)⟩ hsafe

/-- Something else at an exposed place leaves the others alone. -/
theorem Stands.found (h : Stands begun file disk) {place : Location}
    (hplace : Exposed begun file place) (e : Option DiskEntry) :
    Stands begun file (found disk place e) ∧ Agree (Safe begun file) disk (found disk place e) := by
  refine ⟨⟨h.workingDirectory, fun l hl hd => ?_⟩, fun l hsafe => ?_, rfl, rfl⟩
  · have hne : l ≠ place := fun heq => hplace.2 (heq ▸ hd)
    exact (if_neg hne).trans (h.directory l hl hd)
  · have hne : l ≠ place := fun heq => hsafe (heq ▸ hplace)
    exact (if_neg hne).symm

-- ========================================================= worlds that are level

/-- A world in which a store is kept in a file and nothing waits but flushes of
it, while the directories of the beginning stand. -/
structure Settled (begun : FileSystem) (file : FilePath) (n : Nat) (w : World) : Prop where
  path : (w.store n).path = file
  awaits : Awaits (· = n) w
  stands : Stands begun file w.disk

/-- Two worlds that differ in nothing that a register shows of them: it is found
the same in places that are left alone and in the store, and the same was sent
and asked. -/
structure Level (begun : FileSystem) (file : FilePath) (n : Nat) (v w : World) : Prop where
  disk : Agree (Safe begun file) v.disk w.disk
  entries : (v.store n).entries = (w.store n).entries
  enabled : (v.store n).enabled = (w.store n).enabled
  messages : v.messages = w.messages
  invocations : v.invocations = w.invocations

theorem Level.refl (w : World) : Level begun file n w w := ⟨.refl _ _, rfl, rfl, rfl, rfl⟩

theorem Level.symm (h : Level begun file n v w) : Level begun file n w v :=
  ⟨h.disk.symm, h.entries.symm, h.enabled.symm, h.messages.symm, h.invocations.symm⟩

theorem Level.trans {u : World} (h : Level begun file n u v) (h' : Level begun file n v w) :
    Level begun file n u w :=
  ⟨h.disk.trans h'.disk, h.entries.trans h'.entries, h.enabled.trans h'.enabled,
    h.messages.trans h'.messages, h.invocations.trans h'.invocations⟩

-- ============================================================== interludes

/-- Running flushes that wait fills in the way of the file, and takes off no more
than a mark of the store. -/
theorem perform_fills (hw : Awaits (· = n) w) {actions : Turn.Task Request}
    (hactions : Turn.taskAll (Flushes (· = n)) actions) :
    Filling (way w.disk.workingDirectory (w.store n).path) w.disk (w.perform actions).disk ∧
      (∃ flushPending, (w.perform actions).store n = { w.store n with flushPending }) ∧
      Awaits (· = n) (w.perform actions) := by
  have hflush : ∀ m, m = n → ∀ x : Shelf,
      (Filling (way w.disk.workingDirectory (w.store n).path) w.disk x.disk ∧
        ∃ flushPending, x.stores n = { w.store n with flushPending }) →
      Filling (way w.disk.workingDirectory (w.store n).path) w.disk (x.deferredFlush m).disk ∧
        ∃ flushPending, (x.deferredFlush m).stores n = { w.store n with flushPending } := by
    rintro m rfl x ⟨hfilled, flushPending, hstore⟩
    have hbegin : (x.deferredFlush m).stores m = (x.stores m).beginFlush := if_pos rfl
    have hdisk : (x.deferredFlush m).disk = ((x.stores m).flush x.disk).2 := by
      rw [← Cache.Store.flush_beginFlush]
      show (((x.setStore m _).stores m).flush x.disk).2 = _
      rw [Shelf.stores_setStore, if_pos rfl]
    refine ⟨?_, false, ?_⟩
    · have hmore := Cache.Store.filling_flush (x.stores m) x.disk
      rw [hfilled.workingDirectory, show (x.stores m).path = (w.store m).path by rw [hstore]]
        at hmore
      rw [hdisk]
      exact hfilled.trans hmore
    · rw [hbegin, hstore]
      rfl
  obtain ⟨⟨hfilled, hstore⟩, hawaits⟩ := perform_awaiting
    (P := fun disk stores =>
      Filling (way w.disk.workingDirectory (w.store n).path) w.disk disk ∧
        ∃ flushPending, stores n = { w.store n with flushPending })
    hflush hw ⟨.refl _ _, _, rfl⟩ hactions
  exact ⟨hfilled, hstore, hawaits⟩

theorem Settled.perform (h : Settled begun file n w) {actions : Turn.Task Request}
    (hactions : Turn.taskAll (Flushes (· = n)) actions) :
    Settled begun file n (w.perform actions) ∧ Level begun file n w (w.perform actions) := by
  obtain ⟨hfilled, ⟨flushPending, hstore⟩, hawaits⟩ := perform_fills h.awaits hactions
  rw [h.path] at hfilled
  obtain ⟨hstands, hagree⟩ := h.stands.fill hfilled
  refine ⟨⟨?_, hawaits, hstands⟩, hagree, ?_, ?_, rfl, rfl⟩
  · rw [hstore]
    exact h.path
  · rw [hstore]
  · rw [hstore]

theorem Settled.flush (h : Settled begun file n w) :
    Settled begun file n (w.flush n) ∧ Level begun file n w (w.flush n) := by
  have hfilled := Cache.Store.filling_flush (w.store n) w.disk
  rw [h.path] at hfilled
  obtain ⟨hstands, hagree⟩ := h.stands.fill hfilled
  exact ⟨⟨h.path, h.awaits, hstands⟩, hagree, rfl, rfl, rfl, rfl⟩

/-- Moves that concern the file of the store alone. -/
def Move.interlude : Move → Bool
  | .call (.turn _) | .drain _ | .flush | .mishap .. | .limit _ => true
  | _ => false

/-- A move keeps apart from the file of the store. Files that are loaded or
changed from outside have no exposed place on their way, and no directory on
the way of the store's file is changed from outside; only exposed places are
the scene of mishaps. -/
def Move.Apart (begun : FileSystem) (file : FilePath) : Move → Prop
  | .call (.compile path _) => Clear begun file path
  | .load path _ => Clear begun file path
  | .edit change => Clear begun file change.path ∧
      ∀ l ∈ way begun.workingDirectory file, ¬ goal begun.workingDirectory change.path <+: l
  | .mishap place _ => Exposed begun file place
  | _ => True

instance (begun : FileSystem) (file : FilePath) :
    (m : Move) → Decidable (m.Apart begun file)
  | .call (.compile path _) => inferInstanceAs (Decidable (Clear begun file path))
  | .load path _ => inferInstanceAs (Decidable (Clear begun file path))
  | .edit change => inferInstanceAs (Decidable (Clear begun file change.path ∧
      ∀ l ∈ way begun.workingDirectory file, ¬ goal begun.workingDirectory change.path <+: l))
  | .mishap place _ => inferInstanceAs (Decidable (Exposed begun file place))
  | .call (.configure _) | .call (.hook _) | .call .tearDown | .call (.turn _)
  | .drain _ | .flush | .limit _ => inferInstanceAs (Decidable True)

/-- An interlude leaves the register as it is, and its world level. -/
theorem interlude_apply (hstore : s.1.store = n) (h : Settled begun file n s.2)
    (hm : m.interlude = true) (hapart : m.Apart begun file) :
    (m.apply s).1 = s.1 ∧ Settled begun file n (m.apply s).2 ∧
      Level begun file n s.2 (m.apply s).2 := by
  cases m with
  | call c =>
      cases c with
      | turn queue => exact ⟨rfl, h.perform ⟨fun _ => trivial, trivial⟩⟩
      | _ => cases hm
  | load path inline => cases hm
  | edit change => cases hm
  | drain queue => exact ⟨rfl, h.perform ⟨fun _ => trivial, trivial⟩⟩
  | flush =>
      have hflushed := h.flush
      rw [← hstore] at hflushed ⊢
      exact ⟨rfl, hflushed⟩
  | mishap place e =>
      obtain ⟨hstands, hagree⟩ := h.stands.found hapart e
      exact ⟨rfl, ⟨h.path, h.awaits, hstands⟩, hagree, rfl, rfl, rfl, rfl⟩
  | limit bytes =>
      have hlimited : ((Move.limit bytes).apply s).2.store n
          = { s.2.store n with sizeLimit := bytes } := by
        rw [← hstore]
        exact World.store_modifyStore_self _
      refine ⟨rfl, ⟨?_, h.awaits, h.stands⟩, .refl _ _, ?_, ?_, rfl, rfl⟩
      · rw [hlimited]
        exact h.path
      · rw [hlimited]
      · rw [hlimited]

-- ================================================= the same done in both worlds

theorem Level.send (h : Level begun file n v w) (messages : List Message) :
    Level begun file n (v.send messages) (w.send messages) :=
  ⟨h.disk, h.entries, h.enabled, congrArg (· ++ messages) h.messages, h.invocations⟩

theorem Settled.send (h : Settled begun file n w) (messages : List Message) :
    Settled begun file n (w.send messages) := ⟨h.path, h.awaits, h.stands⟩

theorem Level.disable (h : Level begun file n v w) :
    Level begun file n (v.modifyStore n (·.disable)) (w.modifyStore n (·.disable)) where
  disk := h.disk
  entries := by
    rw [World.store_modifyStore_self, World.store_modifyStore_self]
    exact h.entries
  enabled := by
    rw [World.store_modifyStore_self, World.store_modifyStore_self]
    rfl
  messages := h.messages
  invocations := h.invocations

theorem Settled.disable (h : Settled begun file n w) :
    Settled begun file n (w.modifyStore n (·.disable)) where
  path := by
    rw [World.store_modifyStore_self]
    exact h.path
  awaits := h.awaits
  stands := h.stands

/-- A change from outside, made to both disks. -/
theorem Level.edit (hv : Settled begun file n v) (h : Level begun file n v w) {change : Edit}
    (hclear : Clear begun file change.path) :
    Level begun file n (v.edit change) (w.edit change) where
  disk := h.disk.edit change (by rw [hv.stands.workingDirectory]; exact hclear)
  entries := h.entries
  enabled := h.enabled
  messages := h.messages
  invocations := h.invocations

theorem Settled.edit (h : Settled begun file n w) {change : Edit}
    (hoff : ∀ l ∈ way begun.workingDirectory file,
      ¬ goal begun.workingDirectory change.path <+: l) :
    Settled begun file n (w.edit change) where
  path := h.path
  awaits := h.awaits
  stands := by
    refine ⟨?_, fun l hl hd => ?_⟩
    · exact (FileSystem.workingDirectory_edit w.disk change).trans h.stands.workingDirectory
    · refine FileSystem.directory_edit change ?_ (h.stands.directory l hl hd)
      show ¬ goal w.disk.workingDirectory change.path <+: l
      rw [h.stands.workingDirectory]
      exact hoff l hl

-- ---------------------------------------------------------------- compiling

theorem Level.outcome (hr : r.store = n) (h : Level begun file n v w) (d : Deed) :
    Level begun file n (d.outcome r v).world (d.outcome r w).world := by
  subst hr
  obtain ⟨_, hv⟩ := Register.store_outcome d r v
  obtain ⟨_, hw⟩ := Register.store_outcome d r w
  constructor
  case disk =>
    rw [Register.disk_outcome, Register.disk_outcome]
    exact h.disk
  case entries =>
    rw [hv, hw]
    exact d.entries_enter h.enabled h.entries
  case enabled =>
    rw [hv, hw]
    show (d.enter _).enabled = (d.enter _).enabled
    rw [d.enabled_enter, d.enabled_enter, h.enabled]
  case messages => rw [Register.messages_outcome, Register.messages_outcome, h.messages]
  case invocations =>
    rw [Register.invocations_outcome, Register.invocations_outcome, h.invocations]

theorem Settled.compile (hr : r.store = n) (h : Settled begun file n w) (path : FilePath)
    (inline : Option String) : Settled begun file n (r.compile w path inline).world := by
  subst hr
  constructor
  case awaits => exact awaits_compile h.awaits rfl path inline
  case path =>
    rw [Register.compile_eq]
    obtain ⟨_, hstore⟩ := Register.store_outcome (r.deed w path inline) r w
    rw [hstore]
    exact (Deed.path_enter ..).trans h.path
  case stands =>
    rw [Register.compile_eq, Register.disk_outcome]
    exact h.stands

/-- In worlds that are level a compile does the same. -/
theorem compile_level (hr : r.store = n) (hv : Settled begun file n v)
    (h : Level begun file n v w) (hclear : Clear begun file path) (inline : Option String) :
    (r.compile v path inline).result = (r.compile w path inline).result ∧
      (r.compile v path inline).register = (r.compile w path inline).register ∧
      Level begun file n (r.compile v path inline).world (r.compile w path inline).world := by
  have hview : View r.store path v w := by
    subst hr
    refine ⟨h.disk.lookUp_eq ?_, h.disk.clock, h.enabled, h.entries⟩
    rw [hv.stands.workingDirectory]
    exact hclear
  rw [Register.compile_eq, Register.compile_eq, Register.deed_congr hview]
  exact ⟨rfl, rfl, h.outcome hr _⟩

-- ------------------------------------------------------------------ loading

/-- A loader that looks at nothing but what its file's way leads to, as long as
the way leads through certain places. -/
def Blind (S : Location → Prop) (loader : Loader) : Prop :=
  ∀ (disk disk' : FileSystem) (path : FilePath) (inline : Option String), Agree S disk disk' →
    (∀ l ∈ way disk.workingDirectory path, S l) →
    passed loader disk path inline = passed loader disk' path inline

theorem blind_unchanged (S : Location → Prop) : Blind S .unchanged := by
  intro disk disk' path inline h hway
  unfold passed unchangedCode FileSystem.readText FileSystem.read
  rw [h.lookUp_eq hway]

/-- What a register puts in a table of loaders looks at no more than those do. -/
theorem blind_table {S : Location → Prop}
    (hblind : ∀ e loader, table.get? e = some loader → Blind S loader)
    (hover : ∃ wanted, Over table wanted r) {e : String} {loader : Loader}
    (hloader : r.table.get? e = some loader) : Blind S loader := by
  obtain ⟨wanted, hover⟩ := hover
  rw [hover.get?_table] at hloader
  split at hloader
  · obtain rfl := Option.some.inj hloader
    -- the loader that files are passed on to decides
    suffices hdelegate : Blind S ((table.get? e
        <|> table.get? HookManager.fallbackExtension).getD .unchanged) from hdelegate
    cases hown : table.get? e with
    | some own => exact hblind e own hown
    | none =>
        cases hfallback : table.get? HookManager.fallbackExtension with
        | some other => exact hblind _ other hfallback
        | none => exact blind_unchanged S
  · exact hblind e loader hloader

/-- In worlds that are level a load does the same. -/
theorem load_level (hr : r.store = n)
    (hblind : ∀ e loader, table.get? e = some loader → Blind (Safe begun file) loader)
    (hover : ∃ wanted, Over table wanted r) (hv : Settled begun file n v)
    (hw : Settled begun file n w) (h : Level begun file n v w) (hclear : Clear begun file path)
    (inline : Option String) :
    (r.load v path inline).result = (r.load w path inline).result ∧
      (r.load v path inline).register = (r.load w path inline).register ∧
      Settled begun file n (r.load v path inline).world ∧
      Settled begun file n (r.load w path inline).world ∧
      Level begun file n (r.load v path inline).world (r.load w path inline).world := by
  cases hcompiles : compiles r path with
  | true =>
      rw [load_of_compiles hcompiles, load_of_compiles hcompiles]
      obtain ⟨hresult, hregister, hlevel⟩ :=
        compile_level hr (hv.send _) (h.send (r.config.trace ("loading " ++ path.text))) hclear
          inline
      exact ⟨congrArg (Handover.mk path <$> ·) hresult, hregister,
        (hv.send _).compile hr path inline, (hw.send _).compile hr path inline, hlevel⟩
  | false =>
      obtain ⟨messages, hload⟩ := load_of_not_compiles hcompiles inline
      rw [hload, hload]
      refine ⟨?_, rfl, hv.send _, hw.send _, h.send _⟩
      show handed r v.disk path inline = handed r w.disk path inline
      unfold handed ExtensionTable.loaderFor
      cases hloader : r.table.get? (ExtensionTable.extensionOf path) with
      | none => rfl
      | some loader =>
          have hsame := blind_table hblind hover hloader v.disk w.disk path inline h.disk
            (by rw [hv.stands.workingDirectory]; exact hclear)
          simp only [hsame]

-- ------------------------------------------------------------ other calls

theorem tearDown_eq (r : Register) :
    ∃ register, ∀ w, r.tearDown w = (register, if r.tornDown then w else w.flush r.store) := by
  unfold Register.tearDown
  cases r.tornDown with
  | true => exact ⟨r, fun w => rfl⟩
  | false => exact ⟨_, fun w => rfl⟩

-- =============================================================== both lives

/-- What a move answers. -/
inductive Reply where
  | nothing
  | configured (result : Except Error Unit)
  | compiled (result : Except Error String)
  | loaded (result : Except Error Handover)

def Move.reply (s : State) : Move → Reply
  | .call (.configure options) => .configured (s.1.configure s.2 options).result
  | .call (.compile path inline) => .compiled (s.1.compile s.2 path inline).result
  | .load path inline => .loaded (s.1.load s.2 path inline).result
  | _ => .nothing

/-- Two lives of one register, in worlds that are level. -/
structure Alike (begun : FileSystem) (file : FilePath) (n : Nat) (table : ExtensionTable Loader)
    (s s' : State) : Prop where
  register : s.1 = s'.1
  store : s.1.store = n
  hooked : ∃ wanted, Over table wanted s.1
  left : Settled begun file n s.2
  right : Settled begun file n s'.2
  level : Level begun file n s.2 s'.2

/-- An interlude in one of two lives. -/
theorem Alike.interlude (h : Alike begun file n table s s') (hm : m.interlude = true)
    (hapart : m.Apart begun file) : Alike begun file n table (m.apply s) s' := by
  obtain ⟨hregister, hsettled, hlevel⟩ := interlude_apply h.store h.left hm hapart
  refine ⟨hregister.trans h.register, ?_, ?_, hsettled, h.right, hlevel.symm.trans h.level⟩
  · rw [hregister]
    exact h.store
  · rw [hregister]
    exact h.hooked

/-- The same move in two lives answers the same, and leaves them alike. -/
theorem Alike.apply
    (hblind : ∀ e loader, table.get? e = some loader → Blind (Safe begun file) loader)
    (h : Alike begun file n table s s') (hm : m.interlude = false)
    (hapart : m.Apart begun file) :
    m.reply s = m.reply s' ∧ Alike begun file n table (m.apply s) (m.apply s') := by
  have hstore : (m.apply s).1.store = n := (store_apply s m).trans h.store
  have hafter : ∃ wanted, Over table wanted (m.apply s).1 := over_run h.hooked [m]
  suffices hdone : m.reply s = m.reply s' ∧ (m.apply s).1 = (m.apply s').1 ∧
      Settled begun file n (m.apply s).2 ∧ Settled begun file n (m.apply s').2 ∧
      Level begun file n (m.apply s).2 (m.apply s').2 by
    obtain ⟨hreply, hregister, hleft, hright, hlevel⟩ := hdone
    exact ⟨hreply, hregister, hstore, hafter, hleft, hright, hlevel⟩
  obtain ⟨r, v⟩ := s
  obtain ⟨r', w⟩ := s'
  obtain ⟨hregister, hr, hover, hv, hw, hlevel⟩ := h
  obtain rfl : r = r' := hregister
  obtain rfl : r.store = n := hr
  cases m with
  | call c =>
      cases c with
      | configure options =>
          obtain ⟨result, register, messages, off, -, hconfigure⟩ := configure_eq r options
          simp only [Move.reply, Move.apply, Call.apply, hconfigure]
          cases off with
          | true =>
              exact ⟨trivial, trivial, hv.disable.send _, hw.disable.send _,
                hlevel.disable.send _⟩
          | false => exact ⟨trivial, trivial, hv.send _, hw.send _, hlevel.send _⟩
      | hook extensions => exact ⟨rfl, rfl, hv.send _, hw.send _, hlevel.send _⟩
      | compile path inline =>
          obtain ⟨hresult, hregister, hlevel⟩ := compile_level rfl hv hlevel hapart inline
          exact ⟨congrArg Reply.compiled hresult, hregister, hv.compile rfl path inline,
            hw.compile rfl path inline, hlevel⟩
      | tearDown =>
          obtain ⟨register, htearDown⟩ := tearDown_eq r
          simp only [Move.reply, Move.apply, Call.apply, htearDown]
          cases r.tornDown with
          | true => exact ⟨trivial, trivial, hv, hw, hlevel⟩
          | false =>
              obtain ⟨hv', hflushed⟩ := hv.flush
              obtain ⟨hw', hflushed'⟩ := hw.flush
              exact ⟨trivial, trivial, hv', hw', hflushed.symm.trans (hlevel.trans hflushed')⟩
      | turn queue => cases hm
  | load path inline =>
      obtain ⟨hresult, hdone⟩ := load_level rfl hblind hover hv hw hlevel hapart inline
      exact ⟨congrArg Reply.loaded hresult, hdone⟩
  | edit change =>
      obtain ⟨hclear, hoff⟩ := hapart
      exact ⟨rfl, rfl, hv.edit hoff, hw.edit hoff, hlevel.edit hv hclear⟩
  | drain queue => cases hm
  | flush => cases hm
  | mishap place e => cases hm
  | limit bytes => cases hm

-- ================================================================== scenes

/-- What there is to see after a step: the answer, the register with its source
maps, the messages and the calls of the engine so far, and the entries that are
held. -/
structure Scene where
  reply : Reply
  register : Register
  messages : List Message
  invocations : List Invocation
  entries : Keyed Cache.Entry

def Move.scene (s : State) (m : Move) : Scene where
  reply := m.reply s
  register := (m.apply s).1
  messages := (m.apply s).2.messages
  invocations := (m.apply s).2.invocations
  entries := ((m.apply s).2.store s.1.store).entries

/-- What there is to see in a run, interludes left out. -/
def scenes (s : State) : List Move → List Scene
  | [] => []
  | m :: rest =>
    if m.interlude then scenes (m.apply s) rest else m.scene s :: scenes (m.apply s) rest

/-- The moves of a run that are no interludes. -/
def plot (moves : List Move) : List Move := moves.filter fun m => !m.interlude

theorem scenes_cons_of_interlude (hm : m.interlude = true) (s : State) (rest : List Move) :
    scenes s (m :: rest) = scenes (m.apply s) rest := if_pos hm

theorem scenes_cons (hm : m.interlude = false) (s : State) (rest : List Move) :
    scenes s (m :: rest) = m.scene s :: scenes (m.apply s) rest :=
  if_neg (by rw [hm]; exact Bool.false_ne_true)

theorem plot_cons_of_interlude (hm : m.interlude = true) (rest : List Move) :
    plot (m :: rest) = plot rest := List.filter_cons_of_neg (by simp [hm])

theorem plot_cons (hm : m.interlude = false) (rest : List Move) :
    plot (m :: rest) = m :: plot rest := List.filter_cons_of_pos (by simp [hm])

theorem Alike.scene_eq
    (hblind : ∀ e loader, table.get? e = some loader → Blind (Safe begun file) loader)
    (h : Alike begun file n table s s') (hm : m.interlude = false)
    (hapart : m.Apart begun file) : m.scene s = m.scene s' := by
  obtain ⟨hreply, hafter⟩ := h.apply hblind hm hapart
  have hentries := hafter.level.entries
  unfold Move.scene
  rw [hreply, hafter.register, hafter.level.messages, hafter.level.invocations,
    ← h.register, h.store, hentries]

/-- A run shows what the run without its interludes shows. -/
theorem Alike.scenes_eq
    (hblind : ∀ e loader, table.get? e = some loader → Blind (Safe begun file) loader)
    (moves : List Move) (hapart : ∀ m ∈ moves, m.Apart begun file) :
    ∀ {s s'}, Alike begun file n table s s' → scenes s moves = scenes s' (plot moves) := by
  induction moves with
  | nil => intro s s' h; rfl
  | cons m rest ih =>
      intro s s' h
      have hm := hapart m List.mem_cons_self
      have hrest := @ih fun m hmem => hapart m (List.mem_cons_of_mem _ hmem)
      cases hinterlude : m.interlude with
      | true =>
          rw [plot_cons_of_interlude hinterlude, scenes_cons_of_interlude hinterlude]
          exact hrest (h.interlude hinterlude hm)
      | false =>
          obtain ⟨-, hafter⟩ := h.apply hblind hinterlude hm
          rw [plot_cons hinterlude, scenes_cons hinterlude, scenes_cons hinterlude,
            h.scene_eq hblind hinterlude hm, hrest hafter]

-- ========================================================== main statement

/-- In any two runs of one register in which the same is done, apart from the
file of its store, the same is seen at every step: what is answered, the
register with its source maps, the messages, the calls of the engine and the
entries in memory. Turns and flushes may come at any time in either run and
come to anything. The loaders of the host must not look at exposed places
either, where no file leads there. -/
theorem persistence_unseen (w : World) (table : ExtensionTable Loader) (engine : Engine) (n : Nat)
    (env : Environment) (workingDirectory : FilePath) (moves moves' : List Move)
    (hplot : plot moves = plot moves') (hwaiting : Awaits (· = n) w)
    (hblind : ∀ e loader, table.get? e = some loader →
      Blind (Safe w.disk (w.store n).path) loader)
    (hapart : ∀ m ∈ moves ++ moves', m.Apart w.disk (w.store n).path) :
    let begun := Register.create w table engine n env workingDirectory
    scenes begun moves = scenes begun moves' := by
  intro begun
  have hsettled : Settled w.disk (w.store n).path n w :=
    ⟨rfl, hwaiting, rfl, fun _ _ hd => hd⟩
  have hbegun : Settled w.disk (w.store n).path n begun.2 := by
    show Settled _ _ _ (Register.create w table engine n env workingDirectory).2
    unfold Register.create
    simp only
    split
    · exact hsettled.disable.send _
    · exact hsettled.send _
  have halike : Alike w.disk (w.store n).path n table begun begun :=
    ⟨rfl, rfl, ⟨_, Register.over_create w table engine n env workingDirectory⟩, hbegun, hbegun,
      .refl _⟩
  have hscenes := halike.scenes_eq hblind moves fun m hm =>
    hapart m (List.mem_append_left _ hm)
  have hscenes' := halike.scenes_eq hblind moves' fun m hm =>
    hapart m (List.mem_append_right _ hm)
  rw [hscenes, hscenes', hplot]

-- ------------------------------------------------- a directory that is in the way

/-- A script and a text, and a store whose directory is not there. -/
def tucked : World :=
  ((World.ofDisk (.set (.set .empty ["a.js"] (.file (Utf8.encode "a") 5000)) ["a.txt"]
    (.file (Utf8.encode "t") 5000))).addStore (.opened ⟨"/cache/store"⟩)).2

/-- A host that has a loader for texts. -/
def textHost : ExtensionTable Loader := (∅ : ExtensionTable Loader).insert ".txt"
  (.host { name := "text", code := fun disk path inline =>
    ("text: " ++ ·) <$> unchangedCode disk path inline })

theorem blind_textHost (S : Location → Prop) (e : String) (loader : Loader)
    (h : textHost.get? e = some loader) : Blind S loader := by
  rw [textHost, Keyed.get?_insert] at h
  split at h
  · obtain rfl := Option.some.inj h
    exact fun disk disk' path inline hagree hway =>
      congrArg (("text: " ++ ·) <$> ·) (blind_unchanged S disk disk' path inline hagree hway)
  · cases h

/-- A script is compiled, written over, and loaded, and then a text. The store is
flushed. -/
def attended : List Move :=
  [.call (.compile ⟨"/a.js"⟩ none), .call (.turn 0),
    .edit (.put ⟨"/a.js"⟩ (Utf8.encode "b") 6000), .load ⟨"/a.js"⟩ none,
    .load ⟨"/a.txt"⟩ none, .flush]

/-- The same is done, but a file is where the directory of the store is to be
made, and later the store is found too large. -/
def hindered : List Move :=
  [.mishap ["cache"] (some (.file [] 0)), .call (.compile ⟨"/a.js"⟩ none), .call (.turn 0),
    .edit (.put ⟨"/a.js"⟩ (Utf8.encode "b") 6000), .mishap ["cache"] none, .limit 0,
    .load ⟨"/a.js"⟩ none, .drain 0, .load ⟨"/a.txt"⟩ none]

/-- The general statement for the two runs. One leaves the file of the store and
the other does not. -/
theorem persistence_unseen_hindered :
    plot attended = plot hindered ∧
      let begun := Register.create tucked textHost Teardown.scripts 0 {} ⟨"/"⟩
      scenes begun attended = scenes begun hindered ∧
        (run begun attended).2.disk.holds ⟨"/cache/store"⟩ = true ∧
        (run begun hindered).2.disk.holds ⟨"/cache/store"⟩ = false := by
  have hplot : plot attended = plot hindered := rfl
  have hapart : ∀ m ∈ attended ++ hindered, m.Apart tucked.disk (tucked.store 0).path := by
    decide +kernel
  have hscenes := persistence_unseen tucked textHost Teardown.scripts 0 {} ⟨"/"⟩ attended hindered
    hplot (fun _ ht => by cases ht) (blind_textHost _) hapart
  exact ⟨hplot, hscenes, by decide +kernel, by decide +kernel⟩

end TransformCache.Life
