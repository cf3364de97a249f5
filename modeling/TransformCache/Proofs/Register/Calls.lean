/-
What the calls of a register do.

# Compiling

`Compiling` lists the ways in which a compile of a file ends, each with what
was found out on the way: the store was asked and had an answer, or the engine
was called, with a ticket to file its result under or without one. Everything
that is said about a compile is read off that list; nothing looks into
`consult` and `produce` again. What a register answers with its cache off
depends on the file and the options alone (`freshCode`). It is what the engine
makes of the file as it is now.

# The rest of a register's life

A register is configured and created with changes to its own state, and none
to the stores but that its own may be turned off.
-/
import TransformCache.Proofs.World
import TransformCache.Register

namespace TransformCache

/-- The code that an engine makes of a text, if it makes any. -/
def Engine.codeOf (e : Engine) (text : String) (path : FilePath) (options : EngineOptions) :
    Option String :=
  (e.transform text { filename := path, options }).toOption.map (·.code)

/-- An engine that adds no options for a file. -/
def Engine.AddsNothing (e : Engine) : Prop := ∀ options path, e.resolve options path = .ok options

/-- The code that an engine makes of a file as it is now. -/
def freshCode (e : Engine) (disk : FileSystem) (base : EngineOptions) (path : FilePath) :
    Option String :=
  (disk.readText path).toOption.bind fun text =>
    e.codeOf text path (base.withFilename path.text)

namespace Register

variable {r : Register} {w : World} {path : FilePath}

def optionsOf (r : Register) (path : FilePath) : EngineOptions :=
  r.config.transform.withFilename path.text

def withoutCache (r : Register) : Register :=
  { r with config := { r.config with cacheEnabled := false } }

-- ======================================================== ways of a compile

/-- What the engine made of a file. -/
def Makes (r : Register) (w : World) (path : FilePath) (output : Output) : Prop :=
  ∃ text, w.disk.readText path = .ok text ∧
    r.engine.transform text { filename := path, options := r.optionsOf path } = .ok output

/-- The ways in which a compile of a file ends: its result, and the stores and
tasks after it. -/
inductive Compiling (r : Register) (w : World) (path : FilePath) :
    Except Error String → Cache.Session → Prop
  | refused {e : Error} (hcaching : r.caching w = true)
      (hticket : r.ticket w (r.optionsOf path) path = .error e) :
      Compiling r w path (.error e) w.session
  | answered {t : Ticket} {entry : Cache.Entry} (hcaching : r.caching w = true)
      (hticket : r.ticket w (r.optionsOf path) path = .ok t)
      (hentry : (w.store r.store).lookUp t.key = some entry) (hstamp : entry.stamp = t.stamp) :
      Compiling r w path (.ok entry.code) w.session
  | failed {reason : TransformError}
      (hfresh : freshCode r.engine w.disk r.config.transform path = none) :
      Compiling r w path (.error (.transform reason)) w.session
  | made {output : Output} (hmakes : r.Makes w path output) :
      Compiling r w path (.ok output.code) w.session
  | stored {t : Ticket} {output : Output} (hmakes : r.Makes w path output)
      (hticket : r.ticket w (r.optionsOf path) path = .ok t) :
      Compiling r w path (.ok output.code) (r.file w t output).session

theorem Makes.freshCode_eq {output : Output} (h : r.Makes w path output) :
    freshCode r.engine w.disk r.config.transform path = some output.code := by
  obtain ⟨text, hread, htransform⟩ := h
  have hcode : r.engine.codeOf text path (r.config.transform.withFilename path.text)
      = some output.code := by
    unfold Engine.codeOf
    rw [show (r.config.transform.withFilename path.text) = r.optionsOf path from rfl, htransform]
    rfl
  unfold freshCode
  rw [hread]
  exact hcode

/-- What is filed depends on the stores and the tasks alone. -/
theorem session_file {v w : World} (h : v.session = w.session) (t : Ticket) (output : Output) :
    (r.file v t output).session = (r.file w t output).session := by
  obtain ⟨vs, _, _⟩ := v
  obtain ⟨ws, _, _⟩ := w
  obtain rfl : vs = ws := h
  unfold file World.scheduleFlush World.modifyStore World.onShelf
  simp only
  split
  · rfl
  · rfl

/-- Calling the engine, in a world with the same stores and tasks. -/
theorem produce_cases {w' : World} (hw : w'.session = w.session) (ticket : Option Ticket)
    (hticket : ∀ t, ticket = some t → r.ticket w (r.optionsOf path) path = .ok t) :
    Compiling r w path (r.produce w' path none (r.optionsOf path) ticket).result
      (r.produce w' path none (r.optionsOf path) ticket).world.session := by
  have hdisk : w'.disk = w.disk := congrArg (fun s : Cache.Session => s.host.disk) hw
  have hfailed : ∀ reason (call : Invocation),
      freshCode r.engine w.disk r.config.transform path = none →
      Compiling r w path (.error (.transform reason)) (w'.record call).session := by
    intro reason call hfresh
    rw [show (w'.record call).session = w.session from hw]
    exact .failed hfresh
  unfold produce Engine.invoke Engine.sourceText
  simp only [hdisk]
  cases hread : w.disk.readText path with
  | error reason =>
      refine hfailed (.io reason) _ ?_
      unfold freshCode
      rw [hread]
      rfl
  | ok text =>
      simp only
      cases htransform : r.engine.transform text
          { filename := path, options := r.optionsOf path } with
      | error reason =>
          refine hfailed reason _ ?_
          unfold freshCode Engine.codeOf
          rw [hread]
          show ((r.engine.transform text
            { filename := path, options := r.optionsOf path }).toOption.map (·.code)) = none
          rw [htransform]
          rfl
      | ok output =>
          have hmakes : r.Makes w path output := ⟨text, hread, htransform⟩
          cases ticket with
          | none =>
              rw [show (World.record w' _).session = w.session from hw]
              exact .made hmakes
          | some t =>
              have hfiled : ∀ call : Invocation,
                  (r.file (w'.record call) t output).session = (r.file w t output).session :=
                fun call => session_file (v := w'.record call) hw t output
              simp only [hfiled]
              exact .stored hmakes (hticket t rfl)

/-- Everything that a compile can do. -/
theorem compile_cases (hadds : r.engine.AddsNothing) (w : World) (path : FilePath) :
    Compiling r w path (r.compile w path none).result
      (r.compile w path none).world.session := by
  have hresolve : r.engine.optionsFor r.config.transform path = .ok (r.optionsOf path) :=
    hadds ..
  unfold compile consult
  rw [hresolve]
  simp only
  cases hcaching : r.caching w with
  | false =>
      simp only [Bool.false_eq_true, if_false]
      refine produce_cases ?_ none fun t ht => by cases ht
      rfl
  | true =>
      simp only [if_true]
      cases hticket : r.ticket w (r.optionsOf path) path with
      | error e => exact .refused hcaching hticket
      | ok t =>
          have hgiven : ∀ t', some t = some t' →
              r.ticket w (r.optionsOf path) path = .ok t' := fun t' ht => by
            rw [← Option.some.inj ht]
            exact hticket
          simp only
          cases hentry : (w.store r.store).lookUp t.key with
          | none =>
              refine produce_cases ?_ (some t) hgiven
              rfl
          | some entry =>
              unfold Verdict.of Cache.Entry.holds
              by_cases hstamp : entry.stamp = t.stamp
              · simp only [hstamp, decide_true, if_true]
                exact .answered hcaching hticket hentry hstamp
              · simp only [hstamp, decide_false, Bool.false_eq_true, if_false]
                refine produce_cases ?_ (some t) hgiven
                rfl

-- =========================================================== what stays

/-- A compile changes nothing of its register but the source maps. -/
theorem register_compile (r : Register) (w : World) (path : FilePath)
    (inline : Option String) :
    ∃ maps, (r.compile w path inline).register = { r with maps } := by
  have hproduce : ∀ w' options ticket,
      ∃ maps, (r.produce w' path inline options ticket).register = { r with maps } := by
    intro w' options ticket
    unfold produce
    simp only
    split
    · exact ⟨_, rfl⟩
    · exact ⟨_, rfl⟩
  unfold compile
  split
  · exact ⟨_, rfl⟩
  · exact ⟨_, rfl⟩
  · exact hproduce ..

/-- Without its cache a register answers with the fresh code. -/
theorem compile_withoutCache (hadds : r.engine.AddsNothing) (w : World) (path : FilePath) :
    (r.withoutCache.compile w path none).result.toOption
      = freshCode r.engine w.disk r.config.transform path := by
  have hoff : r.withoutCache.caching w ≠ true := by simp [caching, withoutCache]
  have hcases := compile_cases (r := r.withoutCache) hadds w path
  generalize (r.withoutCache.compile w path none).world.session = session at hcases
  generalize (r.withoutCache.compile w path none).result = result at hcases ⊢
  cases hcases with
  | refused hcaching => exact absurd hcaching hoff
  | answered hcaching => exact absurd hcaching hoff
  | failed hfresh => exact hfresh.symm
  | made hmakes => exact hmakes.freshCode_eq.symm
  | stored hmakes => exact hmakes.freshCode_eq.symm

-- ============================================================ configuring

theorem transform_of_merge {c next : Config} {o : Options} {messages : List Message}
    (h : c.merge o = .ok (next, messages)) : next.transform = c.transform.merged o.transform := by
  unfold Config.merge at h
  split at h
  · cases h
  · cases h
    rfl

/-- Options that are refused change nothing. Others change the configuration
and the hooks, and may turn the register's store off. -/
theorem configure_cases (r : Register) (w : World) (options : Options) :
    ((r.configure w options).register = r ∧ (r.configure w options).world = w) ∨
      ∃ config messages hooks table, r.config.merge options = .ok (config, messages) ∧
        (r.configure w options).register = { r with config, hooks, table } ∧
        ((r.configure w options).world.session = w.session ∨
          (r.configure w options).world.session
            = (w.modifyStore r.store (·.disable)).session) := by
  unfold configure
  cases hmerge : r.config.merge options with
  | error e => exact .inl ⟨rfl, rfl⟩
  | ok merged =>
      right
      obtain ⟨config, messages⟩ := merged
      refine ⟨config, messages, ?_⟩
      simp only
      cases config.cacheEnabled with
      | true =>
          cases options.extensions with
          | none => exact ⟨_, _, trivial, rfl, .inl rfl⟩
          | some extensions => exact ⟨_, _, trivial, rfl, .inl rfl⟩
      | false =>
          cases options.extensions with
          | none => exact ⟨_, _, trivial, rfl, .inr rfl⟩
          | some extensions => exact ⟨_, _, trivial, rfl, .inr rfl⟩

/-- Options that are accepted and leave the cache on touch no store, and no more
of the world than its messages. -/
theorem configure_of_merge {r : Register} {options : Options} {config : Config}
    {messages : List Message} (hmerge : r.config.merge options = .ok (config, messages))
    (hon : config.cacheEnabled = true) (w : World) :
    (r.configure w options).result = .ok () ∧
      (∃ hooks table, (r.configure w options).register = { r with config, hooks, table }) ∧
      ∃ sent, (r.configure w options).world = w.send sent := by
  unfold configure
  rw [hmerge]
  simp only [hon, if_true]
  cases options.extensions with
  | none => exact ⟨trivial, ⟨_, _, rfl⟩, _, rfl⟩
  | some extensions => exact ⟨trivial, ⟨_, _, rfl⟩, _, World.send_send _ _⟩

/-- A register begins with the initial configuration. The environment may turn
its store off. -/
theorem create_cases (w : World) (table : ExtensionTable Loader) (engine : Engine) (store : Nat)
    (env : Environment) (workingDirectory : FilePath) :
    (∃ hooks table', (create w table engine store env workingDirectory).1
        = { table := table', hooks, config := .initial workingDirectory, engine, env, store }) ∧
      ((create w table engine store env workingDirectory).2.session = w.session ∨
        (create w table engine store env workingDirectory).2.session
          = (w.modifyStore store (·.disable)).session) := by
  refine ⟨⟨_, _, rfl⟩, ?_⟩
  unfold create
  cases env.disableCache with
  | false => exact .inl rfl
  | true => exact .inr rfl

/-- A register is torn down by a flush of its store, unless it was before. -/
theorem tearDown_cases (r : Register) (w : World) :
    r.tearDown w = (r, w) ∨ ∃ hooks table,
      r.tearDown w = ({ r with hooks, table, tornDown := true }, w.flush r.store) := by
  unfold tearDown
  split
  · exact .inl rfl
  · exact .inr ⟨_, _, rfl⟩

end Register

end TransformCache
