/-
The register: interception, configuration, cache and engine behind one life.

A register takes over the loaders of a host for some extensions. A file that its filter accepts is
compiled, from the store while the stored result holds and by the engine otherwise; every other
file goes to the loader that was displaced. At the end of its life a register puts the loaders back
and flushes the store.

`compile` has two parts. `consult` finds out what the store has for a file, which takes the file's
options, its key and its stamp; `produce` calls the engine and files the result under the key and
the stamp that `consult` found. A compile that fails has changed nothing but the messages and the
account of calls.
-/
import TransformCache.CacheKey
import TransformCache.Environment
import TransformCache.Hook
import TransformCache.SourceMaps
import TransformCache.World

namespace TransformCache

-- ====================================================== loaders

/-- A loader that the host brought along: it has a name, and makes of a file the code to run. -/
structure HostLoader where
  name : String
  code : FileSystem → FilePath → Option String → Except Error String

/-- What can stand in a host's table. -/
inductive Loader where
  | host (l : HostLoader)
  /-- Hands files over as they are. -/
  | unchanged
  /-- A register's, with the loader that it passes files on to. -/
  | intercepting (delegate : Loader)

/-- Code that is handed to a module. -/
structure Handover where
  path : FilePath
  code : String
  deriving DecidableEq, Repr

-- ====================================================== the register

/-- A register. -/
structure Register where
  table : ExtensionTable Loader
  hooks : HookManager Loader := {}
  config : Config
  engine : Engine
  env : Environment := {}
  /-- The number of its store. -/
  store : Nat
  maps : SourceMaps := {}
  tornDown : Bool := false

/-- The result of something that a register did, with the register and the world after it. -/
structure Outcome (α : Type) where
  result : Except Error α
  register : Register
  world : World

namespace Register

-- ====================================================== compiling

/-- Where a result is to be filed. -/
structure Ticket where
  key : String
  stamp : Cache.Stamp
  deriving DecidableEq, Repr

/-- What the store said about a file. -/
inductive Consultation where
  /-- The stored result holds. -/
  | answered (entry : Cache.Entry)
  /-- The engine is to be called; with a ticket, its result is to be stored. -/
  | unanswered (options : EngineOptions) (ticket : Option Ticket) (stale : Bool)

/-- True while results are looked up and stored. -/
def caching (r : Register) (w : World) : Bool :=
  r.config.cacheEnabled && (w.store r.store).enabled

/-- The options that keys are made of. Keys that survive a move must not see the file's path. -/
def keyOptions (r : Register) (resolved : EngineOptions) : EngineOptions :=
  if r.config.mode.isRelocatable then r.config.transform else resolved

/-- The key and the stamp of a file. -/
def ticket (r : Register) (w : World) (resolved : EngineOptions) (path : FilePath) :
    Except Error Ticket :=
  match CacheKey.build (r.keyOptions resolved) path r.config.mode r.engine.version
      r.env.discriminator with
  | .error e => .error e
  | .ok key =>
    match r.config.mode.currentStamp w.disk path with
    | .error e => .error e
    | .ok stamp => .ok ⟨key, stamp⟩

/-- Finds out what the store has for a file. -/
def consult (r : Register) (w : World) (path : FilePath) : Except Error Consultation :=
  match r.engine.optionsFor r.config.transform path with
  | .error reason => .error (.transform reason)
  | .ok resolved =>
    if r.caching w then
      match r.ticket w resolved path with
      | .error e => .error e
      | .ok t =>
        match Verdict.of ((w.store r.store).lookUp t.key) t.stamp with
        | .hit entry => .ok (.answered entry)
        | .absent => .ok (.unanswered resolved (some t) false)
        | .stale => .ok (.unanswered resolved (some t) true)
    else .ok (.unanswered resolved none false)

/-- Stores a result, and asks for a flush. -/
def file (r : Register) (w : World) (t : Ticket) (output : Output) : World :=
  (w.modifyStore r.store (·.put t.key ⟨output.code, output.map, t.stamp⟩)).scheduleFlush r.store

/-- Calls the engine for a file, and stores what it makes if there is a ticket. -/
def produce (r : Register) (w : World) (path : FilePath) (inline : Option String)
    (options : EngineOptions) (ticket : Option Ticket) : Outcome String :=
  let (result, call) := r.engine.invoke w.disk options path inline
  let w := w.record call
  match result with
  | .error reason => ⟨.error (.transform reason), r, w⟩
  | .ok output =>
    { result := .ok output.code
      register := { r with maps := r.maps.register path output.map }
      world := match ticket with
        | some t => r.file w t output
        | none => w }

/-- The code for a file, or for the text given in its place. -/
def compile (r : Register) (w : World) (path : FilePath) (inline : Option String) :
    Outcome String :=
  match r.consult w path with
  | .error e => ⟨.error e, r, w⟩
  | .ok (.answered entry) =>
    { result := .ok entry.code
      register := { r with maps := r.maps.register path entry.map }
      world := w.send (r.config.trace ("from cache " ++ path.text)) }
  | .ok (.unanswered options ticket stale) =>
    let w := if stale then
        w.send (r.config.trace
          ("cache miss due to " ++ r.config.mode.name ++ " " ++ path.text))
      else w
    r.produce (w.send (r.config.say ("transforming " ++ path.text))) path inline options ticket

-- ====================================================== loading

/-- What a loader makes of a file. -/
def loadWith (r : Register) (w : World) (path : FilePath) (inline : Option String) :
    Loader → Outcome Handover
  | .host l => ⟨(fun code => ⟨path, code⟩) <$> l.code w.disk path inline, r, w⟩
  | .unchanged => ⟨(fun code => ⟨path, code⟩) <$> unchangedCode w.disk path inline, r, w⟩
  | .intercepting delegate =>
    if r.config.filter.ignores path then
      r.loadWith (w.send (r.config.trace ("ignoring " ++ path.text))) path inline delegate
    else
      let done := r.compile (w.send (r.config.trace ("loading " ++ path.text))) path inline
      ⟨(fun code => ⟨path, code⟩) <$> done.result, done.register, done.world⟩

/-- Loads a file through the host's table: what the module is handed. -/
def load (r : Register) (w : World) (path : FilePath) (inline : Option String) :
    Outcome Handover :=
  match ExtensionTable.loaderFor r.table path with
  | .error e => ⟨.error e, r, w⟩
  | .ok loader => r.loadWith w path inline loader

/-- The source map of a compiled file. -/
def sourceMap (r : Register) (path : FilePath) : Option Json := r.maps.retrieve path

-- ====================================================== interception

/-- Puts every displaced loader back, and then intercepts exactly the given extensions. -/
def hookExtensions (r : Register) (w : World) (extensions : List String) : Register × World :=
  let (hooks, table) :=
    r.hooks.install r.table (fun _ delegate => .intercepting delegate) .unchanged extensions
  ({ r with hooks, table },
    w.send (r.config.trace ("extensions " ++ ",".intercalate extensions)))

def hookedExtensions (r : Register) : List String := r.hooks.hooked

-- ====================================================== the life of a register

/-- Applies options. Options that are refused change nothing. -/
def configure (r : Register) (w : World) (options : Options) : Outcome Unit :=
  match r.config.merge options with
  | .error e => ⟨.error e, r, w⟩
  | .ok (config, messages) =>
    let w := w.send messages
    let w := if config.cacheEnabled then w else w.modifyStore r.store (·.disable)
    let r := { r with config }
    let (r, w) := match options.extensions with
      | some extensions => r.hookExtensions w extensions
      | none => (r, w)
    ⟨.ok (), r, w⟩

/-- A register over the host's table and the store of a number; it intercepts the extensions of
its engine. -/
def create (w : World) (table : ExtensionTable Loader) (engine : Engine) (store : Nat)
    (env : Environment) (workingDirectory : FilePath) : Register × World :=
  let w := if env.disableCache then w.modifyStore store (·.disable) else w
  let r : Register := { table, config := .initial workingDirectory, engine, env, store }
  r.hookExtensions w engine.extensions

/-- The store that an environment asks for. -/
def storeFor (env : Environment) (home : FilePath) : Cache.Making :=
  if env.disableCache then .disabled (env.storePath home) else .opened (env.storePath home)

/-- A register as the environment asks for it, with a store of its own. -/
def ofVariables (w : World) (table : ExtensionTable Loader) (engine : Engine) (vars : Variables)
    (workingDirectory : FilePath) : Register × World :=
  let env := Environment.ofVariables vars
  let (store, w) := w.addStore (storeFor env (Environment.homeDirectory vars))
  create w table engine store env workingDirectory

/-- Puts every displaced loader back and flushes the store; once in a register's life. -/
def tearDown (r : Register) (w : World) : Register × World :=
  if r.tornDown then (r, w)
  else
    let (hooks, table) := r.hooks.restoreAll r.table
    ({ r with hooks, table, tornDown := true }, w.flush r.store)

/-- Ends a register and hands the table back to the host. -/
def intoHost (r : Register) (w : World) : ExtensionTable Loader × World :=
  let (r, w) := r.tearDown w
  (r.table, w)

end Register

end TransformCache
