/-
Relative source roots, as the program takes them.

A source root in a configuration file may be relative, and is then taken from
the directory of that file, as the file was named to the program. The files to
compile are made absolute. So what the keys are made of is the way from the one
to the other, and there is none between a relative path and an absolute one.

`compile_iff_isAbsolute` is what comes of it: with an empty store the cache
goes unnoticed exactly if the configuration file was named by an absolute path.
Named by a relative one, or found in the working directory, it makes every file
fail that goes to the engine, wherever the file is.

The two runs that are compared, with the cache and without it, come to a
register in the same way (`Ready`). What it answers with is said once for both
(`load_ready`), and differs only where the cache is on and has no ticket.
-/
import TransformCache.Cli.Run
import TransformCache.Program.Small
import TransformCache.Proofs.Cache.StoreFile
import TransformCache.Proofs.FileSystem
import TransformCache.Proofs.Options
import TransformCache.Proofs.Register.Compile
import TransformCache.Proofs.Register.Hooks

namespace TransformCache

variable {machine : Program.Machine} {disk : FileSystem} {vars : Variables}

-- ============================================================ source roots

namespace Options

/-- A project and its source root are read as they were written. -/
theorem parse_sourceRoot (project root : String) :
    parse (Json.compact (.object
        [("projectName", .string project), ("cacheSourceRoot", .string root)]))
      = .ok { cacheSourceRoot := some ⟨root⟩, projectName := some project } := by
  let ms : List (String × Json) :=
    [("projectName", .string project), ("cacheSourceRoot", .string root)]
  have hplain : Json.PlainMembers ms := ⟨trivial, trivial, trivial⟩
  have hdepth : Json.depthMembers ms < Json.depthLimit := by
    simp [ms, Json.depthMembers, Json.depth, Json.depthLimit]
  exact parse_eq_ok_iff_ofMembers.2
    ⟨ms, Json.textMembers_of_plain hplain hdepth, ofMembers?_eq_some_iff.1 rfl⟩

/-- A relative source root that was read from a file is absolute if the file was
named by an absolute path, and relative otherwise. -/
theorem seenFrom_of_relative {o : Options} {root config : FilePath} {bytes : Bytes}
    (hroot : o.cacheSourceRoot = some root) (hrelative : root.isAbsolute = false)
    (hread : disk.read config = .ok bytes) :
    ∃ seen, o.seenFrom config = { o with cacheSourceRoot := some seen } ∧
      seen.isAbsolute = config.isAbsolute := by
  obtain ⟨directory, hparent⟩ := FileSystem.exists_parent_of_read hread
  refine ⟨directory.join root, ?_, ?_⟩
  · unfold seenFrom
    rw [hroot, hparent]
    simp [FilePath.isRelative, hrelative]
  · rw [FilePath.isAbsolute_join, hrelative, Bool.or_false]
    exact FilePath.isAbsolute_of_parent hparent

end Options

namespace Cli

variable {globals : Globals} {engine : CommandEngine} {opts : Options} {path : FilePath}

theorem isAbsolute_workingDirectory (disk : FileSystem) :
    (workingDirectory disk).isAbsolute = true := by
  unfold workingDirectory FilePath.isAbsolute
  simp

-- ===================================================== the register of a run

/-- The register that files are compiled with, and the world around it. -/
def begun (machine : Program.Machine) (vars : Variables) (disk : FileSystem) (globals : Globals)
    (engine : CommandEngine) (opts : Options) : Outcome Unit :=
  let env := environment vars globals
  let opened := (World.ofDisk disk).addStore
    (Register.storeFor env (Environment.homeDirectory vars))
  let created := Register.create opened.2 ∅ (engine.toEngine machine disk vars) opened.1 env
    (workingDirectory disk)
  created.1.configure created.2 opts

/-- What files are compiled with, where the store holds nothing yet. -/
structure Ready (machine : Program.Machine) (vars : Variables) (disk : FileSystem)
    (globals : Globals) (engine : CommandEngine) (opts : Options) (config : Config)
    (o : Outcome Unit) : Prop where
  result : o.result = .ok ()
  config : o.register.config = config
  hooks : Register.Over ∅ (opts.extensions.getD (engine.toEngine machine disk vars).extensions)
    o.register
  engine : o.register.engine = engine.toEngine machine disk vars
  disk : o.world.disk = disk
  caching : o.register.caching o.world = !(environment vars globals).disableCache
  empty : ∀ key, (o.world.store o.register.store).lookUp key = none

/-- The store of a run is on unless the environment turns it off, and holds what
is found in its file. -/
theorem build_storeFor (disk : FileSystem) (env : Environment) (home : FilePath) :
    let store := Cache.Shelf.build disk (Register.storeFor env home)
    store.enabled = !env.disableCache ∧
      ((Cache.Store.openAt (env.storePath home) disk).entries = ∅ → store.entries = ∅) := by
  unfold Register.storeFor
  cases env.disableCache with
  | true => exact ⟨rfl, fun _ => rfl⟩
  | false =>
      refine ⟨?_, id⟩
      show (Cache.Store.openAt (env.storePath home) disk).enabled = true
      rcases Cache.Store.openAt_cases (env.storePath home) disk with ⟨entries, -, heq⟩ | heq
      · rw [heq]
        rfl
      · rw [heq]
        rfl

/-- A register that begins leaves the disk as it is, and its store too, unless
the environment turns that off. -/
theorem world_create (w : World) (e : Engine) (n : Nat) (env : Environment) (cwd : FilePath) :
    let created := Register.create w ∅ e n env cwd
    created.2.disk = w.disk ∧
      created.2.store n = if env.disableCache then (w.store n).disable else w.store n := by
  unfold Register.create
  cases env.disableCache with
  | true => exact ⟨rfl, World.store_modifyStore_self _⟩
  | false => exact ⟨rfl, rfl⟩

/-- A run whose options leave the cache on has a register with its configuration,
in the world that the register was created in, but for the messages. -/
theorem begun_of_merge (machine : Program.Machine) (vars : Variables) (globals : Globals)
    (engine : CommandEngine) {config : Config} {messages : List Message}
    (hmerge : (Config.initial (workingDirectory disk)).merge opts = .ok (config, messages))
    (hon : config.cacheEnabled = true) :
    let env := environment vars globals
    let opened := (World.ofDisk disk).addStore
      (Register.storeFor env (Environment.homeDirectory vars))
    let created := Register.create opened.2 ∅ (engine.toEngine machine disk vars) opened.1 env
      (workingDirectory disk)
    let o := begun machine vars disk globals engine opts
    o.result = .ok () ∧ (∃ sent, o.world = created.2.send sent) ∧
      (∃ hooks table, o.register = { created.1 with config, hooks, table }) ∧
      Register.Over ∅ (opts.extensions.getD (engine.toEngine machine disk vars).extensions)
        o.register := by
  intro env opened created o
  have hmerge' : created.1.config.merge opts = .ok (config, messages) := hmerge
  obtain ⟨hresult, hregister, hworld⟩ := Register.configure_of_merge hmerge' hon created.2
  have hover : Register.Over ∅ (engine.toEngine machine disk vars).extensions created.1 :=
    Register.over_create ..
  have hkept := Register.over_configure hover created.2 opts
  simp only [hmerge'] at hkept
  exact ⟨hresult, hworld, hregister, hkept⟩

theorem ready_begun {config : Config} {messages : List Message}
    (hmerge : (Config.initial (workingDirectory disk)).merge opts = .ok (config, messages))
    (hon : config.cacheEnabled = true)
    (hfresh : (Cache.Store.openAt (storePath vars globals) disk).entries = ∅) :
    Ready machine vars disk globals engine opts config
      (begun machine vars disk globals engine opts) := by
  let env := environment vars globals
  let opened := (World.ofDisk disk).addStore
    (Register.storeFor env (Environment.homeDirectory vars))
  let created := Register.create opened.2 ∅ (engine.toEngine machine disk vars) opened.1 env
    (workingDirectory disk)
  obtain ⟨hon', hentries⟩ := build_storeFor disk env (Environment.homeDirectory vars)
  obtain ⟨hdisk, hcreated⟩ := world_create opened.2 (engine.toEngine machine disk vars) opened.1 env
    (workingDirectory disk)
  have hheld : (created.2.store opened.1).enabled = !env.disableCache ∧
      (created.2.store opened.1).entries = ∅ := by
    rw [hcreated, World.store_addStore_self]
    split
    next hoff => exact ⟨by rw [hoff]; rfl, hentries hfresh⟩
    next => exact ⟨hon', hentries hfresh⟩
  obtain ⟨hresult, ⟨sent, hworld⟩, ⟨hooks, table, hregister⟩, hover⟩ :=
    begun_of_merge machine vars globals engine hmerge hon
  have hsession : (begun machine vars disk globals engine opts).world.session
      = created.2.session := by
    rw [hworld]
    rfl
  have hstore : (begun machine vars disk globals engine opts).world.store opened.1
      = created.2.store opened.1 := congrArg (fun s : Cache.Session => s.host.stores _) hsession
  have hnumber : (begun machine vars disk globals engine opts).register.store = opened.1 :=
    congrArg Register.store hregister
  have hconfig : (begun machine vars disk globals engine opts).register.config = config :=
    congrArg Register.config hregister
  constructor
  · exact hresult
  · exact hconfig
  · exact hover
  · exact congrArg Register.engine hregister
  · exact (congrArg (fun s : Cache.Session => s.host.disk) hsession).trans hdisk
  · rw [Register.caching, hconfig, hon, hnumber, hstore, hheld.1]
    rfl
  · intro key
    rw [hnumber, hstore, Cache.Store.lookUp, hheld.2]
    split
    · rfl
    · rfl

-- ============================================================= one file

/-- A file is loaded as a compile of it, if its extension is hooked. -/
theorem load_eq {r : Register} {wanted : List String} (h : Register.Over ∅ wanted r)
    (haccepts : r.config.filter.ignores path = false) (w : World) :
    (r.load w path none).result.toOption
      = if ExtensionTable.extensionOf path ∈ wanted then
          (r.compile (w.send (r.config.trace ("loading " ++ path.text))) path
            none).result.toOption.map fun code => ⟨path, code⟩
        else none := by
  unfold Register.load ExtensionTable.loaderFor
  rw [h.get?_table]
  by_cases hhooked : ExtensionTable.extensionOf path ∈ wanted
  · rw [if_pos hhooked, if_pos hhooked]
    simp only [Register.loadWith, haccepts, Bool.false_eq_true, if_false]
    cases (r.compile (w.send (r.config.trace ("loading " ++ path.text))) path none).result with
    | error e => rfl
    | ok code => rfl
  · rw [if_neg hhooked, if_neg hhooked]
    rfl

/-- Under a source root a run loads a file with the fresh code, if its extension
is hooked. With the cache on the root has to be absolute, as the file is. -/
theorem load_ready {config : Config} {o : Outcome Unit}
    (h : Ready machine vars disk globals engine opts config o) {root : FilePath}
    {project text : String}
    (hmode : config.mode = .checksum root project)
    (haccepts : config.filter.ignores path = false) (hpath : path.isAbsolute = true)
    (hread : disk.readText path = .ok text) :
    (o.register.load o.world path none).result.toOption
      = if ExtensionTable.extensionOf path
            ∈ opts.extensions.getD (engine.toEngine machine disk vars).extensions then
          if (environment vars globals).disableCache = false ∧ root.isAbsolute = false then none
          else (freshCode (engine.toEngine machine disk vars) disk config.transform path).map
            fun code => ⟨path, code⟩
        else none := by
  rw [load_eq h.hooks (h.config ▸ haccepts)]
  generalize o.register.config.trace ("loading " ++ path.text) = messages
  have hadds : o.register.engine.AddsNothing := h.engine ▸ fun _ _ => rfl
  have hcompile : (o.register.compile (o.world.send messages) path none).result.toOption = _ :=
    Register.compile_of_empty hadds h.empty
  have hticket : (o.register.ticket (o.world.send messages)
      (o.register.optionsOf path) path).toOption = none ↔ root.isAbsolute = false := by
    rw [Register.ticket_of_checksum (h.config ▸ hmode) (h.disk ▸ hread),
      FilePath.relative?_eq_none_iff, hpath]
    simp
  have hcaching : o.register.caching (o.world.send messages)
      = !(environment vars globals).disableCache := h.caching
  rw [hcompile, hcaching, World.disk_send, h.disk, h.engine, h.config]
  simp only [hticket, Bool.not_eq_true']
  split
  · split
    · rfl
    · rfl
  · rfl

-- ============================================================== a whole run

/-- How a run for one file ends: as the loading of the file does. -/
theorem compileWith_file {config : Config}
    (h : Ready machine vars disk globals engine opts config
      (begun machine vars disk globals engine opts))
    {file : FilePath} (hfile : FilePath.absolute? (workingDirectory disk) file = some path) :
    let o := begun machine vars disk globals engine opts
    let loaded := (o.register.load o.world path none).result.toOption
    let ended := compileWith machine vars disk globals engine opts [file]
    (ended.status = 0 ↔ loaded.isSome = true) ∧
      ∀ handover ∈ loaded, ended.output = printed handover.code := by
  intro o loaded ended
  have hresult : (begun machine vars disk globals engine opts).result = .ok () := h.result
  have hloaded : loaded = ((begun machine vars disk globals engine opts).register.load
      (begun machine vars disk globals engine opts).world path none).result.toOption := rfl
  have hended : ended = compileWith machine vars disk globals engine opts [file] := rfl
  unfold compileWith at hended
  unfold begun at hresult hloaded
  simp only [hresult, loadFiles, hfile] at hended
  generalize Register.load _ _ path none = done at hended hloaded
  cases hdone : done.result with
  | error e =>
      rw [hdone] at hloaded hended
      rw [hloaded, hended]
      have hstatus : failureStatus ≠ 0 := by decide
      exact ⟨⟨fun h => absurd h hstatus, fun h => by cases h⟩, fun _ h => by cases h⟩
  | ok handover =>
      rw [hdone] at hloaded hended
      rw [hloaded, hended]
      refine ⟨⟨fun _ => rfl, fun _ => rfl⟩, ?_⟩
      rintro _ ⟨⟩
      exact String.empty_append

-- ============================================================ main statement

/-- A run that compiles a file under a configuration file with a relative source
root: `config` is that file as it was named, `o` the options in it, and `path`
the file as an absolute path. -/
structure Rooted (vars : Variables) (disk : FileSystem) (globals : Globals) (config : FilePath)
    (o : Options) (file path : FilePath) : Prop where
  /-- The configuration file is named, or found in the working directory. -/
  named : globals.config.getD defaultConfig = config
  contents : ∃ text, disk.readText config = .ok text ∧ Options.parse text = .ok o
  root : ∃ root, o.cacheSourceRoot = some root ∧ root.isAbsolute = false
  project : o.projectName.isSome = true
  caching : o.cache ≠ some false ∧ (environment vars globals).disableCache = false
  fresh : (Cache.Store.openAt (storePath vars globals) disk).entries = ∅
  file : FilePath.absolute? (workingDirectory disk) file = some path
  readable : ∃ text, disk.readText path = .ok text
  eligible : ∃ filter : Filter, filter.ignores path = false ∧
    (Config.initial (workingDirectory disk)).filter.withPatterns o.only o.ignore = .ok filter

/-- The program's options with the cache turned off. -/
def Globals.uncached (globals : Globals) : Globals := { globals with noCache := true }

/-- The options of a run are those of the file that is named, or of the one that
is found where none is. -/
theorem options_eq {text : String} {o : Options}
    (hread : disk.readText (globals.config.getD defaultConfig) = .ok text)
    (hparse : Options.parse text = .ok o) :
    options disk globals = .ok (o.seenFrom (globals.config.getD defaultConfig)) := by
  have hfile : Options.ofFile disk (globals.config.getD defaultConfig)
      = .ok (o.seenFrom (globals.config.getD defaultConfig)) := by
    unfold Options.ofFile
    rw [hread]
    simp only [hparse]
  obtain ⟨bytes, hbytes, -⟩ := bind_eq_ok.1 hread
  have hholds := FileSystem.holds_of_read hbytes
  unfold options
  cases hconfig : globals.config with
  | some config =>
      rw [hconfig] at hfile
      exact hfile
  | none =>
      rw [hconfig] at hfile hholds
      exact (if_pos hholds).trans hfile

/-- The configuration of such a run names files from the source root. -/
theorem merge_of_rooted {config file : FilePath} {o : Options}
    (h : Rooted vars disk globals config o file path) :
    ∃ (next : Config) (messages : List Message) (root : FilePath) (project : String),
      (Config.initial (workingDirectory disk)).merge (o.seenFrom config) = .ok (next, messages) ∧
      next.cacheEnabled = true ∧ next.filter.ignores path = false ∧
      next.mode = .checksum root project ∧ root.isAbsolute = config.isAbsolute := by
  obtain ⟨contents, hread, -⟩ := h.contents
  obtain ⟨bytes, hbytes, -⟩ := bind_eq_ok.1 hread
  obtain ⟨root, hroot, hrelative⟩ := h.root
  obtain ⟨seen, hseen, habsolute⟩ := Options.seenFrom_of_relative hroot hrelative hbytes
  obtain ⟨project, hproject⟩ := Option.isSome_iff_exists.1 h.project
  obtain ⟨filter, hignores, hfilter⟩ := h.eligible
  rw [hseen]
  unfold Config.merge
  simp only [hfilter, Config.nextMode, hproject]
  exact ⟨_, _, seen, project, rfl, by simp [Config.initial, h.caching.1], hignores, rfl, habsolute⟩

/-- Where a file compiles with the cache off, it compiles with an empty store
exactly if the configuration file was named by an absolute path, and then the
run writes the same. -/
theorem compile_iff_isAbsolute {config file : FilePath} {o : Options} {command : String}
    {version : Option String} (h : Rooted vars disk globals config o file path)
    (hplain : (compile machine vars disk globals.uncached [file] command version).status = 0) :
    let plain := compile machine vars disk globals.uncached [file] command version
    let cached := compile machine vars disk globals [file] command version
    (cached.status = 0 ↔ config.isAbsolute = true) ∧
      (cached.status = 0 → cached.output = plain.output) := by
  obtain ⟨contents, hcontents, hparse⟩ := h.contents
  have hopts : options disk globals = .ok (o.seenFrom config) :=
    h.named ▸ options_eq (h.named.symm ▸ hcontents) hparse
  have hopts' : options disk globals.uncached = .ok (o.seenFrom config) := hopts
  obtain ⟨next, messages, root, project, hmerge, hon, hignores, hmode, hroot⟩ :=
    merge_of_rooted h
  obtain ⟨text, hread⟩ := h.readable
  have hpath := FilePath.isAbsolute_absolute? (isAbsolute_workingDirectory disk) h.file
  revert hplain
  unfold compile
  rw [hopts, hopts']
  cases CommandEngine.parse command version with
  | error reason =>
      intro hplain
      cases hplain
  | ok engine =>
      intro hplain plain cached
      have hready : Ready machine vars disk globals engine (o.seenFrom config) next _ :=
        ready_begun hmerge hon h.fresh
      have hready' : Ready machine vars disk globals.uncached engine (o.seenFrom config) next _ :=
        ready_begun hmerge hon h.fresh
      obtain ⟨hstatus, houtput⟩ := compileWith_file hready h.file
      obtain ⟨hstatus', houtput'⟩ := compileWith_file hready' h.file
      rw [load_ready hready hmode hignores hpath hread] at hstatus houtput
      rw [load_ready hready' hmode hignores hpath hread] at hstatus' houtput'
      have hoff : (environment vars globals.uncached).disableCache = true := rfl
      simp only [hoff, Bool.true_eq_false, false_and, if_false] at hstatus' houtput'
      simp only [h.caching.2, hroot, true_and] at hstatus houtput
      have hloaded := hstatus'.1 hplain
      obtain ⟨handover, hhandover⟩ := Option.isSome_iff_exists.1 hloaded
      cases hconfig : config.isAbsolute with
      | true =>
          simp only [hconfig, Bool.true_eq_false, if_false] at hstatus houtput
          refine ⟨⟨fun _ => rfl, fun _ => hstatus.2 hloaded⟩, fun _ => ?_⟩
          rw [houtput handover hhandover, houtput' handover hhandover]
      | false =>
          simp only [hconfig, if_true, ite_self] at hstatus
          have hfailed : cached.status ≠ 0 := fun h => by cases hstatus.1 h
          exact ⟨⟨fun h => absurd h hfailed, fun h => by cases h⟩, fun h => absurd h hfailed⟩

-- ---------------------------------------- a configuration file, named two ways

/-- The text of the configuration file of an application. -/
def settings : String :=
  Json.compact (.object [("projectName", .string "app"), ("cacheSourceRoot", .string "src")])

def settingsRead : Options where
  cacheSourceRoot := some ⟨"src"⟩
  projectName := some "app"

/-- The application, with the file in its working directory. -/
def application : FileSystem :=
  ((FileSystem.empty.set ["transload.json"] (.file (Utf8.encode settings) 5000)).set
    ["src"] .directory).set ["src", "a.js"] (.file (Utf8.encode "let a;") 5000)

/-- A compile of its script, with the file found, or named by a path. -/
def compiled (config : Option FilePath) (noCache : Bool) : Ended :=
  compile Program.small (fun _ => none) application
    { config, noCache, cachePath := some ⟨"/cache.json"⟩ } [⟨"src/a.js"⟩] "cat" none

/-- Wherever it was found, the options in the file are the ones that count. -/
theorem compiled_eq (config : Option FilePath) (noCache : Bool)
    (hread : (application.readText (config.getD defaultConfig)).toOption = some settings) :
    compiled config noCache
      = compileWith Program.small (fun _ => none) application
          { config, noCache, cachePath := some ⟨"/cache.json"⟩ } ⟨"cat", [], "cat"⟩
          (settingsRead.seenFrom (config.getD defaultConfig)) [⟨"src/a.js"⟩] := by
  have hoptions : options application { config, noCache, cachePath := some ⟨"/cache.json"⟩ } = _ :=
    options_eq (toOption_eq_some.1 hread) (Options.parse_sourceRoot ..)
  have hparse : CommandEngine.parse "cat" none = .ok ⟨"cat", [], "cat"⟩ :=
    toOption_eq_some.1 (by decide +kernel)
  unfold compiled compile
  rw [hparse, hoptions]
  rfl

/-- The general statement with the file named by an absolute path. -/
theorem compile_iff_isAbsolute_named :
    Rooted (fun _ => none) application
        { config := some ⟨"/transload.json"⟩, cachePath := some ⟨"/cache.json"⟩ }
        ⟨"/transload.json"⟩ settingsRead ⟨"src/a.js"⟩ ⟨"/src/a.js"⟩ ∧
      (compiled (some ⟨"/transload.json"⟩) true).status = 0 ∧
      (compiled (some ⟨"/transload.json"⟩) false).status = 0 ∧
      (compiled (some ⟨"/transload.json"⟩) false).output = "let a;\n" := by
  have hrooted : Rooted (fun _ => none) application
      { config := some ⟨"/transload.json"⟩, cachePath := some ⟨"/cache.json"⟩ }
      ⟨"/transload.json"⟩ settingsRead ⟨"src/a.js"⟩ ⟨"/src/a.js"⟩ := {
    named := rfl
    contents := ⟨settings, toOption_eq_some.1 (by decide +kernel), Options.parse_sourceRoot ..⟩
    root := ⟨⟨"src"⟩, rfl, by decide⟩
    project := rfl
    caching := ⟨by decide, rfl⟩
    fresh := by
      unfold Cache.Store.openAt Cache.Store.load
      rw [if_neg (by decide +kernel)]
      rfl
    file := by decide +kernel
    readable := ⟨"let a;", toOption_eq_some.1 (by decide +kernel)⟩
    eligible := ⟨{ workingDirectory := ⟨"/"⟩ }, by decide +kernel, rfl⟩ }
  have hplain : (compiled (some ⟨"/transload.json"⟩) true).status = 0 ∧
      (compiled (some ⟨"/transload.json"⟩) true).output = "let a;\n" := by
    rw [compiled_eq _ _ (by decide +kernel)]
    decide +kernel
  obtain ⟨hstatus, houtput⟩ := compile_iff_isAbsolute hrooted hplain.1
  have hcached := hstatus.2 (by decide)
  exact ⟨hrooted, hplain.1, hcached, (houtput hcached).trans hplain.2⟩

/-- With the file found in the working directory, or named by a relative path,
the script compiles with the cache off and fails with the cache on. -/
theorem relative_config_fails :
    (compiled none true).status = 0 ∧ (compiled none true).output = "let a;\n" ∧
      (compiled none false).status = failureStatus ∧
      (compiled (some defaultConfig) true).status = 0 ∧
      (compiled (some defaultConfig) false).status = failureStatus := by
  have hread : (application.readText defaultConfig).toOption = some settings := by decide +kernel
  rw [compiled_eq none true hread, compiled_eq none false hread,
    compiled_eq (some defaultConfig) true hread, compiled_eq (some defaultConfig) false hread]
  decide +kernel

end Cli

end TransformCache
