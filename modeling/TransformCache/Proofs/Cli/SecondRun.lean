/-
A second run over the files of a first one.

The first run begins with an empty store. While it goes on, whatever the store
holds under the key of one of its files has the stamp of that file, since files
that share a key share the stamp (`Settled`, `settled_into`). So an entry that
was made is not replaced by another file's, and all that was loaded is loaded
again from the entries that are there at the end, with nothing made
(`loads_again`).

The second run reads these entries back. Its disk, its engine and its place in
time may be others: what counts is that it sees the files as the first run did
(`Unchanged`) and makes the same keys (`Setup.Like`). Then it loads what the
first run would load again (`Like.loads`), and so it writes the same, calls no
engine and leaves the file of the store as it is (`second_run`).
-/
import TransformCache.Proofs.CacheKey.Places
import TransformCache.Proofs.Cli.Progress

namespace TransformCache

-- ============================================================ the same files

/-- What is seen of a file on two disks is the same: its contents, and the time
of its last change. -/
structure FileSystem.Unchanged (fs fs' : FileSystem) (p : FilePath) : Prop where
  contents : (fs'.read p).toOption = (fs.read p).toOption
  time : (fs'.modified p).toOption = (fs.modified p).toOption

namespace FileSystem.Unchanged

variable {fs fs' : FileSystem} {p : FilePath}

theorem read_eq_ok (h : Unchanged fs fs' p) {bytes : Bytes} (hread : fs.read p = .ok bytes) :
    fs'.read p = .ok bytes := by
  have hcontents := h.contents
  rw [hread] at hcontents
  exact toOption_eq_some.1 hcontents

theorem modified_eq_ok (h : Unchanged fs fs' p) {time : Int} (htime : fs.modified p = .ok time) :
    fs'.modified p = .ok time := by
  have hsame := h.time
  rw [htime] at hsame
  exact toOption_eq_some.1 hsame

theorem readText_eq_ok (h : Unchanged fs fs' p) {text : String}
    (hread : fs.readText p = .ok text) : fs'.readText p = .ok text := by
  obtain ⟨bytes, hbytes, hdecode⟩ := bind_eq_ok.1 hread
  exact bind_eq_ok.2 ⟨bytes, h.read_eq_ok hbytes, hdecode⟩

/-- Whatever is at a path has a time. -/
theorem holds_eq (h : Unchanged fs fs' p) : fs'.holds p = fs.holds p := by
  have hholds : ∀ disk : FileSystem, disk.holds p = (disk.modified p).toOption.isSome := by
    intro disk
    unfold holds modified
    cases disk.lookUp p with
    | error e => rfl
    | ok found =>
        obtain ⟨place, entry⟩ := found
        cases entry with
        | directory => rfl
        | file bytes time => rfl
  rw [hholds, hholds, h.time]

/-- A stamp that was taken is taken again. -/
theorem currentStamp_eq_ok (h : Unchanged fs fs' p) {mode : Mode} {stamp : Cache.Stamp}
    (hstamp : mode.currentStamp fs p = .ok stamp) : mode.currentStamp fs' p = .ok stamp := by
  cases mode with
  | mtime =>
      obtain ⟨milliseconds, htime, rfl⟩ := map_eq_ok.1 hstamp
      unfold fileTime at htime
      split at htime
      next microseconds hmodified =>
        refine map_eq_ok.2 ⟨milliseconds, ?_, rfl⟩
        unfold fileTime
        rw [h.modified_eq_ok hmodified]
        exact htime
      next => cases htime
  | checksum root project =>
      obtain ⟨digest, hdigest, rfl⟩ := map_eq_ok.1 hstamp
      unfold fileChecksum at hdigest
      split at hdigest
      next bytes hbytes =>
        refine map_eq_ok.2 ⟨digest, ?_, rfl⟩
        unfold fileChecksum
        rw [h.read_eq_ok hbytes]
        exact hdigest
      next => cases hdigest

theorem unchangedCode_eq_ok (h : Unchanged fs fs' p) {code : String}
    (hcode : unchangedCode fs p none = .ok code) : unchangedCode fs' p none = .ok code := by
  unfold unchangedCode at hcode
  simp only at hcode
  split at hcode
  next text hread =>
    cases hcode
    unfold unchangedCode
    simp only [h.readText_eq_ok hread]
  next => cases hcode

end FileSystem.Unchanged

namespace Cli

open FileSystem (Unchanged)
open Register (Recording Ticket)

variable {S S' : Setup} {held : Keyed Cache.Entry} {file : FilePath} {l : Loaded}

-- ========================================================= entries that stay

/-- All entries of the one are among those of the other. -/
def Within (held held' : Keyed Cache.Entry) : Prop :=
  ∀ key entry, held.get? key = some entry → held'.get? key = some entry

/-- What is held under the key of a file has the file's stamp. -/
def Settled (S : Setup) (held : Keyed Cache.Entry) : Prop :=
  ∀ {file path : FilePath} {options : EngineOptions} {t : Ticket} {entry : Cache.Entry},
    S.Compiles file path options t → held.get? t.key = some entry → entry.stamp = t.stamp

/-- Files that share a key share the stamp. -/
def Setup.Discerning (S : Setup) : Prop :=
  ∀ {file file' path path' : FilePath} {options options' : EngineOptions} {t t' : Ticket},
    S.Compiles file path options t → S.Compiles file' path' options' t' → t.key = t'.key →
      t.stamp = t'.stamp

/-- A file that is loaded once more, with no need to make anything. -/
def Loaded.again (l : Loaded) : Loaded := { code := l.code }

/-- Nothing that is held for a file is replaced when another is loaded. -/
theorem settled_into (hS : S.Discerning) (h : Settled S held)
    (hload : S.load held file = .ok l) :
    Settled S (l.into held) ∧ Within held (l.into held) := by
  cases Setup.becomes_of_load hload with
  | ignored => exact ⟨h, fun _ _ hget => hget⟩
  | answered => exact ⟨h, fun _ _ hget => hget⟩
  | @made path options t output hcompiles hentry hinvoke =>
      refine ⟨fun {_ _ _ t' entry} hcompiles' hget => ?_, fun key entry hget => ?_⟩
      · change (held.insert t.key _).get? t'.key = _ at hget
        rw [Keyed.get?_insert] at hget
        split at hget
        next hkey =>
          cases hget
          exact hS hcompiles hcompiles' hkey
        next => exact h hcompiles' hget
      · change (held.insert t.key _).get? key = _
        rw [Keyed.get?_insert]
        split
        next hkey =>
          subst hkey
          exact absurd (h hcompiles hget) (hentry entry hget)
        next => exact hget

/-- What was loaded is loaded again from the entries that are there then, and from
all that they are among. -/
theorem load_again (hload : S.load held file = .ok l) {after : Keyed Cache.Entry}
    (hafter : Within (l.into held) after) : S.load after file = .ok l.again := by
  cases Setup.becomes_of_load hload with
  | ignored hpath hhooked hignored hcode =>
      exact Setup.load_of_ignored hpath hhooked hignored hcode
  | answered hcompiles hentry hstamp =>
      exact Setup.load_of_compiles hcompiles (hafter _ _ hentry) hstamp
  | @made path options t output hcompiles _ _ =>
      have hentry : (Loaded.into { code := output.code, filed := some ⟨t, output⟩ } held).get? t.key
          = some (Recording.entry ⟨t, output⟩) := Keyed.get?_insert_self ..
      exact Setup.load_of_compiles hcompiles (hafter _ _ hentry) rfl

theorem into_again (l : Loaded) (held : Keyed Cache.Entry) : l.again.into held = held := rfl

theorem kept_again (held : Keyed Cache.Entry) (done : List Loaded) :
    kept held (done.map Loaded.again) = held := by
  induction done with
  | nil => rfl
  | cons l rest ih => exact ih

theorem written_again (done : List Loaded) : written (done.map Loaded.again) = written done := by
  unfold written
  rw [List.map_map]
  rfl

/-- All that was loaded is loaded again, from the entries that are there at the
end and from all that they are among. -/
theorem loads_again (hS : S.Discerning) (files : List FilePath) :
    ∀ {held : Keyed Cache.Entry} {done : List Loaded}, Settled S held →
      S.loads held files = (done, none) →
      Within held (kept held done) ∧
        ∀ after, Within (kept held done) after →
          S.loads after files = (done.map Loaded.again, none) := by
  induction files with
  | nil =>
      intro held done _ hloads
      cases hloads
      exact ⟨fun _ _ hget => hget, fun _ _ => rfl⟩
  | cons file rest ih =>
      intro held done hsettled hloads
      cases hload : S.load held file with
      | error reason =>
          rw [Setup.loads_of_error hload] at hloads
          cases hloads
      | ok l =>
          rw [Setup.loads_of_ok hload, Prod.mk.injEq] at hloads
          obtain ⟨rfl, hnone⟩ := hloads
          obtain ⟨hstill, hinto⟩ := settled_into hS hsettled hload
          obtain ⟨hwithin, hagain⟩ := ih hstill (Prod.ext rfl hnone)
          refine ⟨fun key entry hget => hwithin key entry (hinto key entry hget),
            fun after hafter => ?_⟩
          have hload' : S.load after file = .ok l.again :=
            load_again hload fun key entry hget => hafter key entry (hwithin key entry hget)
          rw [Setup.loads_of_ok hload', into_again, hagain after hafter]
          rfl

-- ============================================================ another setup

/-- Setups that load some files alike, as far as nothing has to be made. -/
structure Setup.Like (S S' : Setup) (files : List FilePath) : Prop where
  config : S'.config = S.config
  hooked : S'.hooked = S.hooked
  discriminator : S'.discriminator = S.discriminator
  version : S'.engine.version = S.engine.version
  options : S'.engine.optionsFor = S.engine.optionsFor
  home : S'.disk.workingDirectory = S.disk.workingDirectory
  files : ∀ file ∈ files, ∀ path ∈ FilePath.absolute? (workingDirectory S.disk) file,
    Unchanged S.disk S'.disk path

namespace Setup.Like

variable {files : List FilePath}

theorem absolute_eq (h : Like S S' files) (file : FilePath) :
    FilePath.absolute? (Cli.workingDirectory S'.disk) file
      = FilePath.absolute? (Cli.workingDirectory S.disk) file := by
  unfold Cli.workingDirectory
  rw [h.home]

/-- What is compiled is compiled under the same ticket. -/
theorem compiles (h : Like S S' files) (hfile : file ∈ files) {path : FilePath}
    {options : EngineOptions} {t : Ticket} (hcompiles : S.Compiles file path options t) :
    S'.Compiles file path options t := by
  have hseen : Unchanged S.disk S'.disk path := h.files file hfile path hcompiles.absolute
  refine ⟨(h.absolute_eq file).trans hcompiles.absolute, h.hooked ▸ hcompiles.hooked,
    h.config ▸ hcompiles.accepted, ?_, ?_⟩
  · rw [h.options, h.config]
    exact hcompiles.resolved
  · obtain ⟨hkey, hstamp⟩ := Setup.ticket_eq_ok.1 hcompiles.ticketed
    rw [Setup.ticket_eq_ok, h.config, h.version, h.discriminator]
    exact ⟨hkey, hseen.currentStamp_eq_ok hstamp⟩

theorem load (h : Like S S' files) (hfile : file ∈ files) (hload : S.load held file = .ok l)
    (hfiled : l.filed = none) : S'.load held file = .ok l := by
  cases Setup.becomes_of_load hload with
  | ignored hpath hhooked hignored hcode =>
      exact Setup.load_of_ignored ((h.absolute_eq file).trans hpath) (h.hooked ▸ hhooked)
        (h.config ▸ hignored) ((h.files file hfile _ hpath).unchangedCode_eq_ok hcode)
  | answered hcompiles hentry hstamp =>
      exact Setup.load_of_compiles (h.compiles hfile hcompiles) hentry hstamp
  | made => cases hfiled

/-- Files that need nothing to be made are loaded alike. -/
theorem loads (rest : List FilePath) :
    ∀ {held : Keyed Cache.Entry} {done : List Loaded}, Like S S' rest →
      S.loads held rest = (done.map Loaded.again, none) →
      S'.loads held rest = (done.map Loaded.again, none) := by
  induction rest with
  | nil => exact fun _ hloads => hloads
  | cons file rest ih =>
      intro held done h hloads
      cases hload : S.load held file with
      | error reason =>
          rw [Setup.loads_of_error hload] at hloads
          cases (Prod.mk.inj hloads).2
      | ok l =>
          rw [Setup.loads_of_ok hload, Prod.mk.injEq] at hloads
          obtain ⟨hdone, hnone⟩ := hloads
          obtain ⟨first, others, rfl, rfl, hothers⟩ := List.map_eq_cons_iff.1 hdone.symm
          have hload' := h.load List.mem_cons_self hload rfl
          have hrest : Like S S' rest := { h with
            files := fun file hfile => h.files file (List.mem_cons_of_mem _ hfile) }
          rw [Setup.loads_of_ok hload', ih hrest (Prod.ext hothers.symm hnone)]
          rfl

end Setup.Like

-- ============================================================== the two runs

variable {machine machine' : Program.Machine} {vars : Variables} {disk disk' : FileSystem}
  {args args' : List String} {globals : Globals} {files : List FilePath}
  {command command' : String} {version : Option String} {engine engine' : CommandEngine}
  {opts : Options} {config : Config}

/-- The files of a run are told apart, as far as their source root has no steps
upwards. -/
theorem discerning_setup
    (hroot : ∀ root project, config.mode = .checksum root project → .up ∉ root.components) :
    (setup machine vars disk globals engine opts config).Discerning := by
  intro file file' path path' options options' t t' h h' hkey
  have hparts : ∀ {file path : FilePath} {options : EngineOptions} {t : Ticket},
      (setup machine vars disk globals engine opts config).Compiles file path options t →
      path.isAbsolute = true ∧
        CacheKey.build (if config.mode.isRelocatable then config.transform
          else EngineOptions.withFilename config.transform path.text) path config.mode
          engine.version (environment vars globals).discriminator = .ok t.key ∧
        config.mode.currentStamp disk path = .ok t.stamp := by
    intro file path options t hcompiles
    have habsolute := FilePath.isAbsolute_absolute? (isAbsolute_workingDirectory disk)
      hcompiles.absolute
    have hresolved : options = EngineOptions.withFilename config.transform path.text :=
      (Except.ok.inj hcompiles.resolved).symm
    exact ⟨habsolute, hresolved ▸ Setup.ticket_eq_ok.1 hcompiles.ticketed⟩
  obtain ⟨habsolute, hbuild, hstamp⟩ := hparts h
  obtain ⟨habsolute', hbuild', hstamp'⟩ := hparts h'
  rw [← hkey] at hbuild'
  exact CacheKey.stamp_of_build hroot habsolute habsolute' hbuild hbuild' hstamp hstamp'

theorem sourceRoot_of_merge {messages : List Message} {root : FilePath} {project : String}
    (hmerge : (Config.initial (workingDirectory disk)).merge opts = .ok (config, messages))
    (hmode : config.mode = .checksum root project) : opts.cacheSourceRoot = some root := by
  unfold Config.merge at hmerge
  split at hmerge
  next => cases hmerge
  next =>
    cases hmerge
    have hnext : (Config.nextMode .mtime opts).1 = .checksum root project := hmode
    unfold Config.nextMode at hnext
    split at hnext
    next hroot _ =>
      cases hnext
      exact hroot
    next => cases hnext
    next => cases hnext

/-- A configuration file that is unchanged, or still missing, has the same options. -/
theorem options_of_unchanged
    (h : Unchanged disk disk' (globals.config.getD defaultConfig))
    (hoptions : options disk globals = .ok opts) : options disk' globals = .ok opts := by
  have hfile : ∀ {file : FilePath}, Unchanged disk disk' file →
      Options.ofFile disk file = .ok opts → Options.ofFile disk' file = .ok opts := by
    intro file hsame hok
    unfold Options.ofFile at hok ⊢
    split at hok
    next => cases hok
    next text hread =>
      rw [hsame.readText_eq_ok hread]
      exact hok
  unfold options at hoptions ⊢
  cases hconfig : globals.config with
  | some file =>
      rw [hconfig] at h hoptions
      exact hfile h hoptions
  | none =>
      rw [hconfig] at h hoptions
      simp only at hoptions ⊢
      rw [show disk'.holds defaultConfig = disk.holds defaultConfig from h.holds_eq]
      split at hoptions
      next hholds =>
        rw [if_pos hholds]
        exact hfile h hoptions
      next hmissing =>
        rw [if_neg hmissing]
        exact hoptions

/-- The second run compiles with the same configuration, and with an engine of the
same version. -/
theorem Compiling.second
    (h : Compiling vars disk args globals files command version engine opts config)
    (hrequest : read args' = .ok ⟨globals, .compile files command' version⟩)
    (hcommand : command' = command ∨ Text.words command' ≠ [] ∧ version.isSome = true)
    (hhome : disk'.workingDirectory = disk.workingDirectory)
    (hconfig : Unchanged disk disk' (globals.config.getD defaultConfig)) :
    ∃ engine' : CommandEngine, engine'.version = engine.version ∧
      Compiling vars disk' args' globals files command' version engine' opts config := by
  have hparse : ∃ engine' : CommandEngine, engine'.version = engine.version ∧
      CommandEngine.parse command' version = .ok engine' := by
    rcases hcommand with rfl | ⟨hwords, hversion⟩
    · exact ⟨engine, rfl, h.engine⟩
    · obtain ⟨given, hgiven⟩ := Option.isSome_iff_exists.1 hversion
      have hengine := h.engine
      unfold CommandEngine.parse at hengine ⊢
      split at hengine
      next => cases hengine
      next =>
        cases hengine
        cases hwords' : Text.words command' with
        | nil => exact absurd hwords' hwords
        | cons program rest => exact ⟨_, by rw [hgiven]; rfl, rfl⟩
  obtain ⟨engine', hversion, hparse⟩ := hparse
  have hplace : workingDirectory disk' = workingDirectory disk := by
    unfold workingDirectory
    rw [hhome]
  exact ⟨engine', hversion, hrequest, hparse, options_of_unchanged hconfig h.options,
    hplace ▸ h.config, h.caching⟩

/-- A second run over the files of a first one, which began with no store, writes
the same and succeeds, calls no engine, and leaves the file of the store as it
is. The engine may be another one of the same version, and the programs on the
machine may be others. -/
theorem second_run
    (h : Compiling vars disk args globals files command version engine opts config)
    (hfresh : disk.holds (storePath vars globals) = false)
    (hwritable : Cache.Store.Writable (storePath vars globals) disk)
    (hsize : (Cache.entriesFile (kept ∅
      ((setup machine vars disk globals engine opts config).loads ∅ files).1)).length
        ≤ Cache.defaultSizeLimit)
    (hstatus : (run machine vars disk args).status = 0)
    (hroot : ∀ root ∈ opts.cacheSourceRoot, .up ∉ root.components)
    (hrequest : read args' = .ok ⟨globals, .compile files command' version⟩)
    (hcommand : command' = command ∨ Text.words command' ≠ [] ∧ version.isSome = true)
    (hhome : disk'.workingDirectory = disk.workingDirectory)
    (hconfig : Unchanged disk disk' (globals.config.getD defaultConfig))
    (hfiles : ∀ file ∈ files, ∀ path ∈ FilePath.absolute? (workingDirectory disk) file,
      Unchanged disk disk' path)
    (hstore : disk'.read (storePath vars globals)
      = (run machine vars disk args).disk.read (storePath vars globals)) :
    let first := run machine vars disk args
    let second := run machine' vars disk' args'
    second.output = first.output ∧ second.status = 0 ∧ second.calls = [] ∧
      ∃ file, first.disk.read (storePath vars globals) = .ok file ∧
        second.disk.read (storePath vars globals) = .ok file := by
  intro first second
  have hload := Cache.Store.load_of_missing (s := Cache.Store.new (storePath vars globals)) hfresh
  obtain ⟨messages, hmerge⟩ := h.config
  let S := setup machine vars disk globals engine opts config
  rcases hresult : S.loads ∅ files with ⟨done, failure⟩
  have hdone : (S.loads ∅ files).1 = done := congrArg Prod.fst hresult
  obtain ⟨hended, houtput, hread, -⟩ :=
    run_of_compiling h hload hresult (.inr ⟨hwritable, hdone ▸ hsize⟩)
  have hfailure : failure = none := by
    cases failure with
    | none => rfl
    | some reason => cases hstatus.symm.trans hended
  subst hfailure
  -- what the first run enters is there when the files are loaded again
  have hdiscerning : S.Discerning := discerning_setup fun root project hmode =>
    hroot root (sourceRoot_of_merge hmerge hmode)
  have hsettled : Settled S ∅ := fun _ hget => by cases hget
  obtain ⟨-, hagain⟩ := loads_again hdiscerning files hsettled hresult
  -- the second run finds it in its store, and loads the files like the first
  obtain ⟨engine', hversion, hcompiling⟩ := h.second hrequest hcommand hhome hconfig
  have hlike : S.Like (setup machine' vars disk' globals engine' opts config) files :=
    ⟨rfl, rfl, rfl, hversion, rfl, hhome, hfiles⟩
  have hsecond := hlike.loads files (hagain _ fun _ _ hget => hget)
  have hread' : disk'.read (storePath vars globals) = .ok (Cache.entriesFile (kept ∅ done)) :=
    hstore.trans hread
  have hlasting : ∀ key e, (kept ∅ done).get? key = some e → e.Lasting :=
    hdone ▸ lasting_kept rfl files fun _ _ hget => by cases hget
  have hload' := Cache.Store.load_of_stored (s := Cache.Store.new (storePath vars globals))
    ⟨_, hread', Cache.parseEntries_of_lasting hlasting⟩
  obtain ⟨hended', houtput', hread'', hcalls⟩ := run_of_compiling hcompiling hload' hsecond
    (.inl (kept_again _ done ▸ hread'))
  refine ⟨?_, hended', hcalls rfl ?_, _, hread, ?_⟩
  · exact houtput'.trans ((written_again done).trans houtput.symm)
  · intro l hl
    obtain ⟨first, -, rfl⟩ := List.mem_map.1 hl
    rfl
  · rw [hread'', kept_again]
    rfl

-- ------------------------ a script that is named twice, from a source root

def twiceArgs (command : String) : List String :=
  ["-c", "/transload.json", "--cache-path", "/cache.json", "compile", "--engine", command,
    "--engine-version", "1", "src/a.js", "src/a.js"]

def twiceGlobals : Globals :=
  { config := some ⟨"/transload.json"⟩, cachePath := some ⟨"/cache.json"⟩ }

def twiceOptions : Options := settingsRead.seenFrom ⟨"/transload.json"⟩

def twiceConfig : Config :=
  { Config.initial ⟨"/"⟩ with mode := .checksum ⟨"/src"⟩ "app" }

/-- What is loaded of the application, where its script is named twice. -/
def loadedTwice : List Loaded × Option Failure :=
  (setup Program.small (fun _ => none) application twiceGlobals ⟨"cat", [], "1"⟩ twiceOptions
    twiceConfig).loads ∅ [⟨"src/a.js"⟩, ⟨"src/a.js"⟩]

/-- The application with the file of the store that is left. -/
def applicationAfter : FileSystem :=
  application.set ["cache.json"] (.file (Cache.entriesFile (kept ∅ loadedTwice.1)) 9000)

/-- The general statement with an engine that rejects all files in place of the
first one. -/
theorem second_run_rejecting :
    Compiling (fun _ => none) application (twiceArgs "cat") twiceGlobals
        [⟨"src/a.js"⟩, ⟨"src/a.js"⟩] "cat" (some "1") ⟨"cat", [], "1"⟩ twiceOptions twiceConfig ∧
      let first := run Program.small (fun _ => none) application (twiceArgs "cat")
      let second := run Program.small (fun _ => none) applicationAfter (twiceArgs "false")
      first.status = 0 ∧ first.output = "let a;\nlet a;\n" ∧ second.output = first.output ∧
        second.status = 0 ∧ second.calls = [] := by
  have hcompiling : Compiling (fun _ => none) application (twiceArgs "cat") twiceGlobals
      [⟨"src/a.js"⟩, ⟨"src/a.js"⟩] "cat" (some "1") ⟨"cat", [], "1"⟩ twiceOptions twiceConfig := {
    request := toOption_eq_some.1 (by decide +kernel)
    engine := toOption_eq_some.1 (by decide +kernel)
    options := options_eq (toOption_eq_some.1 (by decide +kernel)) (Options.parse_sourceRoot ..)
    config := ⟨_, rfl⟩
    caching := ⟨by decide, by decide⟩ }
  have hfresh : application.holds ⟨"/cache.json"⟩ = false := by decide +kernel
  have hwritable : Cache.Store.Writable ⟨"/cache.json"⟩ application :=
    toOption_eq_some.1 (by decide +kernel)
  have hsize : (Cache.entriesFile (kept ∅ loadedTwice.1)).length ≤ Cache.defaultSizeLimit := by
    decide +kernel
  have hloads : (setup Program.small (fun _ => none) application twiceGlobals ⟨"cat", [], "1"⟩
      twiceOptions twiceConfig).loads ∅ [⟨"src/a.js"⟩, ⟨"src/a.js"⟩] = (loadedTwice.1, none) := by
    show loadedTwice = _
    exact Prod.ext rfl (Option.isNone_iff_eq_none.1 (by decide +kernel))
  have hwritten : written loadedTwice.1 = "let a;\nlet a;\n" := by decide +kernel
  have hload := Cache.Store.load_of_missing
    (s := Cache.Store.new (storePath (fun _ => none) twiceGlobals)) hfresh
  obtain ⟨hstatus, houtput, hread, -⟩ :=
    run_of_compiling hcompiling hload hloads (.inr ⟨hwritable, hsize⟩)
  have hrequest : read (twiceArgs "false")
      = .ok ⟨twiceGlobals, .compile [⟨"src/a.js"⟩, ⟨"src/a.js"⟩] "false" (some "1")⟩ :=
    toOption_eq_some.1 (by decide +kernel)
  have hroot : ∀ root ∈ twiceOptions.cacheSourceRoot, .up ∉ root.components := by
    decide +kernel
  have hhome : applicationAfter.workingDirectory = application.workingDirectory := rfl
  have hconfig : Unchanged application applicationAfter ⟨"/transload.json"⟩ :=
    ⟨by decide +kernel, by decide +kernel⟩
  have hscript : Unchanged application applicationAfter ⟨"/src/a.js"⟩ :=
    ⟨by decide +kernel, by decide +kernel⟩
  have hfiles : ∀ file ∈ [(⟨"src/a.js"⟩ : FilePath), ⟨"src/a.js"⟩],
      ∀ path ∈ FilePath.absolute? (workingDirectory application) file,
        Unchanged application applicationAfter path := by
    intro file hfile path hpath
    have habsolute : ∀ file ∈ [(⟨"src/a.js"⟩ : FilePath), ⟨"src/a.js"⟩],
        FilePath.absolute? (workingDirectory application) file = some ⟨"/src/a.js"⟩ := by
      decide +kernel
    cases (habsolute file hfile).symm.trans hpath
    exact hscript
  have hstore : applicationAfter.read ⟨"/cache.json"⟩
      = .ok (Cache.entriesFile (kept ∅ loadedTwice.1)) :=
    FileSystem.read_eq_ok_iff.2 ⟨["cache.json"], 9000, FileSystem.lookUp_eq_ok_iff.2
      ⟨toOption_eq_some.1 (by decide +kernel), toOption_eq_some.1 (by decide +kernel), rfl⟩⟩
  obtain ⟨hsame, hended, hcalls, -⟩ := second_run hcompiling hfresh hwritable hsize hstatus hroot
    hrequest (.inr ⟨by decide +kernel, rfl⟩) hhome hconfig hfiles (hstore.trans hread.symm)
  exact ⟨hcompiling, hstatus, houtput.trans hwritten, hsame, hended, hcalls⟩

end Cli

end TransformCache
