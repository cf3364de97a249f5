/-
What the program does with its command line, on a disk.

`compile` loads files the way a module host would, through a table whose loaders a register has
taken over, and writes the code it is handed. The other commands look at the store or empty it.

A run ends with the bytes it wrote, a status, and the disk as it left it. A file that fails ends
it; what was written before stays written, and results that were stored by then are saved.
-/
import TransformCache.Cli.Arguments
import TransformCache.CommandEngine
import TransformCache.FilePath.Relative
import TransformCache.Register

namespace TransformCache.Cli

-- ====================================================== results

/-- Why a run failed. -/
inductive Failure where
  | engine (reason : TransformError)
  | register (reason : Error)
  | cache (reason : Cache.Error)
  | noPath
  deriving DecidableEq, Repr

def Failure.text : Failure → String
  | .engine reason => reason.text
  | .register reason => reason.text
  | .cache reason => reason.text
  | .noPath => "cannot make an empty path absolute"

/-- How a run ended. -/
structure Ended where
  output : String := ""
  messages : List String := []
  status : Nat := 0
  /-- An account of every call of the engine. -/
  calls : List Invocation := []
  disk : FileSystem

/-- The status of a run that failed, or that was not understood. -/
def failureStatus : Nat := 2

def failed (disk : FileSystem) (reason : Failure) (output : String) : Ended :=
  { output, messages := [reason.text], status := failureStatus, disk }

-- ====================================================== settings

/-- What is used in place of `--config`, if it is there. -/
def defaultConfig : FilePath := ⟨"transload.json"⟩

/-- The settings of the environment, with those of the command line over them. -/
def environment (vars : Variables) (globals : Globals) : Environment :=
  let env := Environment.ofVariables vars
  { env with
    cachePath := globals.cachePath <|> env.cachePath
    disableCache := globals.noCache || env.disableCache }

def storePath (vars : Variables) (globals : Globals) : FilePath :=
  (environment vars globals).storePath (Environment.homeDirectory vars)

def options (disk : FileSystem) (globals : Globals) : Except Error Options :=
  match globals.config with
  | some file => Options.ofFile disk file
  | none => if disk.holds defaultConfig then Options.ofFile disk defaultConfig else .ok {}

def workingDirectory (disk : FileSystem) : FilePath :=
  ⟨"/" ++ "/".intercalate disk.workingDirectory⟩

-- ====================================================== compile

/-- Code as it is written: with the end of a line after it. -/
def printed (code : String) : String :=
  if code.toList.getLast? = some '\n' then code else code ++ "\n"

/-- Loads files one after the other, until one fails, and collects what is written. -/
def loadFiles (r : Register) (w : World) (cwd : FilePath) (output : String) :
    List FilePath → Except Failure Unit × String × Register × World
  | [] => (.ok (), output, r, w)
  | file :: rest =>
    match FilePath.absolute? cwd file with
    | none => (.error .noPath, output, r, w)
    | some path =>
      let done := r.load w path none
      match done.result with
      | .error e => (.error (.register e), output, done.register, done.world)
      | .ok handover =>
        loadFiles done.register done.world cwd (output ++ printed handover.code) rest

/-- A run that ends in a world, after it wrote `output`. -/
def endedIn (w : World) (output : String) (result : Except Failure Unit) : Ended :=
  let ended : Ended := match result with
    | .ok () => { output, disk := w.disk }
    | .error reason => failed w.disk reason output
  { ended with calls := w.invocations }

/-- Compiles files with an engine. However it ends, the register is torn down; the deferred tasks
are run only if no file failed. -/
def compileWith (machine : Program.Machine) (vars : Variables) (disk : FileSystem)
    (globals : Globals) (engine : CommandEngine) (opts : Options) (files : List FilePath) : Ended :=
  let env := environment vars globals
  let cwd := workingDirectory disk
  let (store, w) :=
    (World.ofDisk disk).addStore (Register.storeFor env (Environment.homeDirectory vars))
  let (r, w) := Register.create w ∅ (engine.toEngine machine disk vars) store env cwd
  let configured := r.configure w opts
  match configured.result with
  | .error e =>
    endedIn (configured.register.tearDown configured.world).2 "" (.error (.register e))
  | .ok () =>
    match loadFiles configured.register configured.world cwd "" files with
    | (.error reason, output, r, w) => endedIn (r.tearDown w).2 output (.error reason)
    | (.ok (), output, r, w) =>
      endedIn (r.tearDown (w.perform [.drain 0 .count])).2 output (.ok ())

def compile (machine : Program.Machine) (vars : Variables) (disk : FileSystem)
    (globals : Globals) (files : List FilePath) (command : String) (version : Option String) :
    Ended :=
  match CommandEngine.parse command version with
  | .error reason => failed disk (.engine reason) ""
  | .ok engine =>
    match options disk globals with
    | .error e => failed disk (.register e) ""
    | .ok opts => compileWith machine vars disk globals engine opts files

-- ====================================================== cache

/-- What is told of a store: its file, and how many entries of each kind it has. -/
def statsText (path : FilePath) (entries : Keyed Cache.Entry) : String :=
  let checksums := entries.values.countP fun e => e.stamp matches .checksum _
  "path: " ++ path.text ++ "\nentries: " ++ toString entries.size ++
    "\nmtime: " ++ toString (entries.size - checksums) ++
    "\nchecksum: " ++ toString checksums ++ "\n"

/-- Tells how many entries the store's file has. -/
def stats (disk : FileSystem) (path : FilePath) : Ended :=
  match (Cache.Store.new path).load disk with
  | .error e => failed disk (.cache e) ""
  | .ok (_, store) => { output := statsText path store.entries, disk }

/-- Empties the store's file, if there is one. -/
def clear (disk : FileSystem) (path : FilePath) : Ended :=
  if disk.holds path then
    match (Cache.Store.new path).clear.flush disk with
    | (.error e, disk) => failed disk (.cache e) ""
    | (.ok (), disk) => { messages := ["Cleared cache at " ++ path.text], disk }
  else { messages := ["No cache at " ++ path.text], disk }

-- ====================================================== the program

def versionText : String := "transload 0.1.0\n"

def helpText : String :=
  "Runs source files through a transform engine with a persistent cache.\n\n" ++
  "Usage: transload [OPTIONS] compile --engine COMMAND [--engine-version VERSION] FILES...\n" ++
  "       transload [OPTIONS] cache path|stats|clear\n\n" ++
  "Options:\n" ++
  "  -c, --config FILE      options in JSON; transload.json is used if it is there\n" ++
  "      --cache-path FILE  the file of the cache store\n" ++
  "      --no-cache         turns the cache off\n" ++
  "  -v, --verbose          tells more\n" ++
  "  -h, --help             tells this\n" ++
  "  -V, --version          tells the version\n"

def perform (machine : Program.Machine) (vars : Variables) (disk : FileSystem)
    (request : Request) : Ended :=
  let path := storePath vars request.globals
  match request.command with
  | .compile files command version =>
    let ended := compile machine vars disk request.globals files command version
    if request.globals.verbose then
      { ended with messages := ("Using cache store " ++ path.text) :: ended.messages }
    else ended
  | .cache .path => { output := path.text ++ "\n", disk }
  | .cache .stats => stats disk path
  | .cache .clear => clear disk path

def run (machine : Program.Machine) (vars : Variables) (disk : FileSystem) (args : List String) :
    Ended :=
  match read args with
  | .ok request => perform machine vars disk request
  | .error .help => { output := helpText, disk }
  | .error .version => { output := versionText, disk }
  | .error (.fault f) => { messages := ["error: " ++ f.text], status := failureStatus, disk }

end TransformCache.Cli
