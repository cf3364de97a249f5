/-
The command line, as words.

Commands are nested: `cache` has commands of its own. Each level knows its options, and those of the
whole program are known at every level, where the innermost that is given counts. At one level an
option may be given once. An option takes its value from the same word, after an equals sign or
right after its letter, or from the next word, which must not look like an option. After `--`
every word is a file.

Reading stops at the first fault, and also where help or the version is asked for.
-/
import TransformCache.FilePath.Basic

namespace TransformCache.Cli

-- ====================================================== commands

/-- What is done with the store. -/
inductive CacheAction where
  | path
  | stats
  | clear
  deriving DecidableEq, Repr

/-- What the program is asked to do. -/
inductive Command where
  | compile (files : List FilePath) (engine : String) (engineVersion : Option String)
  | cache (action : CacheAction)
  deriving DecidableEq, Repr

/-- Options of the whole program. -/
structure Globals where
  config : Option FilePath := none
  cachePath : Option FilePath := none
  verbose : Bool := false
  noCache : Bool := false
  deriving DecidableEq, Repr

/-- A command with the program's options. -/
structure Request where
  globals : Globals
  command : Command
  deriving DecidableEq, Repr

-- ====================================================== options

/-- An option with a value. -/
inductive Setting where
  | config
  | cachePath
  | engine
  | engineVersion
  deriving DecidableEq, Repr

/-- An option without one. -/
inductive Switch where
  | verbose
  | noCache
  deriving DecidableEq, Repr

/-- Any option. -/
inductive Flag where
  | setting (s : Setting)
  | switch (s : Switch)
  | help
  | version
  deriving DecidableEq, Repr

/-- A value that is a path must not be empty. -/
def Setting.isPath : Setting → Bool
  | .config => true
  | .cachePath => true
  | _ => false

/-- Where a reader is among the commands. -/
inductive Level where
  | program
  | compile
  | cache
  | cacheAction (a : CacheAction)
  deriving DecidableEq, Repr

namespace Level

/-- The level that a command leads to. -/
def command? : Level → String → Option Level
  | .program, "compile" => some .compile
  | .program, "cache" => some .cache
  | .cache, "path" => some (.cacheAction .path)
  | .cache, "stats" => some (.cacheAction .stats)
  | .cache, "clear" => some (.cacheAction .clear)
  | _, _ => none

/-- True where a command has to follow; there `help` is one, too. -/
def hasCommands : Level → Bool
  | .program => true
  | .cache => true
  | _ => false

def long? : Level → String → Option Flag
  | _, "config" => some (.setting .config)
  | _, "cache-path" => some (.setting .cachePath)
  | _, "verbose" => some (.switch .verbose)
  | _, "no-cache" => some (.switch .noCache)
  | _, "help" => some .help
  | .program, "version" => some .version
  | .compile, "engine" => some (.setting .engine)
  | .compile, "engine-version" => some (.setting .engineVersion)
  | _, _ => none

def short? : Level → Char → Option Flag
  | _, 'c' => some (.setting .config)
  | _, 'v' => some (.switch .verbose)
  | _, 'h' => some .help
  | .program, 'V' => some .version
  | .compile, 'e' => some (.setting .engine)
  | _, _ => none

end Level

-- ====================================================== faults

/-- Why a command line is refused. -/
inductive Fault where
  | unknownOption (word : String)
  | unexpectedValue (word : String)
  | missingValue (word : String)
  | emptyValue
  | repeated (word : String)
  | unexpectedWord (word : String)
  | missingCommand
  | missingFiles
  | missingEngine
  deriving DecidableEq, Repr

def Fault.text : Fault → String
  | .unknownOption word => "unexpected argument '" ++ word ++ "' found"
  | .unexpectedValue word => "unexpected value in '" ++ word ++ "'"
  | .missingValue word => "a value is required after '" ++ word ++ "'"
  | .emptyValue => "a path must not be empty"
  | .repeated word => "the option in '" ++ word ++ "' cannot be used multiple times"
  | .unexpectedWord word => "unexpected argument '" ++ word ++ "' found"
  | .missingCommand => "a command is required"
  | .missingFiles => "at least one file is required"
  | .missingEngine => "an engine is required"

/-- Why reading stops before the end. -/
inductive Stop where
  | help
  | version
  | fault (f : Fault)
  deriving DecidableEq, Repr

-- ====================================================== reading

/-- What was read at one level. -/
structure Seen where
  settings : List (Setting × String) := []
  switches : List Switch := []
  files : List FilePath := []

namespace Seen

def value? (s : Seen) (setting : Setting) : Option String :=
  (s.settings.find? (·.1 = setting)).map (·.2)

def set (s : Seen) (word : String) (setting : Setting) (value : String) : Except Stop Seen :=
  if (s.value? setting).isSome then .error (.fault (.repeated word))
  else if value = "" ∧ setting.isPath then .error (.fault .emptyValue)
  else .ok { s with settings := (setting, value) :: s.settings }

def turnOn (s : Seen) (word : String) (switch : Switch) : Except Stop Seen :=
  if switch ∈ s.switches then .error (.fault (.repeated word))
  else .ok { s with switches := switch :: s.switches }

def addFile (s : Seen) (word : String) : Except Stop Seen :=
  if word = "" then .error (.fault .emptyValue) else .ok { s with files := s.files ++ [⟨word⟩] }

/-- What was read at a level and those around it; what was read inside counts. -/
def within (inner outer : Seen) : Seen where
  settings := inner.settings ++ outer.settings
  switches := inner.switches ++ outer.switches
  files := inner.files

def globals (s : Seen) : Globals where
  config := (s.value? .config).map FilePath.mk
  cachePath := (s.value? .cachePath).map FilePath.mk
  verbose := .verbose ∈ s.switches
  noCache := .noCache ∈ s.switches

end Seen

/-- Reads letters that follow a dash. The setting it answers with waits for its value. -/
def letters (level : Level) (word : String) (seen : Seen) :
    List Char → Except Stop (Seen × Option Setting)
  | [] => .ok (seen, none)
  | c :: rest =>
    match level.short? c with
    | none => .error (.fault (.unknownOption word))
    | some .help => .error .help
    | some .version => .error .version
    | some (.switch s) =>
      match seen.turnOn word s with
      | .ok seen => letters level word seen rest
      | .error stop => .error stop
    | some (.setting s) =>
      match rest with
      | [] => .ok (seen, some s)
      | '=' :: value => (·, none) <$> seen.set word s (String.ofList value)
      | value => (·, none) <$> seen.set word s (String.ofList value)

/-- Reads a word after two dashes. The setting it answers with waits for its value. -/
def longOption (level : Level) (word : String) (seen : Seen) (chars : List Char) :
    Except Stop (Seen × Option Setting) :=
  let name := chars.takeWhile (· ≠ '=')
  let attached : Option String := match chars.drop name.length with
    | _ :: value => some (String.ofList value)
    | [] => none
  match level.long? (String.ofList name), attached with
  | none, _ => .error (.fault (.unknownOption word))
  | some (.setting s), some value => (·, none) <$> seen.set word s value
  | some (.setting s), none => .ok (seen, some s)
  | some _, some _ => .error (.fault (.unexpectedValue word))
  | some (.switch s), none => (·, none) <$> seen.turnOn word s
  | some .help, none => .error .help
  | some .version, none => .error .version

/-- What a word is, where `--` was not met yet. -/
inductive Shape where
  | escape
  | long (chars : List Char)
  | short (chars : List Char)
  | plain

/-- The shape of a word; a lone dash is plain. -/
def shapeOf (word : String) : Shape :=
  match word.toList with
  | ['-', '-'] => .escape
  | '-' :: '-' :: chars => .long chars
  | ['-'] => .plain
  | '-' :: chars => .short chars
  | _ => .plain

/-- True for a word that can be the value of an option before it. -/
def isPlain (word : String) : Bool := shapeOf word matches .plain

/-- Takes in a word that is no option. -/
def plainWord (level : Level) (seen : Seen) (word : String) : Except Stop Seen :=
  match level with
  | .compile => seen.addFile word
  | _ => .error (.fault (.unexpectedWord word))

/-- The request that is complete at a level. -/
def finish (level : Level) (outer seen : Seen) : Except Stop Request :=
  let all := seen.within outer
  match level with
  | .program => .error (.fault .missingCommand)
  | .cache => .error (.fault .missingCommand)
  | .cacheAction a => .ok ⟨all.globals, .cache a⟩
  | .compile =>
    match seen.files, all.value? .engine with
    | [], _ => .error (.fault .missingFiles)
    | _, none => .error (.fault .missingEngine)
    | files, some engine => .ok ⟨all.globals, .compile files engine (all.value? .engineVersion)⟩

/-- Reads the words after `help`: the commands that help is asked for. -/
def helpFor (level : Level) : List String → Stop
  | [] => .help
  | word :: rest =>
    match level.command? word with
    | some level => helpFor level rest
    | none =>
      if word = "help" ∧ level.hasCommands then .help else .fault (.unexpectedWord word)

/-- Reads words at a level, after what was `seen` at it. `escaped` is set once `--` was met. -/
def readFrom (level : Level) (outer seen : Seen) (escaped : Bool) :
    List String → Except Stop Request
  | [] => finish level outer seen
  | word :: rest =>
    if escaped then
      match plainWord level seen word with
      | .ok seen => readFrom level outer seen true rest
      | .error stop => .error stop
    else
      match level.command? word with
      | some inner => readFrom inner (seen.within outer) {} false rest
      | none =>
        if word = "help" ∧ level.hasCommands then .error (helpFor level rest)
        else
          let options : Except Stop (Seen × Option Setting) :=
            match shapeOf word with
            | .escape => .ok (seen, none)
            | .long chars => longOption level word seen chars
            | .short chars => letters level word seen chars
            | .plain => (·, none) <$> plainWord level seen word
          match options with
          | .error stop => .error stop
          | .ok (seen, none) => readFrom level outer seen (shapeOf word matches .escape) rest
          | .ok (seen, some setting) =>
            match rest with
            | [] => .error (.fault (.missingValue word))
            | value :: rest =>
              if isPlain value then
                match seen.set word setting value with
                | .ok seen => readFrom level outer seen false rest
                | .error stop => .error stop
              else .error (.fault (.missingValue word))

def read (args : List String) : Except Stop Request := readFrom .program {} {} false args

end TransformCache.Cli
