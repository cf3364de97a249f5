/-
The configuration of a register, and how options change it.

A configuration is never changed in place: `merge` makes the next one from options, or refuses
them and changes nothing. Lists of patterns, callbacks and engine options given later replace those
given earlier; turning the cache off stays; and the mode changes only when both the source root and
the project name are given, half of the pair being worth a warning.

Messages carry the label of the configuration they are sent under and go to its callbacks, if it
has any.
-/
import TransformCache.Filter
import TransformCache.Invalidation
import TransformCache.Options.Register

namespace TransformCache

-- ====================================================== messages

/-- A message, and the callback that receives it. -/
structure Message where
  sink : Sink
  text : String
  deriving DecidableEq, Repr

/-- The callbacks that messages go to. -/
structure Reporter where
  log : Option Sink := none
  debug : Option Sink := none
  deriving DecidableEq, Repr, Inhabited

/-- A message under a label. -/
def labelled (label text : String) : String := "[" ++ label ++ "] " ++ text

namespace Reporter

/-- A message for people. -/
def say (r : Reporter) (label text : String) : List Message :=
  r.log.toList.map fun sink => ⟨sink, labelled label text⟩

/-- A message about a configuration that does not do what it seems to. -/
def warn (r : Reporter) (label text : String) : List Message := r.say label text

/-- A message on a step. -/
def trace (r : Reporter) (label text : String) : List Message :=
  r.debug.toList.map fun sink => ⟨sink, labelled label text⟩

end Reporter

-- ====================================================== the configuration

/-- The configuration that is in effect. -/
structure Config where
  filter : Filter
  cacheEnabled : Bool := true
  mode : Mode := .mtime
  transform : EngineOptions := ∅
  reporter : Reporter := {}
  deriving Inhabited

namespace Config

/-- The label of messages where no project is named. -/
def defaultLabel : String := "TRANSLOAD"

/-- The configuration of a program that runs in `workingDirectory`. -/
def initial (workingDirectory : FilePath) : Config where
  filter := { workingDirectory }

def label (c : Config) : String := c.mode.projectName?.getD defaultLabel

/-- A message for people. -/
def say (c : Config) (text : String) : List Message := c.reporter.say c.label text

/-- A warning. -/
def warn (c : Config) (text : String) : List Message := c.reporter.warn c.label text

/-- A message on a step. -/
def trace (c : Config) (text : String) : List Message := c.reporter.trace c.label text

/-- What is said of half a pair. -/
def halfPairWarning : String :=
  "must have both cacheSourceRoot and projectName; invalidation mode unchanged"

/-- The mode after options, and whether they gave only half of what it takes to change it. -/
def nextMode (mode : Mode) (o : Options) : Mode × Bool :=
  match o.cacheSourceRoot, o.projectName with
  | some root, some name => (.checksum root name, false)
  | none, none => (mode, false)
  | _, _ => (mode, true)

/-- The configuration after options, and the messages sent on the way. Extensions are no part of
it. -/
def merge (c : Config) (o : Options) : Except Error (Config × List Message) :=
  match c.filter.withPatterns o.only o.ignore with
  | .error e => .error e
  | .ok filter =>
    let (mode, half) := nextMode c.mode o
    let next : Config :=
      { filter
        cacheEnabled := c.cacheEnabled && o.cache ≠ some false
        mode
        transform := EngineOptions.merged c.transform o.transform
        reporter := ⟨o.log <|> c.reporter.log, o.debug <|> c.reporter.debug⟩ }
    .ok (next, if half then next.warn halfPairWarning else [])

end Config

end TransformCache
