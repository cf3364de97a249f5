/-
The shell: a program that runs scripts.

It keeps its own few commands and leaves the rest to other programs. Everything that a script runs
reads from one input, so what a command leaves unread is there for the next. A command's status
decides whether the pipelines after it are run, and the last one is the status of the script. The
disk is only read: no redirection makes a file.
-/
import TransformCache.Program.Script
import TransformCache.Program.Tool

namespace TransformCache.Program

namespace Shell

/-- A shell between two commands. -/
structure State where
  given : Given
  /-- The name of the script, and its arguments. -/
  name : String
  args : List String := []
  input : Bytes
  output : Bytes := []
  errors : Bytes := []
  /-- The status of the last command. -/
  status : Nat := 0
  /-- Set once the script is over. -/
  ended : Option Status := none
  /-- The variables that the script set. -/
  assigned : List (String × String) := []

/-- What a command did. -/
structure Done where
  output : Bytes := []
  errors : Bytes := []
  input : Bytes
  status : Nat := 0
  ended : Option Status := none
  /-- The variables that it set. -/
  assigned : List (String × String) := []

-- ====================================================== words

/-- The number that the shell shows as its own. -/
def ownNumber : String := "$$"

/-- The value of a parameter; empty if it is not set. -/
def valueOf (s : State) (name : String) : String :=
  match name with
  | "#" => toString s.args.length
  | "?" => toString s.status
  | "$" => ownNumber
  | "@" => " ".intercalate s.args
  | "*" => " ".intercalate s.args
  | "0" => s.name
  | name =>
    match name.toNat? with
    | some n => (s.args[n - 1]?).getD ""
    | none => (Variables.ofList s.assigned name <|> s.given.vars name).getD ""

/-- Blanks that unquoted values are cut at. -/
def isSeparator (c : Char) : Bool := c = ' ' || c = '\t' || c = '\n'

/-- Adds the characters of an unquoted value to the fields under way. -/
def splitInto (fields : List (List Char) × Option (List Char)) (c : Char) :
    List (List Char) × Option (List Char) :=
  match isSeparator c, fields with
  | true, (done, some field) => (done ++ [field], none)
  | true, (done, none) => (done, none)
  | false, (done, field) => (done, some (field.getD [] ++ [c]))

/-- Adds a piece to the fields under way. -/
def expandPiece (s : State) (fields : List (List Char) × Option (List Char)) :
    Piece → List (List Char) × Option (List Char)
  | .text chars => (fields.1, some (fields.2.getD [] ++ chars))
  | .parameter name true => (fields.1, some (fields.2.getD [] ++ (valueOf s name).toList))
  | .parameter name false => (valueOf s name).toList.foldl splitInto fields

/-- The arguments that a word makes: one, but for blanks in unquoted parameters. -/
def expand (s : State) (w : Word) : List String :=
  let (done, field) := w.foldl (expandPiece s) ([], none)
  (done ++ field.toList).map String.ofList

-- ====================================================== texts with escapes

/-- What a text with escapes is made of. -/
inductive Item where
  | byte (b : UInt8)
  /-- The place of an argument. -/
  | conversion (c : Char)
  /-- All output ends here. -/
  | stop
  deriving DecidableEq, Repr

/-- How texts with escapes are written. -/
structure Style where
  /-- An octal number follows a zero. -/
  zeroed : Bool
  /-- A percent sign marks the place of an argument. -/
  converts : Bool

/-- What the last characters of a text began. -/
inductive Begun where
  | nothing
  | escape
  | octal (left value : Nat)
  | conversion

def bytesOf (c : Char) : List Item := (String.utf8EncodeChar c).map .byte

/-- The items for the character after a backslash, and what it begins. -/
def escapeItems (style : Style) (c : Char) : List Item × Begun :=
  match style.zeroed, Tool.octalDigit? c with
  | true, some 0 => ([], .octal 3 0)
  | false, some digit => ([], .octal 2 digit)
  | _, _ =>
    if c = 'c' then ([.stop], .nothing)
    else if c ∈ ['n', 't', 'r', 'a', 'b', 'f', 'v', '\\'] then
      (bytesOf (Tool.escaped c), .nothing)
    else (bytesOf '\\' ++ bytesOf c, .nothing)

/-- The items for a character outside of an escape, and what it begins. -/
def plainItems (style : Style) (c : Char) : List Item × Begun :=
  if c = '\\' then ([], .escape)
  else if c = '%' ∧ style.converts then ([], .conversion)
  else (bytesOf c, .nothing)

def items (style : Style) (begun : Begun) : List Char → List Item
  | [] =>
    match begun with
    | .nothing => []
    | .escape => bytesOf '\\'
    | .octal _ value => [.byte (UInt8.ofNat value)]
    | .conversion => bytesOf '%'
  | c :: rest =>
    match begun with
    | .nothing => (plainItems style c).1 ++ items style (plainItems style c).2 rest
    | .escape => (escapeItems style c).1 ++ items style (escapeItems style c).2 rest
    | .conversion => .conversion c :: items style .nothing rest
    | .octal left value =>
      match left, Tool.octalDigit? c with
      | left + 1, some digit => items style (.octal left (value * 8 + digit)) rest
      | _, _ =>
        .byte (UInt8.ofNat value) :: (plainItems style c).1 ++
          items style (plainItems style c).2 rest

/-- Texts as `echo` takes them. -/
def echoStyle : Style := ⟨true, false⟩

/-- The bytes before a stop, and whether there is one. -/
def untilStop : List Item → Bytes × Bool
  | [] => ([], false)
  | .stop :: _ => ([], true)
  | .byte b :: rest => (b :: (untilStop rest).1, (untilStop rest).2)
  | .conversion _ :: rest => untilStop rest

/-- One round of a format: the bytes, the arguments left, and whether all ends there. -/
def format (args : List String) : List Item → Bytes × List String × Bool
  | [] => ([], args, false)
  | .stop :: _ => ([], args, true)
  | .byte b :: rest =>
    let (bytes, left) := format args rest
    (b :: bytes, left)
  | .conversion c :: rest =>
    if c = '%' then
      let (bytes, left) := format args rest
      (Utf8.encode "%" ++ bytes, left)
    else
      let arg := args.head?.getD (if c = 's' ∨ c = 'b' then "" else "0")
      let (own, stop) :=
        if c = 'b' then untilStop (items echoStyle .nothing arg.toList)
        else (Utf8.encode arg, false)
      if stop then (own, args.tail, true)
      else
        let (bytes, left) := format args.tail rest
        (own ++ bytes, left)

/-- Rounds of a format, until no arguments are left. Each round but the first takes one. -/
def formatAll (shape : List Item) : Nat → List String → Bytes
  | 0, _ => []
  | rounds + 1, args =>
    let (bytes, left, stop) := format args shape
    if stop ∨ left.isEmpty ∨ left.length = args.length then bytes
    else bytes ++ formatAll shape rounds left

-- ====================================================== the shell's own commands

/-- The status of a command that was asked for something that makes no sense. -/
def misuse : Nat := 2

/-- The status of a command that is not there. -/
def notFound : Nat := 127

/-- The start of a message about a line. -/
def place (s : State) (line : Nat) : String := s.name ++ ": " ++ toString line ++ ": "

/-- A command that fails with a message. -/
def fail (s : State) (line : Nat) (text : String) (status : Nat) : Done :=
  { errors := Utf8.encode (place s line ++ text ++ "\n"), input := s.input, status }

def echo (s : State) (args : List String) : Done :=
  let (args, newline) := match args with
    | "-n" :: rest => (rest, false)
    | args => (args, true)
  let (bytes, stop) := untilStop (items echoStyle .nothing (" ".intercalate args).toList)
  { output := if newline ∧ !stop then bytes ++ [0x0A] else bytes, input := s.input }

/-- Writes its arguments as its first one says. -/
def printf (s : State) (line : Nat) (args : List String) : Done :=
  match args with
  | [] => fail s line "printf: usage: printf format [arg ...]" misuse
  | shape :: args =>
    let shape := items ⟨false, true⟩ .nothing shape.toList
    { output := formatAll shape (args.length + 1) args, input := s.input }

def exit (s : State) (line : Nat) (args : List String) : Done :=
  match args with
  | [] => { input := s.input, ended := some (.exited s.status) }
  | text :: _ =>
    match text.toNat? with
    | some n => { input := s.input, ended := some (.exited (n % 256)) }
    | none =>
      { fail s line ("exit: Illegal number: " ++ text) misuse with ended := some (.exited misuse) }

/-- The signal that an option names, by number or by name. -/
def signal? (text : String) : Option Nat :=
  match text.toNat? with
  | some n => some n
  | none => (signals.find? fun s => s.2 = text ∨ "SIG" ++ s.2 = text).map (·.1)

/-- Sends the shell itself a signal; there is nothing else to send one to. -/
def kill (s : State) (line : Nat) (args : List String) : Done :=
  let (signal, targets) := match args with
    | "-s" :: name :: targets => (signal? name, targets)
    | option :: targets =>
      if option.startsWith "-" then (signal? (String.ofList (option.toList.drop 1)), targets)
      else (signal? "TERM", option :: targets)
    | [] => (none, [])
  match signal with
  | none => fail s line "kill: Illegal option" misuse
  | some 0 => { input := s.input }
  | some n =>
    if targets.contains ownNumber then { input := s.input, ended := some (.killed n false) }
    else fail s line "kill: No such process" 1

-- ====================================================== running

/-- What a program left, as what a command did. -/
def Done.ofLeft (l : Left) : Done :=
  { output := l.output
    errors := l.errors
    input := l.input
    status := match l.status with
      | .exited code => code
      | .killed signal _ => 128 + signal }

def runArgs (programs : String → Option (Given → Left)) (s : State) (line : Nat) :
    List String → Done
  | [] => { input := s.input }
  | "echo" :: args => echo s args
  | "printf" :: args => printf s line args
  | "exit" :: args => exit s line args
  | "kill" :: args => kill s line args
  | ":" :: _ => { input := s.input }
  | name :: args =>
    match programs name with
    | some program => .ofLeft (program { s.given with args, input := s.input })
    | none => fail s line (name ++ ": not found") notFound

/-- Where the bytes of an output go. -/
inductive Drain where
  | output
  | errors
  | nowhere
  deriving DecidableEq, Repr

/-- Where the two outputs go after a redirection. -/
def redirect (s : State) (drains : Nat → Drain) (r : Redirection) : Option (Nat → Drain) :=
  let target := " ".intercalate (expand s r.target)
  let drain? : Option Drain :=
    if r.duplicates then
      match target.toNat? with
      | some 1 => some (drains 1)
      | some 2 => some (drains 2)
      | _ => none
    else if target = Tool.emptyDevice then some .nowhere
    else none
  drain?.map fun drain n => if n = r.descriptor then drain else drains n

/-- Where the outputs go after all redirections, or the target that cannot be written to. -/
def redirectAll (s : State) (drains : Nat → Drain) :
    List Redirection → Except String (Nat → Drain)
  | [] => .ok drains
  | r :: rest =>
    match redirect s drains r with
    | some drains => redirectAll s drains rest
    | none => .error (" ".intercalate (expand s r.target))

/-- The outputs sorted by where they go. -/
def Done.redirected (d : Done) (drains : Nat → Drain) : Done :=
  let collect (drain : Drain) : Bytes :=
    (if drains 1 = drain then d.output else []) ++ (if drains 2 = drain then d.errors else [])
  { d with output := collect .output, errors := collect .errors }

/-- The variables of a command: those set for it, and those around the script. The script's own
stay its own, but for new values of those around it. -/
def variablesFor (s : State) (set : List (String × String)) : Variables := fun name =>
  Variables.ofList set name <|>
    (s.given.vars name).map fun around => (Variables.ofList s.assigned name).getD around

/-- The variable that a word sets: it begins with a name and an equals sign, unquoted. -/
def assignment? (s : State) (w : Word) : Option (String × String) :=
  let bare := (w.takeWhile fun p => p matches .text [_]).flatMap fun p =>
    match p with
    | .text chars => chars
    | _ => []
  let name := bare.takeWhile isNameChar
  match name, bare.drop name.length with
  | c :: _, '=' :: _ =>
    if c.isDigit then none
    else some (String.ofList name, " ".intercalate (expand s (w.drop (name.length + 1))))
  | _, _ => none

/-- The variables that the first words set, and the words after them. -/
def assignments (s : State) : List Word → List (String × String) × List Word
  | [] => ([], [])
  | w :: rest =>
    match assignment? s w with
    | some set => (set :: (assignments s rest).1, (assignments s rest).2)
    | none => ([], w :: rest)

/-- Runs one command. Variables set before it are set for it alone, and for the script if there is
no command. -/
def runCommand (programs : String → Option (Given → Left)) (s : State) (c : Command) : Done :=
  match redirectAll s (fun n => if n = 1 then .output else .errors) c.redirections with
  | .error target => fail s c.line ("cannot create " ++ target ++ ": Permission denied") misuse
  | .ok drains =>
    let (set, words) := assignments s c.words
    let within := { s with given := { s.given with vars := variablesFor s set } }
    let done := (runArgs programs within c.line (words.flatMap (expand s))).redirected drains
    if words.isEmpty then { done with assigned := set } else done

/-- The shell after a command whose output goes to the shell's. -/
def absorb (s : State) (d : Done) : State :=
  { s with
    assigned := s.assigned ++ d.assigned
    input := d.input
    output := s.output ++ d.output
    errors := s.errors ++ d.errors
    status := d.status
    ended := d.ended }

/-- What a command in a pipeline did. It sets no variables for others, and ends only itself, but
for a signal to the shell. -/
def Done.apart (d : Done) : Done :=
  match d.ended with
  | some (.exited code) => { d with status := code, ended := none, assigned := [] }
  | _ => { d with assigned := [] }

/-- Runs the commands of a pipeline on the output of those `before`. Nothing is run after a signal
to the shell. -/
def runPiped (programs : String → Option (Given → Left)) (s : State) (before : Done) :
    List Command → Done
  | [] => before
  | c :: rest =>
    if before.ended.isSome then { before with output := [] }
    else
      let d := (runCommand programs { s with input := before.output } c).apart
      let d := { d with errors := before.errors ++ d.errors, input := before.input }
      runPiped programs s d rest

/-- Runs a pipeline. A command alone is run by the shell itself. -/
def runPipeline (programs : String → Option (Given → Left)) (s : State) (p : Pipeline) : State :=
  match p.commands with
  | [] => s
  | [c] => absorb s (runCommand programs s c)
  | c :: rest => absorb s (runPiped programs s (runCommand programs s c).apart rest)

/-- True if the pipeline is to be run after what came before. -/
def wanted (s : State) (p : Pipeline) : Bool :=
  s.ended.isNone &&
    match p.condition with
    | .always => true
    | .afterSuccess => s.status = 0
    | .afterFailure => s.status ≠ 0

/-- What the shell leaves at the end of a script. -/
def leave (s : State) : Left :=
  { output := s.output
    errors := s.errors
    status := s.ended.getD (.exited s.status)
    input := s.input }

def runScript (programs : String → Option (Given → Left)) (s : State) (script : Script) : Left :=
  let s := script.pipelines.foldl
    (fun s p => if wanted s p then runPipeline programs s p else s) s
  match script.unterminated with
  | some line =>
    if s.ended.isSome then leave s
    else leave (absorb s (fail s line "Syntax error: Unterminated quoted string" misuse))
  | none => leave s

/-- The shell as a program: it runs the script in the file that its first argument names, the one
that follows `-c`, or its input. A directory is an empty script. -/
def run (programs : String → Option (Given → Left)) (g : Given) : Left :=
  let shell (name : String) (args : List String) (input : Bytes) (text : Bytes) : Left :=
    runScript programs { given := g, name, args, input } (Script.ofText (Utf8.decodeLossy text))
  match g.args with
  | [] => shell "sh" [] [] g.input
  | ["-c"] => complain "sh: 0: -c requires an argument\n" misuse g.input
  | "-c" :: text :: name :: args => shell name args g.input (Utf8.encode text)
  | ["-c", text] => shell "sh" [] g.input (Utf8.encode text)
  | name :: args =>
    match g.disk.read ⟨name⟩ with
    | .ok text => shell name args g.input text
    | .error .isADirectory => shell name args g.input []
    | .error reason =>
      let text := match reason with
        | .notFound => "No such file"
        | reason => Tool.shortReason reason
      complain ("sh: 0: cannot open " ++ name ++ ": " ++ text ++ "\n") misuse g.input

end Shell

-- ====================================================== all programs

/-- The programs by name; shells may run shells, `depth` deep. -/
def programs : Nat → String → Option (Given → Left)
  | 0, name => Tool.find? name
  | depth + 1, name => if name = "sh" then some (Shell.run (programs depth)) else Tool.find? name

/-- How deep shells may run shells. -/
def shellDepth : Nat := 16

def find? (name : String) : Option (Given → Left) := programs shellDepth name

end TransformCache.Program
