/-
Scripts: lists of commands, as they are written.

A script is read in two passes. The first cuts it into tokens, a character at a time: blanks end a
word, quotes keep characters together, and a dollar sign begins a parameter. The second puts the
tokens together: redirections go to their command, commands with a bar between them to one
pipeline, and each pipeline is run always, or only if the one before it went well or failed.

Words keep their parameters. They get their values, and unquoted ones are cut at blanks, when the
command is run.
-/

namespace TransformCache.Program

-- ====================================================== scripts

/-- A part of a word. -/
inductive Piece where
  | text (chars : List Char)
  | parameter (name : String) (quoted : Bool)
  deriving DecidableEq, Repr

/-- A word of a command. -/
abbrev Word := List Piece

/-- Where an output of a command goes instead. -/
structure Redirection where
  /-- `1` for the output, `2` for messages. -/
  descriptor : Nat
  /-- The target is the number of a descriptor, and not the name of a file. -/
  duplicates : Bool
  target : Word
  deriving DecidableEq, Repr

/-- A command with its arguments. -/
structure Command where
  words : List Word := []
  redirections : List Redirection := []
  /-- The line that it begins on. -/
  line : Nat := 1
  deriving DecidableEq, Repr

/-- When a pipeline is run. -/
inductive Condition where
  | always
  | afterSuccess
  | afterFailure
  deriving DecidableEq, Repr

/-- Commands that are run with the output of each as the input of the next. -/
structure Pipeline where
  condition : Condition
  commands : List Command
  deriving DecidableEq, Repr

/-- A script. -/
structure Script where
  pipelines : List Pipeline
  /-- The line on which the text ends inside quotes. -/
  unterminated : Option Nat := none
  deriving DecidableEq, Repr

-- ====================================================== tokens

/-- What the text of a script is cut into. -/
inductive Token where
  | word (w : Word)
  /-- The end of a command: a semicolon or the end of a line. -/
  | stop
  | and
  | or
  | bar
  | redirect (descriptor : Nat) (duplicates : Bool)
  | unterminated
  deriving DecidableEq, Repr

/-- How the next character is read. -/
inductive Reading where
  | plain
  | single
  | double
  | comment
  /-- It and `more` others belong to what was read already. -/
  | passed (more : Nat) (quoted : Bool)

def isNameChar (c : Char) : Bool := c.isAlphanum || c = '_'

/-- The parameter after a dollar sign, and how many characters name it; nothing if the dollar sign
stands for itself. -/
def parameter? (rest : List Char) : Option (String × Nat) :=
  match rest with
  | [] => none
  | '\x7b' :: rest =>
    let name := rest.takeWhile (· ≠ '\x7d')
    if name.length < rest.length then some (String.ofList name, name.length + 2) else none
  | c :: _ =>
    if c.isDigit ∨ c ∈ ['#', '$', '?', '@', '*', '!', '-'] then some (c.toString, 1)
    else
      let name := rest.takeWhile isNameChar
      if name.isEmpty then none else some (String.ofList name, name.length)

/-- The word under way, as a token if there is one. -/
def wordToken (line : Nat) : Option Word → List (Nat × Token)
  | none => []
  | some w => [(line, .word w)]

/-- The word under way with a piece more. -/
def extend (w : Option Word) (p : Piece) : Option Word := some (w.getD [] ++ [p])

/-- The descriptor that a word before a redirection names; it is a digit right before it. -/
def descriptorOf : Option Word → Option Nat
  | some [.text [c]] => if c.isDigit then some (c.toNat - '0'.toNat) else none
  | _ => none

/-- The tokens of a text, each with its line. `word` is the word under way. -/
def tokens (reading : Reading) (line : Nat) (word : Option Word) :
    List Char → List (Nat × Token)
  | [] =>
    match reading with
    | .single => [(line, .unterminated)]
    | .double => [(line, .unterminated)]
    | _ => wordToken line word
  | c :: rest =>
    match reading with
    | .passed 0 quoted => tokens (if quoted then .double else .plain) line word rest
    | .passed (more + 1) quoted => tokens (.passed more quoted) line word rest
    | .comment =>
      if c = '\n' then (line, .stop) :: tokens .plain (line + 1) none rest
      else tokens .comment line none rest
    | .single =>
      if c = '\'' then tokens .plain line (extend word (.text [])) rest
      else tokens .single (if c = '\n' then line + 1 else line) (extend word (.text [c])) rest
    | .double =>
      let line := if c = '\n' then line + 1 else line
      if c = '"' then tokens .plain line (extend word (.text [])) rest
      else if c = '$' then
        match parameter? rest with
        | some (name, length) =>
          tokens (.passed (length - 1) true) line (extend word (.parameter name true)) rest
        | none => tokens .double line (extend word (.text [c])) rest
      else if c = '\\' then
        match rest with
        | '\n' :: rest => tokens .double (line + 1) word rest
        | d :: rest =>
          let kept := if d ∈ ['$', '`', '"', '\\'] then [d] else [c, d]
          tokens .double line (extend word (.text kept)) rest
        | [] => [(line, .unterminated)]
      else tokens .double line (extend word (.text [c])) rest
    | .plain =>
      if c = ' ' ∨ c = '\t' then wordToken line word ++ tokens .plain line none rest
      else if c = '\n' then
        wordToken line word ++ (line, .stop) :: tokens .plain (line + 1) none rest
      else if c = ';' then wordToken line word ++ (line, .stop) :: tokens .plain line none rest
      else if c = '#' ∧ word.isNone then tokens .comment line none rest
      else if c = '\'' then tokens .single line (extend word (.text [])) rest
      else if c = '"' then tokens .double line (extend word (.text [])) rest
      else if c = '&' then
        match rest with
        | '&' :: rest => wordToken line word ++ (line, .and) :: tokens .plain line none rest
        | rest => wordToken line word ++ (line, .stop) :: tokens .plain line none rest
      else if c = '|' then
        match rest with
        | '|' :: rest => wordToken line word ++ (line, .or) :: tokens .plain line none rest
        | rest => wordToken line word ++ (line, .bar) :: tokens .plain line none rest
      else if c = '>' then
        let before := if (descriptorOf word).isSome then [] else wordToken line word
        let descriptor := (descriptorOf word).getD 1
        match rest with
        | '&' :: rest =>
          before ++ (line, .redirect descriptor true) :: tokens .plain line none rest
        | '>' :: rest =>
          before ++ (line, .redirect descriptor false) :: tokens .plain line none rest
        | rest => before ++ (line, .redirect descriptor false) :: tokens .plain line none rest
      else if c = '$' then
        match parameter? rest with
        | some (name, length) =>
          tokens (.passed (length - 1) false) line (extend word (.parameter name false)) rest
        | none => tokens .plain line (extend word (.text [c])) rest
      else if c = '\\' then
        match rest with
        | '\n' :: rest => tokens .plain (line + 1) word rest
        | d :: rest => tokens .plain line (extend word (.text [d])) rest
        | [] => wordToken line (extend word (.text [c]))
      else tokens .plain line (extend word (.text [c])) rest

-- ====================================================== putting together

/-- A script under way. -/
structure Draft where
  done : List Pipeline := []
  condition : Condition := .always
  /-- The commands of the pipeline under way, but for the last. -/
  commands : List Command := []
  command : Command := {}
  /-- A redirection that waits for its target. -/
  awaited : Option (Nat × Bool) := none
  unterminated : Option Nat := none

namespace Draft

/-- True while the command under way is empty. -/
def isIdle (d : Draft) : Bool := d.command.words.isEmpty && d.command.redirections.isEmpty

def endCommand (d : Draft) : Draft :=
  if d.isIdle then d else { d with commands := d.commands ++ [d.command], command := {} }

/-- Ends the pipeline under way; the next is run under `condition`. -/
def endPipeline (d : Draft) (condition : Condition) : Draft :=
  let d := d.endCommand
  if d.commands.isEmpty then
    -- an empty line after `&&` does not take its condition away
    { d with condition := if condition = .always then d.condition else condition }
  else { d with done := d.done ++ [⟨d.condition, d.commands⟩], condition, commands := [] }

def add (d : Draft) (token : Nat × Token) : Draft :=
  let (line, token) := token
  let d := if d.isIdle then { d with command := { d.command with line } } else d
  match token with
  | .word w =>
    match d.awaited with
    | some (descriptor, duplicates) =>
      let r : Redirection := ⟨descriptor, duplicates, w⟩
      { d with
        awaited := none
        command := { d.command with redirections := d.command.redirections ++ [r] } }
    | none => { d with command := { d.command with words := d.command.words ++ [w] } }
  | .stop => d.endPipeline .always
  | .and => d.endPipeline .afterSuccess
  | .or => d.endPipeline .afterFailure
  | .bar => d.endCommand
  | .redirect descriptor duplicates => { d with awaited := some (descriptor, duplicates) }
  | .unterminated => { d with unterminated := some line }

end Draft

namespace Script

/-- The script that a text writes. Of a text that ends inside quotes, the pipeline with the quote
is no part of it. -/
def ofText (text : String) : Script :=
  let d := (tokens .plain 1 none text.toList).foldl Draft.add {}
  match d.unterminated with
  | some line => ⟨d.done, some line⟩
  | none => ⟨(d.endPipeline .always).done, none⟩

end Script

end TransformCache.Program
