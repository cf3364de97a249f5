/-
The small programs that source text is commonly sent through.

`cat` hands on files or its input, `tr` turns single bytes into others, `printenv` writes the values
of variables, and `true` and `false` do nothing but have a status. The sets of `tr` are sets of
bytes: a character outside of ASCII stands for the bytes that it is stored as.
-/
import TransformCache.Program.Basic

namespace TransformCache.Program.Tool

/-- The end of a message about arguments. -/
def advice (tool : String) : String := "Try '" ++ tool ++ " --help' for more information.\n"

/-- A tool that does not take its arguments. -/
def usage (tool text : String) (input : Bytes) : Left :=
  complain (tool ++ ": " ++ text ++ "\n" ++ advice tool) 1 input

/-- A byte as messages show it: outside of ASCII by its octal number. -/
def shownByte (b : UInt8) : List Char :=
  let n := b.toNat
  if 0x80 ≤ n then '\\' :: [n / 64, n / 8 % 8, n % 8].map Nat.digitChar
  else
    let c := Char.ofNat n
    if c = '\\' ∨ c = '\'' then ['\\', c] else [c]

/-- An argument as messages show it. -/
def shown (arg : String) : String :=
  "'" ++ String.ofList ((Utf8.encode arg).flatMap shownByte) ++ "'"

/-- True for an argument that is made of options. -/
def isOption (arg : String) : Bool := arg.toList.head? = some '-' && arg ≠ "-"

-- ====================================================== cat

/-- The device that is always empty. -/
def emptyDevice : String := "/dev/null"

/-- Why a file cannot be read, without the number of the reason. -/
def shortReason (reason : FileError) : String :=
  match reason with
  | .notFound => "No such file or directory"
  | .permissionDenied => "Permission denied"
  | .notADirectory => "Not a directory"
  | .isADirectory => "Is a directory"
  | .nameTooLong => "File name too long"
  | other => other.text

/-- One after the other, the files named; `-` is the input, read to its end. A file that cannot be
read is passed over with a message. -/
def catFrom (g : Given) (done : Left) : List String → Left
  | [] => done
  | name :: rest =>
    let done :=
      if name = "-" then { done with output := done.output ++ done.input, input := [] }
      else if name = emptyDevice then done
      else
        match g.disk.read ⟨name⟩ with
        | .ok bytes => { done with output := done.output ++ bytes }
        | .error reason =>
          { done with
            errors := done.errors ++
              Utf8.encode ("cat: " ++ name ++ ": " ++ shortReason reason ++ "\n")
            status := .exited 1 }
    catFrom g done rest

/-- Writes files, or its input, to its output. -/
def cat (g : Given) : Left :=
  match g.args.find? fun arg => isOption arg && arg ≠ "-u" with
  | some arg =>
    let letter := String.ofList ((arg.toList.drop 1).take 1)
    usage "cat" ("invalid option -- '" ++ letter ++ "'") g.input
  | none =>
    let names := g.args.filter (· ≠ "-u")
    catFrom g { input := g.input } (if names.isEmpty then ["-"] else names)

-- ====================================================== sets of bytes

/-- A digit of an octal number. -/
def octalDigit? (c : Char) : Option Nat :=
  if '0' ≤ c ∧ c ≤ '7' then some (c.toNat - '0'.toNat) else none

/-- The character that a letter after a backslash stands for. -/
def escaped (c : Char) : Char :=
  match c with
  | 'n' => '\n'
  | 't' => '\t'
  | 'r' => '\r'
  | 'a' => '\x07'
  | 'b' => '\x08'
  | 'f' => '\x0c'
  | 'v' => '\x0b'
  | c => c

/-- A byte of a set, and whether it was written by itself, so that it can have a meaning. -/
structure SetByte where
  byte : UInt8
  bare : Bool
  deriving DecidableEq, Repr

/-- The bytes that a set is written with, escapes resolved: a letter after a backslash, or up to
three octal digits. -/
def setBytes : List Char → List SetByte
  | [] => []
  | '\\' :: c :: rest =>
    match ((c :: rest).take 3).map octalDigit? with
    | some x :: some y :: some z :: _ =>
      ⟨UInt8.ofNat (x * 64 + y * 8 + z), false⟩ :: setBytes (rest.drop 2)
    | some x :: some y :: _ => ⟨UInt8.ofNat (x * 8 + y), false⟩ :: setBytes (rest.drop 1)
    | some x :: _ => ⟨UInt8.ofNat x, false⟩ :: setBytes rest
    | _ => (String.utf8EncodeChar (escaped c)).map (⟨·, false⟩) ++ setBytes rest
  | c :: rest => (String.utf8EncodeChar c).map (⟨·, true⟩) ++ setBytes rest
termination_by chars => chars.length
decreasing_by all_goals simp only [List.length_cons, List.length_drop]; omega

/-- All bytes, in order. -/
def allBytes : Bytes := (List.range 256).map UInt8.ofNat

/-- The bytes of a class of characters. -/
def classOf (name : String) : Option Bytes :=
  let those (p : Char → Bool) : Option Bytes :=
    some (allBytes.filter fun b => b < 0x80 && p (Char.ofNat b.toNat))
  match name with
  | "lower" => those Char.isLower
  | "upper" => those Char.isUpper
  | "alpha" => those Char.isAlpha
  | "digit" => those Char.isDigit
  | "alnum" => those Char.isAlphanum
  | "space" => those fun c => c.toNat ∈ [9, 10, 11, 12, 13, 32]
  | "blank" => those fun c => c.toNat ∈ [9, 32]
  | "punct" => those fun c => 32 < c.toNat && c.toNat < 127 && !c.isAlphanum
  | _ => none

def classNames : List String :=
  ["lower", "upper", "alpha", "digit", "alnum", "space", "blank", "punct"]

/-- A class at the start of a set, with the set after it. -/
def classAt? (set : List SetByte) : Option (Bytes × List SetByte) :=
  classNames.findSome? fun name =>
    let written := (Utf8.encode ("[:" ++ name ++ ":]")).map (⟨·, true⟩ : UInt8 → SetByte)
    if written.isPrefixOf set then
      (classOf name).map fun bytes => (bytes, set.drop written.length)
    else none

/-- The bytes of a set, classes and ranges spelled out; `limit` bounds how many are written. A
range that runs backwards is refused with its ends. -/
def spellOut : Nat → List SetByte → Except (UInt8 × UInt8) Bytes
  | 0, _ => .ok []
  | _ + 1, [] => .ok []
  | limit + 1, a :: rest =>
    match classAt? (a :: rest) with
    | some (bytes, rest) => (bytes ++ ·) <$> spellOut limit rest
    | none =>
      match rest with
      | ⟨0x2D, true⟩ :: b :: rest =>
        if b.byte < a.byte then .error (a.byte, b.byte)
        else
          (allBytes.filter (fun x => a.byte ≤ x && x ≤ b.byte) ++ ·) <$> spellOut limit rest
      | rest => (a.byte :: ·) <$> spellOut limit rest

/-- The bytes of a set as it is written. -/
def setOf (text : String) : Except String Bytes :=
  let set := setBytes text.toList
  match spellOut set.length set with
  | .ok bytes => .ok bytes
  | .error (a, b) =>
    .error ("range-endpoints of '" ++ Utf8.decodeLossy [a, 0x2D, b] ++
      "' are in reverse collating sequence order")

-- ====================================================== tr

/-- What `tr` is asked to do. -/
structure TrOptions where
  /-- The first set holds the bytes that are not in it. -/
  complement : Bool := false
  delete : Bool := false
  /-- Runs of a byte of the last set become one. -/
  squeeze : Bool := false

/-- The options in an argument, or the first letter that is none. -/
def TrOptions.add (o : TrOptions) : List Char → Except Char TrOptions
  | [] => .ok o
  | 'c' :: rest => { o with complement := true }.add rest
  | 'C' :: rest => { o with complement := true }.add rest
  | 'd' :: rest => { o with delete := true }.add rest
  | 's' :: rest => { o with squeeze := true }.add rest
  | c :: _ => .error c

/-- The options at the start of the arguments, and the sets after them. -/
def TrOptions.ofArgs (o : TrOptions) : List String → Except Char (TrOptions × List String)
  | [] => .ok (o, [])
  | arg :: rest =>
    if arg = "--" then .ok (o, rest)
    else if isOption arg then
      match o.add (arg.toList.drop 1) with
      | .ok o => o.ofArgs rest
      | .error c => .error c
    else .ok (o, arg :: rest)

/-- A byte of the first set, turned into the one at its place in the second; the last byte of the
second stands for all that are missing. The last place in the first set counts. -/
def replaced (source target : Bytes) (b : UInt8) : UInt8 :=
  match source.zipIdx.reverse.find? (·.1 = b) with
  | some (_, i) => (target[i]? <|> target.getLast?).getD b
  | none => b

/-- The bytes with runs of a byte in the set made one. -/
def squeezed (set : Bytes) : Bytes → Bytes
  | a :: b :: rest =>
    if a = b ∧ a ∈ set then squeezed set (b :: rest) else a :: squeezed set (b :: rest)
  | short => short

/-- Turns bytes into others, leaves them out, or makes runs of them one. -/
def trWith (o : TrOptions) (sets : List Bytes) (input : Bytes) : Bytes :=
  let first := sets.head?.getD []
  let first := if o.complement then allBytes.filter fun b => !first.contains b else first
  let second := sets.drop 1 |>.head?
  let changed :=
    if o.delete then input.filter fun b => !first.contains b
    else
      match second with
      | some target =>
        let table := (allBytes.map (replaced first target)).toArray
        input.map fun b => table.getD b.toNat b
      | none => input
  if o.squeeze then squeezed (second.getD first) changed else changed

/-- How many sets are wanted, at least and at most, and why. -/
def TrOptions.wanted (o : TrOptions) : Nat × Nat × String :=
  match o.delete, o.squeeze with
  | true, true => (2, 2, "Two strings must be given when both deleting and squeezing repeats.")
  | true, false => (1, 1, "Only one string may be given when deleting without squeezing repeats.")
  | false, true => (1, 2, "")
  | false, false => (2, 2, "Two strings must be given when translating.")

def tr (g : Given) : Left :=
  match TrOptions.ofArgs {} g.args with
  | .error c => usage "tr" ("invalid option -- '" ++ c.toString ++ "'") g.input
  | .ok (o, sets) =>
    let (least, most, why) := o.wanted
    if sets.length < least then
      match sets with
      | [] => usage "tr" "missing operand" g.input
      | set :: _ => usage "tr" ("missing operand after " ++ shown set ++ "\n" ++ why) g.input
    else
      match sets.drop most with
      | extra :: more =>
        let why := if o.delete ∧ !o.squeeze ∧ more = [] then "\n" ++ why else ""
        usage "tr" ("extra operand " ++ shown extra ++ why) g.input
      | [] =>
        match sets.mapM setOf with
        | .error text => complain ("tr: " ++ text ++ "\n") 1 g.input
        | .ok sets => { output := trWith o sets g.input }

-- ====================================================== all tools

/-- Writes the values of variables, a line each; fails if one is not set. -/
def printenv (g : Given) : Left :=
  let values := g.args.filterMap g.vars
  { output := values.flatMap fun v => Utf8.encode (v ++ "\n")
    status := if values.length = g.args.length then .exited 0 else .exited 1
    input := g.input }

def find? : String → Option (Given → Left)
  | "cat" => some cat
  | "tr" => some tr
  | "true" => some fun g => { input := g.input }
  | "false" => some fun g => { status := .exited 1, input := g.input }
  | "printenv" => some printenv
  | _ => none

end TransformCache.Program.Tool
