/-
Glob patterns.

A pattern is a list of tokens. `?` is any one byte and `*` any run of bytes, slashes included.
`**` between slashes, or next to one at an end of the pattern or of an alternative, stands for any
number of directories; elsewhere it is two stars. Braces enclose alternatives, brackets a class of
bytes, and a backslash takes the next character literally, though not inside a class.

Reading goes over the characters once. `Reading` holds the groups that are open, innermost first,
each with its finished alternatives, the one under way, and — because a double star depends on what
stands before it — the character read last.
-/

namespace TransformCache.Glob

/-- A piece of a pattern. -/
inductive Token where
  | literal (c : Char)
  | any
  | zeroOrMore
  /-- `**` at the start: nothing, or everything up to some slash. -/
  | directoriesBefore
  /-- `/**` at the end: a slash and everything after it. -/
  | everythingBelow
  /-- `/**` between segments: a slash, and directories with one each. -/
  | directoriesBetween
  | oneOf (negated : Bool) (ranges : List (Char × Char))
  | alternatives (options : List (List Token))
  deriving Inhabited, Repr

/-- Why a text is no pattern. -/
inductive PatternFault where
  | unclosedClass
  | invalidRange (low high : Char)
  | unopenedGroup
  | unclosedGroup
  | danglingEscape
  deriving DecidableEq, Repr

def PatternFault.text : PatternFault → String
  | .unclosedClass => "unclosed character class; missing ']'"
  | .invalidRange low high => "invalid range; '" ++ low.toString ++ "' > '" ++ high.toString ++ "'"
  | .unopenedGroup =>
    "unopened alternate group; missing '\x7b' (maybe escape '\x7d' with '[\x7d]'?)"
  | .unclosedGroup =>
    "unclosed alternate group; missing '\x7d' (maybe escape '\x7b' with '[\x7b]'?)"
  | .danglingEscape => "dangling '\\'"

-- ====================================================== classes

/-- What has been read of a class: its ranges, last first, and whether the last one waits for its
end after a hyphen. -/
structure ClassReading where
  ranges : List (Char × Char) := []
  open_ : Bool := false
  first : Bool := true
  deriving DecidableEq, Repr

/-- Ends the last range at `c`. -/
def ClassReading.extend (r : ClassReading) (c : Char) : Except PatternFault ClassReading :=
  match r.ranges with
  | [] => .ok { r with first := false }
  | (low, _) :: rest =>
    if c < low then .error (.invalidRange low c)
    else .ok { ranges := (low, c) :: rest, open_ := false, first := false }

/-- One character of a class other than the bracket that ends it. A hyphen first or last, and a
bracket first, stand for themselves. -/
def ClassReading.step (r : ClassReading) (c : Char) : Except PatternFault ClassReading :=
  if c = '-' ∧ ¬ r.first then
    if r.open_ then r.extend '-' else .ok { r with open_ := true }
  else if r.open_ then r.extend c
  else .ok { ranges := (c, c) :: r.ranges, open_ := false, first := false }

/-- The ranges of a class at its end. -/
def ClassReading.finish (r : ClassReading) : List (Char × Char) :=
  (if r.open_ then ('-', '-') :: r.ranges else r.ranges).reverse

-- ====================================================== reading

/-- An alternative under way, last token first, with those of its group that are finished, last
first. -/
structure Group where
  finished : List (List Token) := []
  tokens : List Token := []
  deriving Inhabited, Repr

/-- What has been read of a pattern: the groups, innermost first, the whole pattern being the last
of them, and the character read last. -/
structure Reading where
  inner : List Group := []
  whole : Group := {}
  last : Option Char := none
  deriving Inhabited, Repr

namespace Reading

def current (r : Reading) : Group := r.inner.head?.getD r.whole

def setCurrent (r : Reading) (g : Group) : Reading :=
  match r.inner with
  | [] => { r with whole := g }
  | _ :: outer => { r with inner := g :: outer }

/-- Adds a token to the alternative under way. -/
def push (r : Reading) (t : Token) : Reading :=
  r.setCurrent { r.current with tokens := t :: r.current.tokens }

/-- Notes the character read last. -/
def after (r : Reading) (c : Char) : Reading := { r with last := some c }

/-- True inside braces. -/
def grouped (r : Reading) : Bool := !r.inner.isEmpty

def openGroup (r : Reading) : Reading := { r with inner := {} :: r.inner }

/-- Ends the group under way and adds it to the alternative around it. -/
def closeGroup (r : Reading) : Except PatternFault Reading :=
  match r.inner with
  | [] => .error .unopenedGroup
  | g :: outer =>
    .ok ({ r with inner := outer }.push (.alternatives (g.tokens.reverse :: g.finished).reverse))

/-- A comma: a new alternative inside braces, itself elsewhere. -/
def comma (r : Reading) : Reading :=
  if r.grouped then
    r.setCurrent { finished := r.current.tokens.reverse :: r.current.finished, tokens := [] }
  else r.push (.literal ',')

/-- A double star with a slash or a group's boundary before it. It swallows the slash before it,
and repeats collapse. -/
def swallow (r : Reading) (t : Token) : Reading :=
  match r.current.tokens with
  | .directoriesBefore :: _ => r
  | .everythingBelow :: _ => r
  | _ :: rest => r.setCurrent { r.current with tokens := t :: rest }
  | [] => r.push t

end Reading

/-- What a double star is followed by. -/
inductive Next where
  | slash
  | boundary
  | other
  deriving DecidableEq, Repr

/-- What the remaining characters begin with. A comma or a brace is a boundary inside braces. -/
def Next.of (grouped : Bool) : List Char → Next
  | [] => .boundary
  | '/' :: _ => .slash
  | ',' :: _ => if grouped then .boundary else .other
  | '}' :: _ => if grouped then .boundary else .other
  | _ => .other

/-- A double star: the reading after it, and whether it takes the slash that follows. `before` is
the character before the first star. -/
def Reading.doubleStar (r : Reading) (before : Option Char) (rest : List Char) : Reading × Bool :=
  let twoStars := (r.push .zeroOrMore).push .zeroOrMore
  if r.current.tokens.isEmpty then
    match rest with
    | [] => (r.push .directoriesBefore, false)
    | '/' :: _ => (r.push .directoriesBefore, true)
    | _ => (twoStars, false)
  else if before ≠ some '/' ∧ ¬ (r.grouped ∧ (before = some ',' ∨ before = some '{')) then
    (twoStars, false)
  else
    match Next.of r.grouped rest with
    | .boundary => (r.swallow .everythingBelow, false)
    | .slash => (r.swallow .directoriesBetween, true)
    | .other => (twoStars, false)

/-- Where a reader stands between two characters. -/
inductive Mode where
  | plain
  | escape
  /-- Right after the bracket that opens a class. -/
  | classStart
  | inClass (negated : Bool) (reading : ClassReading)
  /-- At the second of two stars; `before` stands before the first. -/
  | secondStar (before : Option Char)
  /-- At a slash that belongs to the double star before it. -/
  | starSlash

/-- Reads on, one character at a time. -/
def read (mode : Mode) (r : Reading) : List Char → Except PatternFault (List Token)
  | [] =>
    match mode with
    | .escape => .error .danglingEscape
    | .classStart | .inClass .. => .error .unclosedClass
    | _ => if r.grouped then .error .unclosedGroup else .ok r.whole.tokens.reverse
  | c :: rest =>
    match mode with
    | .plain =>
      match c with
      | '?' => read .plain ((r.push .any).after c) rest
      | '*' =>
        if rest.head? = some '*' then read (.secondStar r.last) r rest
        else read .plain ((r.push .zeroOrMore).after c) rest
      | '[' => read .classStart r rest
      | '{' => read .plain (r.openGroup.after c) rest
      | '}' =>
        match r.closeGroup with
        | .ok r => read .plain (r.after c) rest
        | .error e => .error e
      | ',' => read .plain (r.comma.after c) rest
      | '\\' => read .escape r rest
      | c => read .plain ((r.push (.literal c)).after c) rest
    | .escape => read .plain ((r.push (.literal c)).after c) rest
    | .secondStar before =>
      let (r, takesSlash) := r.doubleStar before rest
      read (if takesSlash then .starSlash else .plain) (r.after c) rest
    | .starSlash => read .plain (r.after c) rest
    | .classStart =>
      if c = '!' ∨ c = '^' then read (.inClass true {}) r rest
      else
        match ClassReading.step {} c with
        | .ok cls => read (.inClass false cls) r rest
        | .error e => .error e
    | .inClass negated cls =>
      if c = ']' ∧ ¬ cls.first then
        read .plain ((r.push (.oneOf negated cls.finish)).after c) rest
      else
        match cls.step c with
        | .ok cls => read (.inClass negated cls) r rest
        | .error e => .error e

/-- A pattern: the text it was written as and its tokens. -/
structure Pattern where
  text : String
  tokens : List Token
  deriving Inhabited, Repr

def Pattern.parse (text : String) : Except PatternFault Pattern :=
  (fun tokens => ⟨text, tokens⟩) <$> read .plain {} text.toList

end TransformCache.Glob
