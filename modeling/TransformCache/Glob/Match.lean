/-
Which paths a pattern matches.

Matching is on bytes and from end to end. A token goes from a text to the texts that can be left
after it (`Token.rests`); a pattern matches if nothing is one of the texts left in the end. The
texts are ends of one path, so those of the same length are the same and are kept once.

Patterns of some forms are decided by the last segment of a path alone, which tells them from
their tokens at one point: a last segment that is a step upwards is no name, and has no extension.
-/
import TransformCache.FilePath.Basic
import TransformCache.Glob.Pattern
import TransformCache.Text.Utf8

namespace TransformCache.Glob

-- ====================================================== one token

/-- One of each length. -/
def distinct (texts : List Bytes) : List Bytes :=
  texts.foldr (fun t kept => if kept.any (·.length = t.length) then kept else t :: kept) []

/-- Every end of a text, itself first. -/
def ends : Bytes → List Bytes
  | [] => [[]]
  | b :: rest => (b :: rest) :: ends rest

/-- What follows each slash of a text. -/
def afterSlashes : Bytes → List Bytes
  | [] => []
  | b :: rest => if b = 0x2F then rest :: afterSlashes rest else afterSlashes rest

/-- The bytes that a range of characters stands for: from the last byte of its first character to
the first byte of its last, and the other bytes of both. -/
def rangeHolds (range : Char × Char) (b : UInt8) : Bool :=
  let low := String.utf8EncodeChar range.1
  let high := String.utf8EncodeChar range.2
  if range.1 = range.2 then low.contains b
  else
    low.dropLast.contains b || high.tail.contains b ||
      (low.getLast?.any (· ≤ b) && high.head?.any (b ≤ ·))

mutual

/-- True for tokens that write nothing at all: groups whose alternatives are all empty. -/
def Token.isVoid : Token → Bool
  | .alternatives options => allVoid options
  | _ => false

/-- True if every token writes nothing. -/
def isVoid : List Token → Bool
  | [] => true
  | t :: rest => t.isVoid && isVoid rest

/-- True if every alternative writes nothing. -/
def allVoid : List (List Token) → Bool
  | [] => true
  | option :: rest => isVoid option && allVoid rest

end

mutual

/-- What can be left of a text after a token. -/
def Token.rests : Token → Bytes → List Bytes
  | .literal c, text =>
    let bytes := String.utf8EncodeChar c
    if bytes.isPrefixOf text then [text.drop bytes.length] else []
  | .any, text => match text with
    | [] => []
    | _ :: rest => [rest]
  | .zeroOrMore, text => ends text
  | .directoriesBefore, text => text :: afterSlashes text
  | .everythingBelow, text => match text with
    | 0x2F :: rest => ends rest
    | _ => []
  | .directoriesBetween, text => match text with
    | 0x2F :: rest => rest :: afterSlashes rest
    | _ => []
  | .oneOf negated ranges, text => match text with
    | [] => []
    | b :: rest => if ranges.any (rangeHolds · b) ≠ negated then [rest] else []
  | .alternatives options, text =>
    if allVoid options then [text] else optionRests options text

/-- What can be left of any of the texts after all tokens. -/
def rests : List Token → List Bytes → List Bytes
  | [], texts => texts
  | t :: tokens, texts => rests tokens (distinct (texts.flatMap t.rests))

/-- What can be left of a text after one of the alternatives; an empty alternative is none. -/
def optionRests : List (List Token) → Bytes → List Bytes
  | [], _ => []
  | option :: options, text =>
    (if isVoid option then [] else rests option [text]) ++ optionRests options text

end

-- ====================================================== whole patterns

/-- True if the tokens match a whole text. A pattern that is a double star alone matches
everything. -/
def matchesText (tokens : List Token) (text : Bytes) : Bool :=
  match tokens with
  | [.directoriesBefore] => true
  | _ => (rests tokens [text]).any (·.isEmpty)

/-- The bytes of the tokens if all of them are literal. -/
def literalBytes? : List Token → Option Bytes
  | [] => some []
  | .literal c :: rest => (String.utf8EncodeChar c ++ ·) <$> literalBytes? rest
  | _ => none

/-- The last segment of a path, nothing if it is a step upwards. -/
def lastSegment (path : Bytes) : Bytes :=
  let segment := (path.reverse.takeWhile (· ≠ 0x2F)).reverse
  if segment = [0x2E, 0x2E] then [] else segment

/-- The last segment of a path from its last point on, nothing if it has none. -/
def lastExtension (path : Bytes) : Bytes :=
  let segment := lastSegment path
  if segment.contains 0x2E then
    0x2E :: (segment.reverse.takeWhile (· ≠ 0x2E)).reverse
  else []

/-- The tokens after a double star at the start. -/
def afterStart : List Token → List Token
  | .directoriesBefore :: rest => rest
  | tokens => tokens

/-- A literal last segment after a double star. -/
def baseName? : List Token → Option Bytes
  | .directoriesBefore :: rest =>
    match literalBytes? rest with
    | some name => if name = [] ∨ name.contains 0x2F then none else some name
    | none => none
  | _ => none

/-- The extension, its point included, of a pattern that asks for nothing else. -/
def bareExtension? (tokens : List Token) : Option Bytes :=
  match afterStart tokens with
  | .zeroOrMore :: .literal '.' :: rest =>
    match literalBytes? rest with
    | some ext => if ext.contains 0x2E || ext.contains 0x2F then none else some (0x2E :: ext)
    | none => none
  | _ => none

/-- The literal tokens at the end of a pattern up to a point, last first, if no slash is among
them. -/
def closingExtension? : List Token → Option Bytes
  | .literal c :: before =>
    if c = '/' then none
    else if c = '.' then some [0x2E]
    else (· ++ String.utf8EncodeChar c) <$> closingExtension? before
  | _ => none

/-- True if the pattern matches a path. -/
def Pattern.isMatch (p : Pattern) (path : Bytes) : Bool :=
  match baseName? p.tokens with
  | some name => lastSegment path = name
  | none =>
    match literalBytes? p.tokens, bareExtension? p.tokens with
    | some bytes, _ => path = bytes
    | none, some ext => lastExtension path = ext
    | none, none =>
      matchesText p.tokens path &&
        match closingExtension? p.tokens.reverse with
        | some ext => lastExtension path = ext || endsPlainly p.tokens
        | none => true
where
  /-- True for a pattern whose end alone decides: literal tokens after at most a double star and a
  star. -/
  endsPlainly (tokens : List Token) : Bool :=
    match afterStart tokens with
    | .zeroOrMore :: rest => (literalBytes? rest).isSome
    | rest => (literalBytes? rest).isSome

/-- True if one of the patterns matches a path. -/
def anyMatch (patterns : List Pattern) (path : FilePath) : Bool :=
  let bytes := Utf8.encode path.text
  patterns.any (·.isMatch bytes)

end TransformCache.Glob
