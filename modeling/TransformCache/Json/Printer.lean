/-
The two texts of a JSON value: `compact`, without a blank, and `pretty`, with two blanks of
indentation a level, one member or item a line, and no line break at the end.

Quotes, backslashes and the characters below the blank are escaped, and nothing else is. A
double-precision number is written with the fewest digits that read back, in plain notation while
its leading digit stands between the fifth decimal place and the sixteenth place before the
point, and always with a mark that tells it from a whole number.
-/
import TransformCache.Json.Value

namespace TransformCache.Json

-- ====================================================== numbers

def natChars (n : Nat) : List Char := Nat.toDigits 10 n

def intChars : Int → List Char
  | .ofNat n => natChars n
  | .negSucc n => '-' :: natChars (n + 1)

/-- A positive decimal whose leading digit has the weight `10 ^ lead`: plain where the point falls
among or near the digits, with an exponent elsewhere. -/
def decimalChars (digits : List Char) (lead : Int) : List Char :=
  if 0 ≤ lead ∧ lead ≤ 15 then
    let whole := lead.toNat + 1
    if digits.length ≤ whole then
      digits ++ List.replicate (whole - digits.length) '0' ++ ['.', '0']
    else digits.take whole ++ '.' :: digits.drop whole
  else if -5 ≤ lead ∧ lead < 0 then
    ['0', '.'] ++ List.replicate ((-lead).toNat - 1) '0' ++ digits
  else
    let fraction := if digits.length ≤ 1 then [] else '.' :: digits.drop 1
    let sign := if lead < 0 then '-' else '+'
    digits.take 1 ++ fraction ++ ['e', sign] ++ natChars lead.natAbs

def floatChars (x : Binary64) : List Char :=
  let d := x.shortest
  let size :=
    if d.digits = 0 then ['0', '.', '0']
    else
      let digits := natChars d.digits
      decimalChars digits (d.exponent + (digits.length - 1 : Nat))
  if x.isNegative then '-' :: size else size

def floatText (x : Binary64) : String := String.ofList (floatChars x)

-- ====================================================== strings

def hexChar (n : Nat) : Char := (Nat.digitChar n)

def escapeChar (c : Char) : List Char :=
  if c = '"' then ['\\', '"']
  else if c = '\\' then ['\\', '\\']
  else if c = '\x08' then ['\\', 'b']
  else if c = '\x0c' then ['\\', 'f']
  else if c = '\n' then ['\\', 'n']
  else if c = '\r' then ['\\', 'r']
  else if c = '\t' then ['\\', 't']
  else if c.toNat < 0x20 then
    ['\\', 'u', '0', '0', hexChar (c.toNat / 16), hexChar (c.toNat % 16)]
  else [c]

def stringChars (text : String) : List Char :=
  '"' :: (text.toList.flatMap escapeChar ++ ['"'])

-- ====================================================== compact text

mutual

def compactChars : Json → List Char
  | .null => "null".toList
  | .bool true => "true".toList
  | .bool false => "false".toList
  | .int n => intChars n
  | .float x => floatChars x
  | .string s => stringChars s
  | .array items => '[' :: (compactItems items ++ [']'])
  | .object members => '{' :: (compactMembers members ++ ['}'])

def compactItems : List Json → List Char
  | [] => []
  | [item] => compactChars item
  | item :: rest => compactChars item ++ ',' :: compactItems rest

def compactMembers : List (String × Json) → List Char
  | [] => []
  | [(key, value)] => stringChars key ++ ':' :: compactChars value
  | (key, value) :: rest =>
    stringChars key ++ ':' :: (compactChars value ++ ',' :: compactMembers rest)

end

def compact (value : Json) : String := String.ofList (compactChars value)

-- ====================================================== pretty text

/-- A line break and the indentation of `level`. -/
def newline (level : Nat) : List Char := '\n' :: List.replicate (2 * level) ' '

mutual

/-- A value that begins on a line of indentation `level`. -/
def prettyChars (level : Nat) : Json → List Char
  | .null => "null".toList
  | .bool true => "true".toList
  | .bool false => "false".toList
  | .int n => intChars n
  | .float x => floatChars x
  | .string s => stringChars s
  | .array [] => ['[', ']']
  | .array (item :: rest) =>
    '[' :: (prettyItems (level + 1) (item :: rest) ++ newline level ++ [']'])
  | .object [] => ['{', '}']
  | .object (member :: rest) =>
    '{' :: (prettyMembers (level + 1) (member :: rest) ++ newline level ++ ['}'])

def prettyItems (level : Nat) : List Json → List Char
  | [] => []
  | [item] => newline level ++ prettyChars level item
  | item :: rest => newline level ++ prettyChars level item ++ ',' :: prettyItems level rest

def prettyMembers (level : Nat) : List (String × Json) → List Char
  | [] => []
  | [(key, value)] =>
    newline level ++ stringChars key ++ ':' :: ' ' :: prettyChars level value
  | (key, value) :: rest =>
    newline level ++ stringChars key ++
      ':' :: ' ' :: (prettyChars level value ++ ',' :: prettyMembers level rest)

end

/-- A value with a line for every item and member. -/
def pretty (value : Json) : String := String.ofList (prettyChars 0 value)

end TransformCache.Json
