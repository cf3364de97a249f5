/-
Reading the parts of a JSON text that hold no other values: blanks, words, strings and numbers.

A reader takes the bytes that are left and answers a value with the bytes left after it, or a
failure with the bytes left after the one that decided it; the place of the failure is computed
from these at the very end. Faults found by looking at the next byte count that byte too
(`failNext`), whether or not it belongs to what was read.

Strings are read by a machine that goes over the bytes one at a time (`StringState`), so that an
escape cut short is seen where the text ends and not before.
-/
import TransformCache.Json.Fault

namespace TransformCache.Json

-- ====================================================== readers

/-- A fault, with the bytes that follow its place. -/
structure Failure where
  fault : Fault
  rest : Bytes
  deriving DecidableEq, Repr

/-- What a reader of an `α` answers: a value and the bytes left, or a failure. -/
abbrev Answer (α : Type) := Except Failure (α × Bytes)

/-- Reads an `α` from the bytes that are left. -/
abbrev Reader (α : Type) := Bytes → Answer α

def fail {α : Type} (fault : Fault) (rest : Bytes) : Except Failure α := .error ⟨fault, rest⟩

/-- A fault at the next byte, if there is one. -/
def failNext {α : Type} (fault : Fault) (rest : Bytes) : Except Failure α :=
  .error ⟨fault, rest.tail⟩

/-- Goes on with the value read and the bytes left. -/
def andThen {α β : Type} (answer : Answer α) (next : α → Bytes → Answer β) : Answer β :=
  match answer with
  | .ok (x, rest) => next x rest
  | .error failure => .error failure

/-- Turns the value read into another. -/
def mapValue {α β : Type} (f : α → β) (answer : Answer α) : Answer β :=
  andThen answer fun x rest => .ok (f x, rest)

-- ====================================================== blanks and words

/-- Blank, tab, line feed and carriage return. -/
def isBlank (b : UInt8) : Bool := b = 0x20 || b = 0x09 || b = 0x0A || b = 0x0D

def skipBlanks (rest : Bytes) : Bytes := rest.dropWhile isBlank

/-- Goes over the given bytes, which spell the rest of `value`. -/
def word {α : Type} (value : α) : Bytes → Reader α
  | [], rest => .ok (value, rest)
  | _ :: _, [] => fail .endInValue []
  | e :: expected, b :: rest =>
    if b = e then word value expected rest else fail .expectedWord rest

-- ====================================================== strings

/-- Where a reader stands inside a string. A `high` is the first half of a character written as
two escapes. -/
inductive StringState where
  | plain
  | escape
  /-- `left + 1` digits of an escape are to come; `value` is lost once one was no digit. -/
  | hex (high : Option Nat) (left : Nat) (value : Option Nat)
  | afterHigh (high : Nat)
  | afterHighBackslash (high : Nat)
  deriving DecidableEq, Repr

def hexValue? (b : UInt8) : Option Nat :=
  if 0x30 ≤ b ∧ b ≤ 0x39 then some (b.toNat - 0x30)
  else if 0x61 ≤ b ∧ b ≤ 0x66 then some (b.toNat - 0x61 + 10)
  else if 0x41 ≤ b ∧ b ≤ 0x46 then some (b.toNat - 0x41 + 10)
  else none

/-- What an escape of one letter stands for. -/
def escapeValue? (b : UInt8) : Option UInt8 :=
  match b with
  | 0x22 => some 0x22
  | 0x5C => some 0x5C
  | 0x2F => some 0x2F
  | 0x62 => some 0x08
  | 0x66 => some 0x0C
  | 0x6E => some 0x0A
  | 0x72 => some 0x0D
  | 0x74 => some 0x09
  | _ => none

/-- What the four digits of an escape mean: a character, or the first half of one. -/
def codeUnit (high : Option Nat) (unit : Nat) : Except Fault (Char ⊕ Nat) :=
  match high with
  | none =>
    if 0xDC00 ≤ unit ∧ unit ≤ 0xDFFF then .error .loneSurrogate
    else if 0xD800 ≤ unit ∧ unit ≤ 0xDBFF then .ok (.inr unit)
    else .ok (.inl (Char.ofNat unit))
  | some high =>
    if 0xDC00 ≤ unit ∧ unit ≤ 0xDFFF then
      .ok (.inl (Char.ofNat ((high - 0xD800) * 0x400 + (unit - 0xDC00) + 0x10000)))
    else .error .loneSurrogate

/-- The bytes of a string, escapes resolved, up to its closing quote. -/
def stringBytes (state : StringState) : Reader Bytes
  | [] => fail .endInString []
  | b :: rest =>
    match state with
    | .plain =>
      if b = 0x22 then .ok ([], rest)
      else if b = 0x5C then stringBytes .escape rest
      else if b < 0x20 then fail .controlCharacter rest
      else mapValue (b :: ·) (stringBytes .plain rest)
    | .escape =>
      if b = 0x75 then stringBytes (.hex none 3 (some 0)) rest
      else
        match escapeValue? b with
        | none => fail .invalidEscape rest
        | some value => mapValue (value :: ·) (stringBytes .plain rest)
    | .hex high left value =>
      let value := do return (← value) * 16 + (← hexValue? b)
      match left with
      | left + 1 => stringBytes (.hex high left value) rest
      | 0 =>
        match value with
        | none => fail .invalidEscape rest
        | some unit =>
          match codeUnit high unit with
          | .error fault => fail fault rest
          | .ok (.inr high) => stringBytes (.afterHigh high) rest
          | .ok (.inl c) => mapValue (String.utf8EncodeChar c ++ ·) (stringBytes .plain rest)
    | .afterHigh high =>
      if b = 0x5C then stringBytes (.afterHighBackslash high) rest
      else fail .hexEscapeCutShort rest
    | .afterHighBackslash high =>
      if b = 0x75 then stringBytes (.hex (some high) 3 (some 0)) rest
      else fail .hexEscapeCutShort rest

/-- What follows the first byte that keeps bytes from being text. Escapes are text as they are
written, so this finds the byte in a string that has not been unescaped. -/
def afterBroken (bytes : Bytes) : Bytes :=
  match Utf8.decode bytes with
  | .ok _ => []
  | .error (.invalid start _) => bytes.drop (start + 1)
  | .error (.incomplete start) => bytes.drop (start + 1)

/-- A string, from after its opening quote. -/
def stringBody : Reader String := fun source =>
  andThen (stringBytes .plain source) fun bytes rest =>
    match Utf8.decode? bytes with
    | some text => .ok (text, rest)
    | none => fail .invalidCodePoint (afterBroken source)

-- ====================================================== numbers

def isDigit (b : UInt8) : Bool := 0x30 ≤ b && b ≤ 0x39

/-- The largest number that digits are gathered to: it has 64 bits. -/
def gatherLimit : Nat := 0xFFFFFFFFFFFFFFFF

/-- The number that a run of digits writes, going on from `value`, up to the first digit that would
take it past the limit; and how many digits are left out from there. -/
def gather (value : Nat) : Bytes → Nat × Nat
  | [] => (value, 0)
  | b :: rest =>
    let next := 10 * value + (b.toNat - 0x30)
    if next ≤ gatherLimit then gather next rest else (value, rest.length + 1)

/-- A whole number, kept as such within the range of 64 bits. A negative zero is none. -/
def wholeNumber (negative : Bool) (size : Nat) : Option Int :=
  if negative then
    if 0 < size ∧ size ≤ 0x8000000000000000 then some (-(size : Int)) else none
  else if size ≤ gatherLimit then some size
  else none

/-- The double-precision number that is made of a decimal, unless it is out of range. -/
def decimal (negative : Bool) (digits : Nat) (exponent : Int) (rest : Bytes) : Answer Json :=
  match Binary64.ofParts negative digits exponent with
  | some x => .ok (.float x, rest)
  | none => fail .numberOutOfRange rest

/-- The largest exponent that is read; past it the answer no longer depends on it. -/
def exponentLimit : Nat := 0x7FFFFFFF

/-- Digits of an exponent up to the first that takes it past the limit: the exponent and whether
it went past, with the bytes left. -/
def exponentDigits (value : Nat) : Bytes → (Nat × Bool) × Bytes
  | [] => ((value, false), [])
  | b :: rest =>
    if isDigit b then
      let next := 10 * value + (b.toNat - 0x30)
      if exponentLimit < next then ((value, true), rest) else exponentDigits next rest
    else ((value, false), b :: rest)

/-- From after the `e` of a number: the sign of the exponent and its digits, which the exponent
`shift` of the digits before it is added to. -/
def exponentPart (negative : Bool) (digits : Nat) (shift : Int) (rest : Bytes) : Answer Json :=
  let down := rest.head? = some 0x2D
  let rest := if down || rest.head? = some 0x2B then rest.tail else rest
  match rest with
  | [] => fail .endInValue []
  | b :: after =>
    if isDigit b then
      match exponentDigits 0 rest with
      | ((_, true), rest) =>
        if digits ≠ 0 && !down then fail .numberOutOfRange rest
        else .ok (.float (Binary64.zero negative), rest.dropWhile isDigit)
      | ((value, false), rest) =>
        decimal negative digits (shift + (if down then -(value : Int) else value)) rest
    else fail .invalidNumber after

/-- From after the digits before a point: an exponent, or the end of the number. -/
def afterFraction (negative : Bool) (digits : Nat) (shift : Int) (rest : Bytes) : Answer Json :=
  match rest with
  | b :: after =>
    if b = 0x65 ∨ b = 0x45 then exponentPart negative digits shift after
    else decimal negative digits shift rest
  | [] => decimal negative digits shift []

/-- From after the whole part of a number, of which `left` digits were left out. -/
def afterWhole (negative : Bool) (whole left : Nat) (rest : Bytes) : Answer Json :=
  match rest with
  | b :: after =>
    if b = 0x2E then
      let fraction := after.takeWhile isDigit
      if fraction = [] then
        failNext (if after = [] then .endInValue else .invalidNumber) after
      else
        let (digits, dropped) := gather whole fraction
        afterFraction negative digits (left - (fraction.length - dropped : Nat))
          (after.dropWhile isDigit)
    else if b = 0x65 ∨ b = 0x45 then exponentPart negative whole left after
    else ofWhole rest
  | [] => ofWhole []
where
  ofWhole (rest : Bytes) : Answer Json :=
    match if left = 0 then wholeNumber negative whole else none with
    | some n => .ok (.int n, rest)
    | none => decimal negative whole left rest

/-- A number, from after its sign. A leading zero stands alone. -/
def numberBody (negative : Bool) : Reader Json
  | [] => fail .endInValue []
  | b :: rest =>
    if isDigit b then
      if b = 0x30 then
        if (rest.head?.map isDigit).getD false then failNext .invalidNumber rest
        else afterWhole negative 0 0 rest
      else
        let (whole, left) := gather 0 (b :: rest.takeWhile isDigit)
        afterWhole negative whole left (rest.dropWhile isDigit)
    else fail .invalidNumber rest

-- ====================================================== scalars

/-- A value that is no container; blanks before it have been left out. -/
def scalar : Reader Json
  | [] => fail .endInValue []
  | b :: rest =>
    match b with
    | 0x6E => word .null [0x75, 0x6C, 0x6C] rest
    | 0x74 => word (.bool true) [0x72, 0x75, 0x65] rest
    | 0x66 => word (.bool false) [0x61, 0x6C, 0x73, 0x65] rest
    | 0x22 => mapValue .string (stringBody rest)
    | 0x2D => numberBody true rest
    | _ => if isDigit b then numberBody false (b :: rest) else fail .expectedValue rest

end TransformCache.Json
