/-
What can be wrong with a JSON text, and where.

A fault is either in the syntax or in the shape: a value of another type than the reader asked
for, a member missing or given twice. Its place is the last byte that was looked at, as a line
and a column that counts bytes; the column is zero right after a line break. A text can hold another
one as a string, and a fault in that has its place there.
-/
import TransformCache.Json.Printer
import TransformCache.Text.Quoted
import TransformCache.Text.Utf8

namespace TransformCache.Json

/-- A value as a shape fault names it: containers by their kind alone. -/
inductive Found where
  | null
  | bool (value : Bool)
  | int (value : Int)
  | float (value : Binary64)
  | string (value : String)
  | sequence
  | map
  deriving DecidableEq, Repr

/-- How a shape fault names a value. -/
def Found.ofJson : Json → Found
  | .null => .null
  | .bool b => .bool b
  | .int n => .int n
  | .float x => .float x
  | .string s => .string s
  | .array _ => .sequence
  | .object _ => .map

/-- The words for a value in a shape fault. -/
def Found.text : Found → String
  | .null => "null"
  | .bool true => "boolean `true`"
  | .bool false => "boolean `false`"
  | .int n => "integer `" ++ String.ofList (intChars n) ++ "`"
  | .float x => "floating point `" ++ floatText x ++ "`"
  | .string s => "string " ++ Text.quoted s
  | .sequence => "sequence"
  | .map => "map"

/-- A place in a text. -/
structure Place where
  line : Nat
  column : Nat
  deriving DecidableEq, Repr

/-- The place after the bytes `consumed`: lines count from one, and the column is the number of
bytes since the last line break. -/
def Place.ofConsumed (consumed : Bytes) : Place where
  line := consumed.count 10 + 1
  column := (consumed.reverse.takeWhile (· ≠ 10)).length

/-- What is wrong with a text. -/
inductive Fault where
  | endInList
  | endInObject
  | endInString
  | endInValue
  | expectedColon
  | expectedCommaOrBracket
  | expectedCommaOrBrace
  | expectedWord
  | expectedValue
  | invalidEscape
  | invalidNumber
  | numberOutOfRange
  | invalidCodePoint
  | controlCharacter
  | keyNotString
  | loneSurrogate
  | hexEscapeCutShort
  | trailingComma
  | trailingCharacters
  | tooDeep
  | wrongType (found : Found) (expected : String)
  | wrongValue (found : Found) (expected : String)
  | missingField (name : String)
  | duplicateField (name : String)
  | noVariant (type : String)
  /-- An object of `found` members, of which only the first was wanted. -/
  | notAlone (found : Nat)
  /-- A fault in a text that is held as a string, at its place there. -/
  | within (place : Place) (fault : Fault)
  deriving DecidableEq, Repr

def Fault.text : Fault → String
  | .endInList => "EOF while parsing a list"
  | .endInObject => "EOF while parsing an object"
  | .endInString => "EOF while parsing a string"
  | .endInValue => "EOF while parsing a value"
  | .expectedColon => "expected `:`"
  | .expectedCommaOrBracket => "expected `,` or `]`"
  | .expectedCommaOrBrace => "expected `,` or `\x7d`"
  | .expectedWord => "expected ident"
  | .expectedValue => "expected value"
  | .invalidEscape => "invalid escape"
  | .invalidNumber => "invalid number"
  | .numberOutOfRange => "number out of range"
  | .invalidCodePoint => "invalid unicode code point"
  | .controlCharacter => "control character (\\u0000-\\u001F) found while parsing a string"
  | .keyNotString => "key must be a string"
  | .loneSurrogate => "lone leading surrogate in hex escape"
  | .hexEscapeCutShort => "unexpected end of hex escape"
  | .trailingComma => "trailing comma"
  | .trailingCharacters => "trailing characters"
  | .tooDeep => "recursion limit exceeded"
  | .wrongType found expected => "invalid type: " ++ found.text ++ ", expected " ++ expected
  | .wrongValue found expected => "invalid value: " ++ found.text ++ ", expected " ++ expected
  | .missingField name => "missing field `" ++ name ++ "`"
  | .duplicateField name => "duplicate field `" ++ name ++ "`"
  | .noVariant type => "no variant of enum " ++ type ++ " found in flattened data"
  | .notAlone found => "invalid length " ++ toString found ++ ", expected 1 element in map"
  | .within _ fault => fault.text

/-- A fault and the place where it was found. -/
structure Error where
  fault : Fault
  place : Place
  deriving DecidableEq, Repr

/-- The words for an error, its place included. -/
def Error.text (e : Error) : String :=
  e.fault.text ++ " at line " ++ toString e.place.line ++ " column " ++ toString e.place.column

end TransformCache.Json
