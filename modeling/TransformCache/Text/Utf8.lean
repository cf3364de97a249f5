/-
UTF-8, read one byte at a time.

`State` is where a reader stands: between characters, or inside one with some continuation bytes
still owed. `State.accept` moves it over one byte or refuses the byte, and the first byte it
refuses is the first that rules the text out: over-long forms, surrogates and values past the
last character are refused at their second byte.

Two readers run that machine: `decode` stops at the first fault and says where it is, and
`decodeLossy` puts one replacement character for every broken stretch.
-/

namespace TransformCache

/-- The contents of a file, or a text as it is stored. -/
abbrev Bytes := List UInt8

namespace Utf8

-- ====================================================== writing

def encode (text : String) : Bytes :=
  text.toList.flatMap String.utf8EncodeChar

-- ====================================================== the machine

/-- Where a reader stands between two bytes. -/
inductive State where
  /-- Between characters. -/
  | between
  /-- Inside one: `owed + 1` bytes are to come, the next of them from `low` to `high`, and the
  bits read so far are `value`. -/
  | inside (owed : Nat) (low high : UInt8) (value : Nat)
  deriving DecidableEq, Repr

/-- What one byte does to a reader. -/
inductive Step where
  | char (c : Char)
  | more (next : State)
  | refuse
  deriving DecidableEq, Repr

def first (b : UInt8) : Step :=
  if b < 0x80 then .char (Char.ofNat b.toNat)
  else if b < 0xC2 then .refuse
  else if b < 0xE0 then .more (.inside 0 0x80 0xBF (b.toNat - 0xC0))
  else if b = 0xE0 then .more (.inside 1 0xA0 0xBF 0)
  else if b = 0xED then .more (.inside 1 0x80 0x9F 0xD)
  else if b < 0xF0 then .more (.inside 1 0x80 0xBF (b.toNat - 0xE0))
  else if b = 0xF0 then .more (.inside 2 0x90 0xBF 0)
  else if b < 0xF4 then .more (.inside 2 0x80 0xBF (b.toNat - 0xF0))
  else if b = 0xF4 then .more (.inside 2 0x80 0x8F 4)
  else .refuse

def State.accept (state : State) (b : UInt8) : Step :=
  match state with
  | .between => first b
  | .inside owed low high value =>
    if low ≤ b ∧ b ≤ high then
      let value := value * 64 + (b.toNat - 0x80)
      match owed with
      | 0 => .char (Char.ofNat value)
      | owed + 1 => .more (.inside owed 0x80 0xBF value)
    else .refuse

-- ====================================================== strict reading

/-- Why bytes are no text; positions count from zero. -/
inductive Fault where
  /-- The `width` bytes from `start` begin no character. -/
  | invalid (start width : Nat)
  /-- The bytes end inside the character that begins at `start`. -/
  | incomplete (start : Nat)
  deriving DecidableEq, Repr

/-- Reads on from `state`; the character under way began at `start`, and `width` of its bytes
have been read. A refused first byte is itself the broken stretch. -/
def decodeFrom (state : State) (start width : Nat) : Bytes → Except Fault (List Char)
  | [] =>
    match state with
    | .between => .ok []
    | .inside .. => .error (.incomplete start)
  | b :: rest =>
    match state.accept b with
    | .char c => (c :: ·) <$> decodeFrom .between (start + width + 1) 0 rest
    | .more next => decodeFrom next start (width + 1) rest
    | .refuse => .error (.invalid start (max width 1))

/-- The text that the bytes hold, or the first fault in them. -/
def decode (bytes : Bytes) : Except Fault String :=
  String.ofList <$> decodeFrom .between 0 0 bytes

/-- The text that the bytes hold, if they hold one. -/
def decode? (bytes : Bytes) : Option String := (decode bytes).toOption

-- ====================================================== forgiving reading

/-- What stands for a stretch of bytes that is no character. -/
def replacement : Char := '\uFFFD'

/-- Reads on from `state`; a refused byte ends the broken stretch before it and starts anew. -/
def decodeLossyFrom (state : State) : Bytes → List Char
  | [] =>
    match state with
    | .between => []
    | .inside .. => [replacement]
  | b :: rest =>
    match state.accept b with
    | .char c => c :: decodeLossyFrom .between rest
    | .more next => decodeLossyFrom next rest
    | .refuse =>
      match state with
      | .between => replacement :: decodeLossyFrom .between rest
      | .inside .. =>
        replacement ::
          match first b with
          | .char c => c :: decodeLossyFrom .between rest
          | .more next => decodeLossyFrom next rest
          | .refuse => replacement :: decodeLossyFrom .between rest

/-- The bytes as text, whatever they are. -/
def decodeLossy (bytes : Bytes) : String := String.ofList (decodeLossyFrom .between bytes)

end Utf8

end TransformCache
