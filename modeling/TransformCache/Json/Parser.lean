/-
Reading JSON texts: whole values, and values of a wanted shape.

Containers nest at most `depthLimit` deep. A reader of values is therefore defined by recursion on
the levels still allowed, and takes a container apart with loops over its items or members that
get the reader of one level less.

An object whose first key is `rawKey` stands for another value: the value of that key is a string,
and what is meant is the value that the string is the text of. It has its own levels, and may stand
for others in turn. Values that are wanted at once are read so by `value`; those that are looked at
when the text is at its end are read as they are written (`tree`), and what they stand for is found
then (`settle`).

The shape of what is read is checked while it is read, so of two faults the one that comes first
in the text is reported. `objectOf` is the reader of every object with named members: a handler may
refuse a key as soon as it is read, reads the value of each member, and judges the whole at the
closing brace.
-/
import TransformCache.Json.Scalar

namespace TransformCache.Json

/-- How many containers may be open at once. -/
def depthLimit : Nat := 127

-- ====================================================== lists

/-- An item, and the items after it that `more` reads. -/
def oneItem {α : Type} (item : Reader α) (more : Reader (List α)) : Reader (List α) := fun rest =>
  andThen (item rest) fun x rest => mapValue (x :: ·) (more rest)

/-- The items of a list, from after its bracket or an item; `first` while none was read. Each
round reads a byte, so as many rounds as bytes are enough. -/
def items {α : Type} (item : Reader α) : Nat → Bool → Reader (List α)
  | 0, _, rest => fail .endInList rest
  | rounds + 1, first, rest =>
    let rest := skipBlanks rest
    match rest with
    | [] => fail .endInList []
    | b :: after =>
      if b = 0x5D then .ok ([], after)
      else if first then oneItem item (items item rounds false) rest
      else if b = 0x2C then
        let rest := skipBlanks after
        match rest with
        | [] => fail .endInValue []
        | b :: after =>
          if b = 0x5D then fail .trailingComma after
          else oneItem item (items item rounds false) rest
      else fail .expectedCommaOrBracket after

-- ====================================================== objects

/-- What becomes of the members of an object. -/
structure MemberRule (σ : Type) where
  /-- A fault to raise as soon as the key is read. -/
  refuse : σ → String → Option Fault := fun _ _ => none
  /-- Reads the value of a member. -/
  member : σ → String → Reader σ

/-- Where a fault of a whole object is placed: after the closing brace, if that is next. -/
def afterBrace (rest : Bytes) : Bytes :=
  match skipBlanks rest with
  | 0x7D :: after => after
  | rest => rest

/-- A member from its opening quote on: the key, the colon and the value. -/
def member {σ : Type} (m : MemberRule σ) (state : σ) (rest : Bytes) : Answer σ :=
  andThen (stringBody rest) fun key rest =>
    match m.refuse state key with
    | some fault => fail fault (afterBrace rest)
    | none =>
      match skipBlanks rest with
      | [] => fail .endInObject []
      | b :: rest => if b = 0x3A then m.member state key rest else fail .expectedColon rest

/-- The members of an object, from after its brace or a member; `first` while none was read. -/
def members {σ : Type} (m : MemberRule σ) : Nat → Bool → σ → Reader σ
  | 0, _, _, rest => fail .endInObject rest
  | rounds + 1, first, state, rest =>
    match skipBlanks rest with
    | [] => fail .endInObject []
    | b :: after =>
      if b = 0x7D then .ok (state, after)
      else if first then
        if b = 0x22 then andThen (member m state after) (members m rounds false)
        else fail .keyNotString after
      else if b = 0x2C then
        match skipBlanks after with
        | [] => fail .endInValue []
        | b :: after =>
          if b = 0x22 then andThen (member m state after) (members m rounds false)
          else if b = 0x7D then fail .trailingComma after
          else fail .keyNotString after
      else fail .expectedCommaOrBrace after

/-- Collects members in the order of the text, last first. -/
def collect {α : Type} (value : Reader α) : MemberRule (List (String × α)) where
  member state key rest := mapValue (fun x => (key, x) :: state) (value rest)

-- ====================================================== no containers

/-- A value that is no container and passes `pick`; `expected` names what is wanted. The bracket
of a container found instead is not counted. -/
def scalarOf {α : Type} (expected : String) (pick : Json → Option α) : Reader α := fun rest =>
  let rest := skipBlanks rest
  match rest with
  | 0x5B :: _ => fail (.wrongType .sequence expected) rest
  | 0x7B :: _ => fail (.wrongType .map expected) rest
  | _ =>
    andThen (scalar rest) fun x rest =>
      match pick x with
      | some a => .ok (a, rest)
      | none => fail (.wrongType (.ofJson x) expected) rest

def text? : Json → Option String
  | .string s => some s
  | _ => none

def bool? : Json → Option Bool
  | .bool b => some b
  | _ => none

/-- A string; `expected` names what is wanted of it. -/
def stringOf (expected : String) : Reader String := scalarOf expected text?

def boolean : Reader Bool := scalarOf "a boolean" bool?

-- ====================================================== whole texts

/-- The error that a failure is in a text: its place is after the bytes that were read, unless it
has one already. -/
def Failure.toError (text : Bytes) : Failure → Error
  | ⟨.within place fault, _⟩ => ⟨fault, place⟩
  | ⟨fault, rest⟩ => ⟨fault, .ofConsumed (text.take (text.length - rest.length))⟩

/-- Reads a whole text: nothing but blanks may follow what `read` takes. -/
def document {α : Type} (read : Reader α) (text : Bytes) : Except Error α :=
  let whole := andThen (read text) fun x rest =>
    match skipBlanks rest with
    | [] => .ok (x, [])
    | _ :: after => fail .trailingCharacters after
  match whole with
  | .ok (x, _) => .ok x
  | .error failure => .error (failure.toError text)

-- ====================================================== values

/-- A value as it is written, in which `depth` more containers may be open. The members of its
objects are kept in the order of the text, those of a repeated key too. -/
def tree : Nat → Reader Json
  | 0, rest =>
    match skipBlanks rest with
    | 0x5B :: after => fail .tooDeep after
    | 0x7B :: after => fail .tooDeep after
    | rest => scalar rest
  | depth + 1, rest =>
    match skipBlanks rest with
    | 0x5B :: after => mapValue .array (items (tree depth) (after.length + 1) true after)
    | 0x7B :: after =>
      mapValue (fun pairs => .object pairs.reverse)
        (members (collect (tree depth)) (after.length + 1) true [] after)
    | rest => scalar rest

/-- The key of a value that is given by its text. -/
def rawKey : String := "$serde_json::private::RawValue"

/-- True if the first key of an object, from after its brace, is that of a text. -/
def startsRaw (rest : Bytes) : Bool :=
  match skipBlanks rest with
  | 0x22 :: after =>
    match stringBody after with
    | .ok (key, _) => key = rawKey
    | .error _ => false
  | _ => false

/-- The one member of an object that stands for a text, and that text. -/
def rawMember : MemberRule String where
  member _ _ rest := stringOf "raw value" rest

/-- The closing brace of an object of one member. -/
def lastBrace : Reader Unit := fun rest =>
  match skipBlanks rest with
  | [] => fail .endInObject []
  | b :: after =>
    if b = 0x7D then .ok ((), after)
    else fail (if b = 0x2C then .trailingComma else .trailingCharacters) after

/-- The value that is written in a text, from after that text. A fault in the text comes before one
in the end of the object. -/
def heldBy (inner : String → Except Error Json) (text : String) : Reader Json := fun rest =>
  match inner text with
  | .error e => fail (.within e.place e.fault) rest
  | .ok x => mapValue (fun _ => x) (lastBrace rest)

/-- An object that stands for a value by its text, from after its brace. -/
def rawObject (inner : String → Except Error Json) (rest : Bytes) : Answer Json :=
  andThen (member rawMember "" (skipBlanks rest).tail) (heldBy inner)

/-- A value in which `depth` more containers may be open, and which is looked at as it is read. The
texts in it are read by `inner`. -/
def valueWith (inner : String → Except Error Json) : Nat → Reader Json
  | 0, rest =>
    match skipBlanks rest with
    | 0x5B :: after => fail .tooDeep after
    | 0x7B :: after => fail .tooDeep after
    | rest => scalar rest
  | depth + 1, rest =>
    match skipBlanks rest with
    | 0x5B :: after => mapValue .array (items (valueWith inner depth) (after.length + 1) true after)
    | 0x7B :: after =>
      if startsRaw after then rawObject inner after
      else
        mapValue (fun pairs => .object (Members.ofList pairs.reverse))
          (members (collect (valueWith inner depth)) (after.length + 1) true [] after)
    | rest => scalar rest

/-- Reads a whole text in which texts are held that hold others, to so many levels. -/
def parseWithin : Nat → String → Except Error Json
  | 0, _ => .error ⟨.endInValue, ⟨1, 0⟩⟩
  | levels + 1, text => document (valueWith (parseWithin levels) depthLimit) (Utf8.encode text)

/-- Reads a whole text. A text that is held by another one is shorter, so its length is a bound on
the levels. -/
def parse (text : String) : Except Error Json :=
  parseWithin ((Utf8.encode text).length + 1) text

/-- A value in which `depth` more containers may be open. -/
def value (depth : Nat) : Reader Json := valueWith parse depth

/-- The value that a text stands for, which is the first of `size` members. -/
def settleRaw (text : Json) (size : Nat) : Except Fault Json :=
  match text with
  | .string text =>
    match parse text with
    | .error e => .error (.within e.place e.fault)
    | .ok x => if size = 1 then .ok x else .error (.notAlone size)
  | other => .error (.wrongType (.ofJson other) "raw value")

/-- The text that members stand for, if they stand for one: the value under its key, if that is the
first. -/
def raw? : List (String × Json) → Option Json
  | (key, x) :: _ => if key = rawKey then some x else none
  | [] => none

mutual

/-- The value that is meant by one that was read as it is written. -/
def settle : Json → Except Fault Json
  | .array xs => .array <$> settleItems xs
  | .object ms =>
    match raw? ms with
    | some text => settleRaw text ms.length
    | none => (fun ms => .object (Members.ofList ms)) <$> settleMembers ms
  | x => .ok x

def settleItems : List Json → Except Fault (List Json)
  | [] => .ok []
  | x :: xs =>
    match settle x with
    | .error fault => .error fault
    | .ok y => (y :: ·) <$> settleItems xs

def settleMembers : List (String × Json) → Except Fault (List (String × Json))
  | [] => .ok []
  | (key, x) :: rest =>
    match settle x with
    | .error fault => .error fault
    | .ok y => ((key, y) :: ·) <$> settleMembers rest

end

-- ====================================================== wanted shapes

/-- A value, or `null` for none. -/
def optional {α : Type} (read : Reader α) : Reader (Option α) := fun rest =>
  match skipBlanks rest with
  | 0x6E :: after => word none [0x75, 0x6C, 0x6C] after
  | rest => mapValue some (read rest)

/-- A list of values, `depth` more containers being allowed. -/
def listOf {α : Type} (depth : Nat) (item : Reader α) : Reader (List α) := fun rest =>
  let rest := skipBlanks rest
  match rest with
  | 0x5B :: after =>
    if depth = 0 then fail .tooDeep after else items item (after.length + 1) true after
  | 0x7B :: _ => fail (.wrongType .map "a sequence") rest
  | _ => scalarOf "a sequence" (fun _ => none) rest

/-- An object, `depth` more containers being allowed: its members go through `m` from `start` on,
and `finish` judges what became of them. -/
def objectOf {σ α : Type} (expected : String) (depth : Nat) (m : MemberRule σ) (start : σ)
    (finish : σ → Except Fault α) : Reader α := fun rest =>
  let rest := skipBlanks rest
  match rest with
  | 0x7B :: after =>
    if depth = 0 then fail .tooDeep after
    else
      andThen (members m (after.length + 1) true start after) fun state rest =>
        match finish state with
        | .ok x => .ok (x, rest)
        | .error fault => fail fault rest
  | 0x5B :: _ => fail (.wrongType .sequence expected) rest
  | _ => scalarOf expected (fun _ => none) rest

end TransformCache.Json
