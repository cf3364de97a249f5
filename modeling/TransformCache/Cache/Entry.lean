/-
Stored results, and when they still hold.

An entry is generated code, a source map if there was one, and a stamp taken of the source file:
the time of its last change, or a checksum of its text. It holds while the stamp of the file is
the same; stamps of different kinds never are.

As JSON an entry is an object with `code`, `map` and one of `mtime` and `checksum`, in this order.
Reading takes the members in any order. The code and the map are read at once. The stamp is judged
at the closing brace: of several members that could be one, the first counts, and the others are
passed over like any member of another name.
-/
import TransformCache.Json.Parser

namespace TransformCache.Cache

-- ====================================================== types

/-- What was seen of a source file when its result was stored. -/
inductive Stamp where
  /-- The time of the last change, in milliseconds since the epoch. -/
  | mtime (milliseconds : Int)
  /-- The checksum of the text, in hexadecimal. -/
  | checksum (digest : String)
  deriving DecidableEq, Repr, Inhabited

/-- The result of a transform as it is stored. -/
structure Entry where
  code : String
  map : Option Json
  stamp : Stamp
  deriving Inhabited, Repr

/-- True while the file shows the stamp that the entry was stored with. -/
def Entry.holds (e : Entry) (current : Stamp) : Bool := e.stamp = current

-- ====================================================== writing

/-- A stamp as the member that carries it. -/
def Stamp.member : Stamp → String × Json
  | .mtime ms => ("mtime", .int ms)
  | .checksum digest => ("checksum", .string digest)

def Entry.toJson (e : Entry) : Json :=
  .object [("code", .string e.code), ("map", e.map.getD .null), e.stamp.member]

-- ====================================================== reading

/-- The members of an entry read so far. -/
structure EntryReading where
  code : Option String := none
  /-- Set once the member was seen, also if it was `null`. -/
  map : Option (Option Json) := none
  /-- The first member named like a stamp. -/
  stamp : Option (String × Json) := none

/-- Times lie from `-timeBound` on and below it; they have 64 bits. -/
def timeBound : Int := 0x8000000000000000

def Stamp.ofMember (name : String) (value : Json) : Except Json.Fault Stamp :=
  if name = "mtime" then
    match value with
    | .int n =>
      if -timeBound ≤ n ∧ n < timeBound then .ok (.mtime n)
      else .error (.wrongValue (.int n) "i64")
    | other => .error (.wrongType (.ofJson other) "i64")
  else
    match value with
    | .string digest => .ok (.checksum digest)
    | other => .error (.wrongType (.ofJson other) "a string")

/-- How the members of an entry are read; `depth` more containers may be open in each. -/
def entryMembers (depth : Nat) : Json.MemberRule EntryReading where
  refuse seen key :=
    if key = "code" ∧ seen.code.isSome then some (.duplicateField "code")
    else if key = "map" ∧ seen.map.isSome then some (.duplicateField "map")
    else none
  member seen key rest :=
    if key = "code" then
      Json.mapValue (fun code => { seen with code := some code }) (Json.stringOf "a string" rest)
    else if key = "map" then
      Json.mapValue (fun map => { seen with map := some map })
        (Json.optional (Json.value depth) rest)
    else
      Json.mapValue
        (fun value =>
          if (key = "mtime" ∨ key = "checksum") ∧ seen.stamp.isNone then
            { seen with stamp := some (key, value) }
          else seen)
        (Json.tree depth rest)

/-- The entry that the members make: the code is asked for before the stamp. -/
def EntryReading.finish (seen : EntryReading) : Except Json.Fault Entry :=
  match seen.code with
  | none => .error (.missingField "code")
  | some code =>
    match seen.stamp with
    | none => .error (.noVariant "ValidityStamp")
    | some (name, value) =>
      (fun stamp => ⟨code, seen.map.getD none, stamp⟩) <$> Stamp.ofMember name value

/-- Reads an entry where `depth` more containers may be open. -/
def readEntry (depth : Nat) : Json.Reader Entry :=
  Json.objectOf "struct CacheEntry" depth (entryMembers (depth - 1)) {} EntryReading.finish

def Entry.parse (text : Bytes) : Except Json.Error Entry :=
  Json.document (readEntry Json.depthLimit) text

-- ====================================================== the file of a store

/-- Entries by key, as the file of a store holds them. -/
def entriesJson (entries : Keyed Entry) : Json :=
  .object (entries.members.map fun m => (m.1, m.2.toJson))

def entriesFile (entries : Keyed Entry) : Bytes := Utf8.encode (entriesJson entries).pretty

/-- How the members of a store's file are read: a repeated key takes its last entry. -/
def entriesMembers : Json.MemberRule (Keyed Entry) where
  member entries key rest :=
    Json.mapValue (fun entry => entries.insert key entry) (readEntry (Json.depthLimit - 1) rest)

/-- The entries that a store's file holds. -/
def parseEntries (file : Bytes) : Except Json.Error (Keyed Entry) :=
  Json.document (Json.objectOf "a map" Json.depthLimit entriesMembers ∅ .ok) file

end TransformCache.Cache
