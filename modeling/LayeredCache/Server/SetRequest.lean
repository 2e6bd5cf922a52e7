import LayeredCache.Json.Printer
import LayeredCache.Json.Skip
import LayeredCache.Text.Quoted

/-!
# Requests to store a value

A request to store is an object with the fields "key" and "value", in any order and among others, or an
array of the two.
-/

namespace LayeredCache

open Text (Piece)
open Json

structure SetRequest where
  key : String
  value : Json

namespace SetRequest

/-- The greatest number of octets of a key. -/
def maxKeyLength : Nat := 256

/-- Why a key cannot be used. -/
def invalid? (r : SetRequest) : Option String :=
  if r.key = "" then some "Key cannot be empty"
  else if maxKeyLength < r.key.utf8ByteSize then
    some s!"Key exceeds maximum length of {maxKeyLength} characters"
  else none

/-- How a value of the wrong type is named. -/
def describe : Json → String
  | .null => "null"
  | .bool b => s!"boolean `{b}`"
  | .integer n => s!"integer `{n}`"
  | .float x => s!"floating point `{(Json.float x).print}`"
  | .string s => s!"string {Text.quoted s}"
  | .array _ => "sequence"
  | .object _ => "map"

/-- Something else stands where `expected` should. Only a value that is no array and no object is read
before that is said. -/
def unexpected {α : Type} (expected : String) : Reader α := fun ps =>
  let wrong (found : String) (rest : List Piece) : Except Fault (α × List Piece) :=
    .error (.after (.wrongData s!"invalid type: {found}, expected {expected}") rest)
  match skipBlanks ps with
  | .char '[' :: rest => wrong (describe (.array [])) (.char '[' :: rest)
  | .char '\x7b' :: rest => wrong (describe (.object [])) (.char '\x7b' :: rest)
  | ps =>
    match readValue (fuelFor ps) 0 ps with
    | .ok (v, rest) => wrong (describe v) rest
    | .error fault => .error fault

def readString : Reader String := fun ps =>
  match skipBlanks ps with
  | [] => .error (.after .endInValue [])
  | .char '"' :: rest => readText rest
  | rest => unexpected "a string" rest

/-- The depth that is left for a value inside a request. -/
def valueDepth : Nat := depthLimit - 1

def readStored : Reader Json := fun ps =>
  readValue (fuelFor ps) valueDepth ps

/-- The text after the end of an array. -/
def endArray (ps : List Piece) : Except Fault (List Piece) :=
  match skipBlanks ps with
  | [] => .error (.after .endInList [])
  | .char ']' :: rest => .ok rest
  | .char ',' :: rest =>
    match skipBlanks rest with
    | .char ']' :: rest => .error (.next .trailingComma (.char ']' :: rest))
    | rest => .error (.next .trailingCharacters rest)
  | rest => .error (.next .trailingCharacters rest)

/-- An array that ends after `n` items. -/
def tooShort (n : Nat) (rest : List Piece) : Fault :=
  .after (.wrongData s!"invalid length {n}, expected struct SetRequest with 2 elements") rest

/-- Reads an array of key and value, after its bracket. -/
def readArray : Reader SetRequest := fun ps => do
  match ← nextItem true ps with
  | .inr rest => throw (tooShort 0 rest)
  | .inl ps =>
    let (key, ps) ← (readString ps).mapError (Fault.within (.index 0))
    match ← nextItem false ps with
    | .inr rest => throw (tooShort 1 rest)
    | .inl ps =>
      let (value, ps) ← (readStored ps).mapError (Fault.within (.index 1))
      let rest ← endArray ps
      return (⟨key, value⟩, rest)

/-- The text that a look for the end of an object leaves. -/
def pastEnd (ps : List Piece) : List Piece :=
  match skipBlanks ps with
  | .char '\x7d' :: rest => rest
  | rest => rest

def duplicate (name : String) (rest : List Piece) : Fault :=
  .after (.wrongData s!"duplicate field `{name}`") (pastEnd rest)

/-- The request of the fields that have been read, or the first field that is missing. -/
def ofFields (key : Option String) (value : Option Json) : Reader SetRequest := fun rest =>
  match key, value with
  | none, _ => .error (.after (.wrongData "missing field `key`") rest)
  | some _, none => .error (.after (.wrongData "missing field `value`") rest)
  | some key, some value => .ok (⟨key, value⟩, rest)

/-- Reads the fields of an object and its closing brace, after those that have been read. Fields with
other names are passed over. -/
def readFields : Nat → Bool → Option String → Option Json → Reader SetRequest
  | 0, _, _, _, ps => .error (.next .tooDeep ps)
  | fuel + 1, first, key, value, ps => do
    match ← (nextName first ps).mapError (Fault.within .unknown) with
    | .inr rest => ofFields key value rest
    | .inl rest =>
      let (name, rest) ← (readText rest).mapError (Fault.within .unknown)
      let located (fault : Fault) : Fault := fault.within (.name name)
      if name = "key" then
        if key.isSome then throw (duplicate name rest)
        let (key, rest) ← (readString (← skipColon rest)).mapError located
        readFields fuel false (some key) value rest
      else if name = "value" then
        if value.isSome then throw (duplicate name rest)
        let (value, rest) ← (readStored (← skipColon rest)).mapError located
        readFields fuel false key (some value) rest
      else
        let rest ← (skipValue (fuelFor rest) (← skipColon rest)).mapError located
        readFields fuel false key value rest

/-- Reads a request off the front of a text. -/
def readPieces : Reader SetRequest := fun ps =>
  match skipBlanks ps with
  | [] => .error (.after .endInValue [])
  | .char '[' :: rest => readArray rest
  | .char '\x7b' :: rest => readFields (fuelFor rest) true none none rest
  | rest => unexpected "struct SetRequest" rest

/-- Reads a text that is one request; the error is the message of the first fault. -/
def read (s : String) : Except String SetRequest :=
  let text := Text.pieces s
  match readPieces text with
  | .error fault => .error (fault.message text)
  | .ok (request, rest) => (expectEnd request rest).mapError (Fault.message text)

end SetRequest

end LayeredCache
