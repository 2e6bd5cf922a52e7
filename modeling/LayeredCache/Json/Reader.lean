import LayeredCache.Decimal.Integer
import LayeredCache.Decimal.Stepwise
import LayeredCache.Json.Basic
import LayeredCache.Json.Fault

/-!
# Reading JSON

A reader takes a value off the front of a text and gives the rest. It is strict: no comments, no
superfluous commas or zeros, no lone surrogates, and at most a given number of arrays and objects
inside each other. The first flaw from the left is the one reported. A number that is no integer of a
word becomes a floating-point value by the short way, which need not end at the nearest one.
-/

namespace LayeredCache.Json

open Text (Piece)

/-- Takes an `α` off the front of a text. -/
abbrev Reader (α : Type) := List Piece → Except Fault (α × List Piece)

/-- How many arrays and objects may be inside each other. -/
def depthLimit : Nat := 127

def isBlank : Piece → Bool
  | .char ' ' => true
  | .char '\n' => true
  | .char '\t' => true
  | .char '\r' => true
  | _ => false

def skipBlanks (ps : List Piece) : List Piece :=
  ps.dropWhile isBlank

def digit? : Piece → Option Nat
  | .char c => if c.isDigit then some (Decimal.digitValue c) else none
  | .stray _ => none

def hexDigit? : Piece → Option Nat
  | .char c =>
    if c.isDigit then some (c.toNat - '0'.toNat)
    else if 'a' ≤ c ∧ c ≤ 'f' then some (c.toNat - 'a'.toNat + 10)
    else if 'A' ≤ c ∧ c ≤ 'F' then some (c.toNat - 'A'.toNat + 10)
    else none
  | .stray _ => none

def readWord : List Char → List Piece → Except Fault (List Piece)
  | [], ps => .ok ps
  | _ :: _, [] => .error (.after .endInValue [])
  | c :: cs, p :: ps => if p = .char c then readWord cs ps else .error (.next .expectedWord (p :: ps))

/-! ## Strings -/

/-- The number that four hexadecimal digits denote. -/
def hexValue? (a b c d : Piece) : Option Nat := do
  let w ← hexDigit? a
  let x ← hexDigit? b
  let y ← hexDigit? c
  let z ← hexDigit? d
  return w * 4096 + x * 256 + y * 16 + z

/-- Why four octets are no hexadecimal number: they are not there, or not all digits. -/
def hexFault (ps : List Piece) : Fault :=
  if Text.width ps < 4 then .after .endInString [] else ⟨.invalidEscape, Text.width ps - 4, []⟩

/-- The character that an escape of one letter stands for. -/
def simpleEscape? : Piece → Option Char
  | .char '"' => some '"'
  | .char '\\' => some '\\'
  | .char '/' => some '/'
  | .char 'b' => some '\x08'
  | .char 'f' => some '\x0c'
  | .char 'n' => some '\n'
  | .char 'r' => some '\r'
  | .char 't' => some '\t'
  | _ => none

/-- Half of a surrogate pair. -/
def isLeading (n : Nat) : Bool := 0xD800 ≤ n && n ≤ 0xDBFF
def isTrailing (n : Nat) : Bool := 0xDC00 ≤ n && n ≤ 0xDFFF

def pairChar (high low : Nat) : Char :=
  Char.ofNat ((high - 0xD800) * 1024 + (low - 0xDC00) + 0x10000)

def prepend (p : Piece) : Except Fault (List Piece × List Piece) →
    Except Fault (List Piece × List Piece) :=
  Except.map fun (content, rest) => (p :: content, rest)

/-- Reads the content of a string, escapes undone, up to and with the closing quote. -/
def readContent : Reader (List Piece)
  | [] => .error (.after .endInString [])
  | .char '"' :: rest => .ok ([], rest)
  | .char '\\' :: .char 'u' :: a :: b :: c :: d :: rest =>
    match hexValue? a b c d with
    | none => .error (hexFault (a :: b :: c :: d :: rest))
    | some n =>
      if isTrailing n then .error (.after .loneSurrogate rest)
      else if isLeading n then
        match rest with
        | [] => .error (.after .endInString [])
        | .char '\\' :: .char 'u' :: a :: b :: c :: d :: rest =>
          match hexValue? a b c d with
          | none => .error (hexFault (a :: b :: c :: d :: rest))
          | some low =>
            if isTrailing low then prepend (.char (pairChar n low)) (readContent rest)
            else .error (.after .loneSurrogate rest)
        | .char '\\' :: .char 'u' :: rest => .error (hexFault rest)
        | .char '\\' :: [] => .error (.after .endInString [])
        | .char '\\' :: rest => .error (.next .unpairedSurrogate rest)
        | rest => .error (.next .unpairedSurrogate rest)
      else prepend (.char (Char.ofNat n)) (readContent rest)
  | .char '\\' :: .char 'u' :: rest => .error (hexFault rest)
  | .char '\\' :: [] => .error (.after .endInString [])
  | .char '\\' :: p :: rest =>
    match simpleEscape? p with
    | some c => prepend (.char c) (readContent rest)
    | none => .error (.next .invalidEscape (p :: rest))
  | .char c :: rest =>
    if c.toNat < 0x20 then .error (.next .controlCharacter (.char c :: rest))
    else prepend (.char c) (readContent rest)
  | .stray b :: rest => prepend (.stray b) (readContent rest)

/-- The content from its first octet on that belongs to no character. -/
def fromStray (content : List Piece) : List Piece :=
  content.dropWhile isChar
where
  isChar : Piece → Bool
    | .char _ => true
    | .stray _ => false

/-- Reads a string after its opening quote. That its octets are no text is noticed at the closing quote
and reported as many octets further back as the content has from the first wrong one on; an escape counts
there as the character it stands for. -/
def readText : Reader String := fun ps =>
  match readContent ps with
  | .error fault => .error fault
  | .ok (content, rest) =>
    match Text.characters? content with
    | some cs => .ok (String.ofList cs, rest)
    | none => .error (.before .invalidCodePoint (Text.width (fromStray content)) rest)

/-! ## Numbers -/

/-- Splits the digits off the front of a text. -/
def spanDigits : List Piece → List Nat × List Piece
  | [] => ([], [])
  | p :: ps =>
    match digit? p with
    | some n => let (ds, rest) := spanDigits ps; (n :: ds, rest)
    | none => ([], p :: ps)

def digitsNumber (ds : List Nat) : Nat :=
  ds.foldl (fun n d => 10 * n + d) 0

/-- The largest exponent that is told apart from a larger one. -/
def exponentLimit : Nat := 2147483647

/-- Reads the digits of an exponent after a part with value `n`: the value, or the text after the digit
that takes it past the limit. -/
def readExponentDigits (n : Nat) : List Piece → Except (List Piece) (Nat × List Piece)
  | [] => .ok (n, [])
  | p :: ps =>
    match digit? p with
    | none => .ok (n, p :: ps)
    | some d =>
      if exponentLimit < 10 * n + d then .error ps else readExponentDigits (10 * n + d) ps

/-- The value of a decimal number, which must be in the range of floating point. -/
def floatOf (negative : Bool) (d : Decimal) : Reader Json := fun rest =>
  match d.toBinaryStepwise with
  | .finite _ m e => .ok (.float (.finite negative m e), rest)
  | _ => .error (.after .numberOutOfRange rest)

/-- Reads an exponent after its letter. -/
def readExponent (negative : Bool) (coefficient : Nat) (scale : Int) : Reader Json := fun ps =>
  let (minus, ps) :=
    match ps with
    | .char '+' :: ps => (false, ps)
    | .char '-' :: ps => (true, ps)
    | ps => (false, ps)
  match ps with
  | [] => .error (.after .endInValue [])
  | p :: rest =>
    match digit? p with
    | none => .error (.next .invalidNumber (p :: rest))
    | some d =>
      match readExponentDigits d rest with
      | .ok (k, rest) =>
        floatOf negative ⟨coefficient, scale + (if minus then -(k : Int) else k)⟩ rest
      | .error rest =>
        if coefficient ≠ 0 ∧ !minus then .error (.after .numberOutOfRange rest)
        else .ok (.float (.zero .double negative), (spanDigits rest).2)

/-- Reads what follows the whole part of a number. Only as many digits count as fit a word; those of the
whole part that do not still count as places. -/
def readFraction (negative : Bool) (whole : List Nat) : Reader Json := fun ps =>
  let (n, dropped) := Decimal.appendDigits 0 whole
  let places : Int := dropped.length
  match ps with
  | .char '.' :: rest =>
    match spanDigits rest with
    | ([], []) => .error (.after .endInValue [])
    | ([], rest) => .error (.next .invalidNumber rest)
    | (ds, rest) =>
      let (n, ignored) := Decimal.appendDigits n ds
      let places := places - (ds.length - ignored.length : Nat)
      match rest with
      | .char 'e' :: rest => readExponent negative n places rest
      | .char 'E' :: rest => readExponent negative n places rest
      | rest => floatOf negative ⟨n, places⟩ rest
  | .char 'e' :: rest => readExponent negative n places rest
  | .char 'E' :: rest => readExponent negative n places rest
  | rest =>
    let value : Int := if negative then -(digitsNumber whole : Int) else digitsNumber whole
    if integerFits value && !(negative && value == 0) then .ok (.integer value, rest)
    else floatOf negative ⟨n, places⟩ rest

/-- Reads a number after its sign. A zero in front stands alone; the negative zero and the integers
beyond 64 bits are floating-point numbers. -/
def readNumber (negative : Bool) : Reader Json
  | [] => .error (.after .endInValue [])
  | p :: ps =>
    match digit? p with
    | none => .error (.next .invalidNumber (p :: ps))
    | some 0 =>
      match ps with
      | [] => readFraction negative [0] []
      | q :: rest =>
        if (digit? q).isSome then .error (.next .invalidNumber (q :: rest))
        else readFraction negative [0] (q :: rest)
    | some d =>
      let (ds, rest) := spanDigits ps
      readFraction negative (d :: ds) rest

/-! ## Values -/

/-- What stands where the next item of an array may begin: the text of an item, or of what follows the
array. -/
def nextItem (first : Bool) (ps : List Piece) : Except Fault (Sum (List Piece) (List Piece)) :=
  match skipBlanks ps with
  | [] => .error (.after .endInList [])
  | .char ']' :: rest => .ok (.inr rest)
  | .char ',' :: rest =>
    if first then .ok (.inl (.char ',' :: rest))
    else
      match skipBlanks rest with
      | [] => .error (.after .endInValue [])
      | .char ']' :: rest => .error (.next .trailingComma (.char ']' :: rest))
      | rest => .ok (.inl rest)
  | rest => if first then .ok (.inl rest) else .error (.next .expectedListEnd rest)

/-- What stands where the next name of an object may begin: the text after its opening quote, or what
follows the object. -/
def nextName (first : Bool) (ps : List Piece) : Except Fault (Sum (List Piece) (List Piece)) :=
  match skipBlanks ps with
  | [] => .error (.after .endInObject [])
  | .char '\x7d' :: rest => .ok (.inr rest)
  | .char '"' :: rest =>
    if first then .ok (.inl rest) else .error (.next .expectedObjectEnd (.char '"' :: rest))
  | .char ',' :: rest =>
    if first then .error (.next .nameNotString (.char ',' :: rest))
    else
      match skipBlanks rest with
      | [] => .error (.after .endInValue [])
      | .char '"' :: rest => .ok (.inl rest)
      | .char '\x7d' :: rest => .error (.next .trailingComma (.char '\x7d' :: rest))
      | rest => .error (.next .nameNotString rest)
  | rest => .error (.next (if first then .nameNotString else .expectedObjectEnd) rest)

def skipColon (ps : List Piece) : Except Fault (List Piece) :=
  match skipBlanks ps with
  | [] => .error (.after .endInObject [])
  | .char ':' :: rest => .ok rest
  | rest => .error (.next .expectedColon rest)

mutual
/-- Reads a value with at most `depth` arrays and objects inside each other. The fuel bounds the number
of values and of places between them. -/
def readValue : Nat → Nat → Reader Json
  | 0, _, ps => .error (.next .tooDeep ps)
  | fuel + 1, depth, ps =>
    match skipBlanks ps with
    | [] => .error (.after .endInValue [])
    | .char '"' :: rest => (readText rest).map fun (s, rest) => (.string s, rest)
    | .char '[' :: rest =>
      match depth with
      | 0 => .error (.next .tooDeep (.char '[' :: rest))
      | depth + 1 => (readItems fuel depth 0 rest).map fun (vs, rest) => (.array vs, rest)
    | .char '\x7b' :: rest =>
      match depth with
      | 0 => .error (.next .tooDeep (.char '\x7b' :: rest))
      | depth + 1 =>
        (readFields fuel depth true rest).map fun (fields, rest) => (.ofFields fields, rest)
    | .char 'n' :: rest => (readWord ['u', 'l', 'l'] rest).map fun rest => (.null, rest)
    | .char 't' :: rest => (readWord ['r', 'u', 'e'] rest).map fun rest => (.bool true, rest)
    | .char 'f' :: rest => (readWord ['a', 'l', 's', 'e'] rest).map fun rest => (.bool false, rest)
    | .char '-' :: rest => readNumber true rest
    | p :: rest =>
      if (digit? p).isSome then readNumber false (p :: rest)
      else .error (.next .expectedValue (p :: rest))
/-- Reads the items of an array from number `n` on, and the closing bracket. -/
def readItems : Nat → Nat → Nat → Reader (List Json)
  | 0, _, _, ps => .error (.next .tooDeep ps)
  | fuel + 1, depth, n, ps =>
    match nextItem (n == 0) ps with
    | .error fault => .error fault
    | .ok (.inr rest) => .ok ([], rest)
    | .ok (.inl rest) =>
      match readValue fuel depth rest with
      | .error fault => .error (fault.within (.index n))
      | .ok (v, rest) => (readItems fuel depth (n + 1) rest).map fun (vs, rest) => (v :: vs, rest)
def readFields : Nat → Nat → Bool → Reader (List (String × Json))
  | 0, _, _, ps => .error (.next .tooDeep ps)
  | fuel + 1, depth, first, ps =>
    match nextName first ps with
    | .error fault => .error (fault.within .unknown)
    | .ok (.inr rest) => .ok ([], rest)
    | .ok (.inl rest) =>
      match readText rest with
      | .error fault => .error (fault.within .unknown)
      | .ok (name, rest) =>
        match skipColon rest with
        | .error fault => .error fault
        | .ok rest =>
          match readValue fuel depth rest with
          | .error fault => .error (fault.within (.name name))
          | .ok (v, rest) =>
            (readFields fuel depth false rest).map fun (fields, rest) => ((name, v) :: fields, rest)
end

/-- Enough fuel for a text: every step takes a piece, and two steps lie between values. -/
def fuelFor (ps : List Piece) : Nat :=
  2 * ps.length + 2

/-- Nothing but blanks may follow a value. -/
def expectEnd {α : Type} (value : α) (ps : List Piece) : Except Fault α :=
  match skipBlanks ps with
  | [] => .ok value
  | rest => .error (.next .trailingCharacters rest)

/-- Reads a text that is one value with at most `depth` arrays and objects inside each other. -/
def readWithin (depth : Nat) (ps : List Piece) : Except Fault Json :=
  match readValue (fuelFor ps) depth ps with
  | .error fault => .error fault
  | .ok (v, rest) => expectEnd v rest

/-- Reads a text that is one value; the error is the message of the first fault. -/
def read (s : String) : Except String Json :=
  (readWithin depthLimit (Text.pieces s)).mapError (Fault.message (Text.pieces s))

end LayeredCache.Json
