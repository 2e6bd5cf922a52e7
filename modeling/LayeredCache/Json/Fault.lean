import LayeredCache.Text.Utf8

/-!
# Faults in JSON texts

What is wrong with a text that is read as JSON, where it is noticed, and the message that says so.
-/

namespace LayeredCache.Json

/-- What is wrong. A text can also be JSON and hold the wrong data. -/
inductive Flaw where
  | endInValue
  | endInString
  | endInList
  | endInObject
  | expectedColon
  | expectedListEnd
  | expectedObjectEnd
  | expectedWord
  | expectedValue
  | invalidEscape
  | invalidNumber
  | numberOutOfRange
  | invalidCodePoint
  | controlCharacter
  | nameNotString
  | loneSurrogate
  | unpairedSurrogate
  | trailingComma
  | trailingCharacters
  | tooDeep
  | wrongData (message : String)
  deriving DecidableEq

def Flaw.message : Flaw → String
  | .endInValue => "EOF while parsing a value"
  | .endInString => "EOF while parsing a string"
  | .endInList => "EOF while parsing a list"
  | .endInObject => "EOF while parsing an object"
  | .expectedColon => "expected `:`"
  | .expectedListEnd => "expected `,` or `]`"
  | .expectedObjectEnd => "expected `,` or `\x7d`"
  | .expectedWord => "expected ident"
  | .expectedValue => "expected value"
  | .invalidEscape => "invalid escape"
  | .invalidNumber => "invalid number"
  | .numberOutOfRange => "number out of range"
  | .invalidCodePoint => "invalid unicode code point"
  | .controlCharacter => "control character (\\u0000-\\u001F) found while parsing a string"
  | .nameNotString => "key must be a string"
  | .loneSurrogate => "lone leading surrogate in hex escape"
  | .unpairedSurrogate => "unexpected end of hex escape"
  | .trailingComma => "trailing comma"
  | .trailingCharacters => "trailing characters"
  | .tooDeep => "recursion limit exceeded"
  | .wrongData message => message

/-- One step on the way from the whole text to the value that a flaw is in; the name of a field can
still be unread. -/
inductive Segment where
  | index (n : Nat)
  | name (s : String)
  | unknown
  deriving DecidableEq

def Segment.text : Segment → String
  | .index n => s!"[{n}]"
  | .name s => s
  | .unknown => "?"

/-- A flaw, how many octets of the text lie behind the place where it is reported, and the way to the
value it is in. -/
structure Fault where
  flaw : Flaw
  unread : Nat
  path : List Segment

/-- A flaw noticed after what has been read. -/
def Fault.after (flaw : Flaw) (rest : List Text.Piece) : Fault :=
  ⟨flaw, Text.width rest, []⟩

/-- A flaw in the next octet. -/
def Fault.next (flaw : Flaw) (rest : List Text.Piece) : Fault :=
  ⟨flaw, Text.width rest - 1, []⟩

/-- A flaw reported some octets further back than what has been read. -/
def Fault.before (flaw : Flaw) (octets : Nat) (rest : List Text.Piece) : Fault :=
  ⟨flaw, Text.width rest + octets, []⟩

/-- The fault seen from one level further out. -/
def Fault.within (segment : Segment) (fault : Fault) : Fault :=
  { fault with path := segment :: fault.path }

/-- A line, counted from one, and a number of octets on it. -/
structure Position where
  line : Nat
  column : Nat

/-- The position after the first `n` octets, from a position on. -/
def Position.advance (p : Position) : Nat → List Text.Piece → Position
  | _, [] => p
  | n, piece :: rest =>
    if n = 0 then p
    else if piece = .char '\n' then Position.advance ⟨p.line + 1, 0⟩ (n - 1) rest
    else Position.advance ⟨p.line, p.column + min n piece.width⟩ (n - piece.width) rest

def Fault.position (text : List Text.Piece) (fault : Fault) : Position :=
  Position.advance ⟨1, 0⟩ (Text.width text - fault.unread) text

def Fault.message (text : List Text.Piece) (fault : Fault) : String :=
  let p := fault.position text
  s!"{fault.flaw.message} at line {p.line} column {p.column}"

/-- The way to a value: names are separated by points. -/
def pathText : List Segment → String
  | [] => ""
  | segment :: path =>
    path.foldl (fun text s =>
      match s with
      | .index _ => text ++ s.text
      | _ => text ++ "." ++ s.text) segment.text

/-- The message of a fault in a text, after the way to the value it is in as far as that is known. -/
def Fault.locatedMessage (text : List Text.Piece) (fault : Fault) : String :=
  if fault.path.all (· == .unknown) then fault.message text
  else pathText fault.path ++ ": " ++ fault.message text

end LayeredCache.Json
