import LayeredCache.Json.Reader

/-!
# Passing over JSON

A value that nobody needs is passed over without being made: its form is checked, but neither its depth,
nor the range of its numbers, nor whether its strings are text.
-/

namespace LayeredCache.Json

open Text (Piece)

/-- Passes over the content of a string and its closing quote. It stops in front of a control character. -/
def skipText : List Piece → Except Fault (List Piece)
  | [] => .error (.after .endInString [])
  | .char '"' :: rest => .ok rest
  | .char '\\' :: .char 'u' :: a :: b :: c :: d :: rest =>
    match hexValue? a b c d with
    | none => .error (hexFault (a :: b :: c :: d :: rest))
    | some _ => skipText rest
  | .char '\\' :: .char 'u' :: rest => .error (hexFault rest)
  | .char '\\' :: [] => .error (.after .endInString [])
  | .char '\\' :: p :: rest =>
    if (simpleEscape? p).isSome then skipText rest else .error (.next .invalidEscape (p :: rest))
  | .char c :: rest =>
    if c.toNat < 0x20 then .error (.after .controlCharacter (.char c :: rest)) else skipText rest
  | .stray _ :: rest => skipText rest

def skipExponent (ps : List Piece) : Except Fault (List Piece) :=
  let ps :=
    match ps with
    | .char '+' :: ps => ps
    | .char '-' :: ps => ps
    | ps => ps
  match ps with
  | [] => .error (.after .invalidNumber [])
  | p :: rest =>
    if (digit? p).isSome then .ok (spanDigits rest).2 else .error (.next .invalidNumber (p :: rest))

/-- Passes over what follows the whole part of a number. -/
def skipFraction : List Piece → Except Fault (List Piece)
  | .char '.' :: rest =>
    match spanDigits rest with
    | ([], rest) => .error (.next .invalidNumber rest)
    | (_, .char 'e' :: rest) => skipExponent rest
    | (_, .char 'E' :: rest) => skipExponent rest
    | (_, rest) => .ok rest
  | .char 'e' :: rest => skipExponent rest
  | .char 'E' :: rest => skipExponent rest
  | rest => .ok rest

def skipNumber : List Piece → Except Fault (List Piece)
  | [] => .error (.after .invalidNumber [])
  | p :: ps =>
    match digit? p with
    | none => .error (.next .invalidNumber (p :: ps))
    | some 0 =>
      match ps with
      | [] => .ok []
      | q :: rest =>
        if (digit? q).isSome then .error (.next .invalidNumber (q :: rest))
        else skipFraction (q :: rest)
    | some _ => skipFraction (spanDigits ps).2

/-- What stands where the next item of a skipped array may begin: a comma always asks for an item. -/
def nextSkippedItem (first : Bool) (ps : List Piece) :
    Except Fault (Sum (List Piece) (List Piece)) :=
  match skipBlanks ps with
  | [] => .error (.after .endInList [])
  | .char ']' :: rest => .ok (.inr rest)
  | .char ',' :: rest => .ok (.inl (if first then .char ',' :: rest else rest))
  | rest => if first then .ok (.inl rest) else .error (.next .expectedListEnd rest)

/-- What stands where the next name of a skipped object may begin: a comma always asks for a name. -/
def nextSkippedName (first : Bool) (ps : List Piece) :
    Except Fault (Sum (List Piece) (List Piece)) :=
  match skipBlanks ps with
  | [] => .error (.after .endInObject [])
  | .char '\x7d' :: rest => .ok (.inr rest)
  | .char '"' :: rest =>
    if first then .ok (.inl rest) else .error (.next .expectedObjectEnd (.char '"' :: rest))
  | .char ',' :: rest =>
    if first then .error (.next .nameNotString (.char ',' :: rest))
    else
      match skipBlanks rest with
      | [] => .error (.after .endInObject [])
      | .char '"' :: rest => .ok (.inl rest)
      | rest => .error (.next .nameNotString rest)
  | rest => .error (.next (if first then .nameNotString else .expectedObjectEnd) rest)

mutual
def skipValue : Nat → List Piece → Except Fault (List Piece)
  | 0, ps => .error (.next .tooDeep ps)
  | fuel + 1, ps =>
    match skipBlanks ps with
    | [] => .error (.after .endInValue [])
    | .char '"' :: rest => skipText rest
    | .char '[' :: rest => skipItems fuel true rest
    | .char '\x7b' :: rest => skipFields fuel true rest
    | .char 'n' :: rest => readWord ['u', 'l', 'l'] rest
    | .char 't' :: rest => readWord ['r', 'u', 'e'] rest
    | .char 'f' :: rest => readWord ['a', 'l', 's', 'e'] rest
    | .char '-' :: rest => skipNumber rest
    | p :: rest =>
      if (digit? p).isSome then skipNumber (p :: rest) else .error (.next .expectedValue (p :: rest))
def skipItems : Nat → Bool → List Piece → Except Fault (List Piece)
  | 0, _, ps => .error (.next .tooDeep ps)
  | fuel + 1, first, ps =>
    match nextSkippedItem first ps with
    | .error fault => .error fault
    | .ok (.inr rest) => .ok rest
    | .ok (.inl rest) => skipValue fuel rest >>= skipItems fuel false
def skipFields : Nat → Bool → List Piece → Except Fault (List Piece)
  | 0, _, ps => .error (.next .tooDeep ps)
  | fuel + 1, first, ps =>
    match nextSkippedName first ps with
    | .error fault => .error fault
    | .ok (.inr rest) => .ok rest
    | .ok (.inl rest) => do
      let rest ← skipText rest
      let rest ← skipColon rest
      let rest ← skipValue fuel rest
      skipFields fuel false rest
end

end LayeredCache.Json
