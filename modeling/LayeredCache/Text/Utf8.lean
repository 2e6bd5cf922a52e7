/-!
# Reading octets as UTF-8

A sequence of octets is read as characters, with the octets that no character accounts for kept in
their place. A text has only characters, so reading octets and reading text have one form.
-/

namespace LayeredCache.Text

/-- One unit of a text that may hold octets outside UTF-8. -/
inductive Piece where
  | char (c : Char)
  | stray (octet : UInt8)
  deriving DecidableEq

def Piece.width : Piece → Nat
  | .char c => c.utf8Size
  | .stray _ => 1

def width : List Piece → Nat
  | [] => 0
  | p :: ps => p.width + width ps

/-- A text as pieces: each of its characters. -/
def pieces (s : String) : List Piece :=
  s.toList.map .char

/-- The characters of a run without stray octets. -/
def characters? : List Piece → Option (List Char)
  | [] => some []
  | .char c :: ps => (characters? ps).map (c :: ·)
  | .stray _ :: _ => none

def isTail (b : UInt8) : Bool :=
  0x80 ≤ b && b ≤ 0xBF

/-- The six low bits of a continuation octet. -/
def tailBits (b : UInt8) : Nat :=
  b.toNat % 64

/-- The character that octet `a` starts when `bs` follows it, and how many octets of `bs` it takes:
the shortest forms only, no surrogates, nothing above `U+10FFFF`. -/
def leading? (a : UInt8) (bs : List UInt8) : Option (Char × Nat) :=
  if a < 0x80 then some (Char.ofNat a.toNat, 0)
  else match bs with
  | b :: bs =>
    if !isTail b then none
    else if 0xC2 ≤ a && a ≤ 0xDF then some (Char.ofNat (a.toNat % 32 * 64 + tailBits b), 1)
    else match bs with
    | c :: bs =>
      if !isTail c then none
      else if 0xE0 ≤ a && a ≤ 0xEF && (a != 0xE0 || 0xA0 ≤ b) && (a != 0xED || b ≤ 0x9F) then
        some (Char.ofNat (a.toNat % 16 * 4096 + tailBits b * 64 + tailBits c), 2)
      else match bs with
      | d :: _ =>
        if isTail d && 0xF0 ≤ a && a ≤ 0xF4 && (a != 0xF0 || 0x90 ≤ b) && (a != 0xF4 || b ≤ 0x8F) then
          some (Char.ofNat (a.toNat % 8 * 262144 + tailBits b * 4096 + tailBits c * 64 + tailBits d), 3)
        else none
      | [] => none
    | [] => none
  | [] => none

/-- Reads octets as UTF-8 after skipping `n` of them. -/
def decodeFrom : Nat → List UInt8 → List Piece
  | _, [] => []
  | n + 1, _ :: bs => decodeFrom n bs
  | 0, a :: bs =>
    match leading? a bs with
    | some (c, n) => .char c :: decodeFrom n bs
    | none => .stray a :: decodeFrom 0 bs

/-- Reads octets as UTF-8; an octet that starts no character stands alone. -/
def decode (bs : List UInt8) : List Piece :=
  decodeFrom 0 bs

end LayeredCache.Text
