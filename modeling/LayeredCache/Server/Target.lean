import LayeredCache.Text.Utf8

/-!
# Request targets

The path of a request target, its segments, and the text that a segment stands for when its
percent-encoded octets are decoded.
-/

namespace LayeredCache.Target

/-- The characters of a scheme; a tilde counts as one, and a scheme can be empty. -/
def isSchemeChar (c : Char) : Bool :=
  c.isAlphanum || c == '+' || c == '-' || c == '.' || c == '~'

/-- A character that ends the authority of a target. -/
def endsAuthority (c : Char) : Bool :=
  c == '/' || c == '?' || c == '#'

/-- What follows the scheme and the authority of a target, if it begins with them. -/
def afterAuthority? (target : List Char) : Option (List Char) :=
  match target.dropWhile isSchemeChar with
  | ':' :: '/' :: '/' :: rest => some (rest.dropWhile fun c => !endsAuthority c)
  | _ => none

/-- The path of a target: what stands in front of a query or fragment. A target that names a scheme and
an authority has at least the path of the root. -/
def path (target : String) : List Char :=
  match afterAuthority? target.toList with
  | none => upToQuery target.toList
  | some rest =>
    match upToQuery rest with
    | [] => ['/']
    | path => path
where
  upToQuery (cs : List Char) : List Char :=
    cs.takeWhile fun c => c ≠ '?' ∧ c ≠ '#'

def hexValue? (b : UInt8) : Option UInt8 :=
  if 0x30 ≤ b && b ≤ 0x39 then some (b - 0x30)
  else if 0x41 ≤ b && b ≤ 0x46 then some (b - 0x41 + 10)
  else if 0x61 ≤ b && b ≤ 0x66 then some (b - 0x61 + 10)
  else none

def octet? (high low : UInt8) : Option UInt8 := do
  let h ← hexValue? high
  let l ← hexValue? low
  return h * 16 + l

/-- Decodes percent-encoded octets after skipping `n` octets. A percent sign without two hexadecimal
digits behind it stands for itself. -/
def decodeFrom : Nat → List UInt8 → List UInt8
  | _, [] => []
  | n + 1, _ :: bs => decodeFrom n bs
  | 0, b :: bs =>
    match b, bs with
    | 0x25, high :: low :: _ =>
      match octet? high low with
      | some octet => octet :: decodeFrom 2 bs
      | none => b :: decodeFrom 0 bs
    | _, _ => b :: decodeFrom 0 bs

/-- The text that a segment stands for, if its octets are one. -/
def segmentText? (segment : List Char) : Option String :=
  let octets := decodeFrom 0 (String.ofList segment).toUTF8.toList
  (Text.characters? (Text.decode octets)).map String.ofList

/-- The one segment that follows a prefix, if there is one and nothing else. -/
def segmentAfter? (start : List Char) (path : List Char) : Option (List Char) :=
  if start.isPrefixOf path then
    match path.drop start.length with
    | [] => none
    | segment => if '/' ∈ segment then none else some segment
  else none

end LayeredCache.Target
