import LayeredCache.Json.Basic
import LayeredCache.Decimal.Written

/-!
# Writing JSON

The compact text of a value: no blanks, fields in the order in which the value lists them.
-/

namespace LayeredCache.Json

/-- Floating-point numbers are positional from `0.00001` up to, but not including, `1e+16`, and always
have a point or an exponent. A value halfway between two numbers is written as the one that ends even. -/
def numberStyle : Decimal.Style :=
  ⟨-4, 16, true, .toEven⟩

def hexDigit (n : Nat) : Char :=
  n.digitChar

/-- One character inside a string: quotes, backslashes and controls are escaped. -/
def escape (c : Char) : List Char :=
  match c with
  | '"' => ['\\', '"']
  | '\\' => ['\\', '\\']
  | '\x08' => ['\\', 'b']
  | '\x0c' => ['\\', 'f']
  | '\n' => ['\\', 'n']
  | '\r' => ['\\', 'r']
  | '\t' => ['\\', 't']
  | c =>
    if c.toNat < 0x20 then
      ['\\', 'u', '0', '0', hexDigit (c.toNat / 16), hexDigit (c.toNat % 16)]
    else [c]

/-- A string in double quotes. -/
def renderString (s : String) : List Char :=
  '"' :: s.toList.flatMap escape ++ ['"']

def renderInteger (n : Int) : List Char :=
  (if n < 0 then ['-'] else []) ++ Nat.toDigits 10 n.natAbs

mutual
def render : Json → List Char
  | .null => ['n', 'u', 'l', 'l']
  | .bool true => ['t', 'r', 'u', 'e']
  | .bool false => ['f', 'a', 'l', 's', 'e']
  | .integer n => renderInteger n
  | .float x => Decimal.writeBinary .double numberStyle x
  | .string s => renderString s
  | .array [] => ['[', ']']
  | .array (v :: vs) => '[' :: render v ++ renderItems vs
  | .object [] => ['\x7b', '\x7d']
  | .object ((k, v) :: fields) => '\x7b' :: renderString k ++ ':' :: render v ++ renderFields fields
/-- The items after the first, and the closing bracket. -/
def renderItems : List Json → List Char
  | [] => [']']
  | v :: vs => ',' :: render v ++ renderItems vs
/-- The fields after the first, and the closing brace. -/
def renderFields : List (String × Json) → List Char
  | [] => ['\x7d']
  | (k, v) :: fields => ',' :: renderString k ++ ':' :: render v ++ renderFields fields
end

/-- The compact text of a value. -/
def print (v : Json) : String :=
  String.ofList (render v)

end LayeredCache.Json
