/-!
# Media types

The part of media types that tells whether a body is JSON: type, subtype and suffix, and the form of the
parameters behind them.
-/

namespace LayeredCache.MediaType

/-- The characters of names and of parameter values without quotes. -/
def isToken (c : Char) : Bool :=
  c.isAlphanum || c ∈ ['!', '#', '$', '%', '&', '\x27', '*', '+', '-', '.', '^', '_', '\x60', '|', '~']

/-- The characters inside a quoted parameter value. -/
def isQuotable (c : Char) : Bool :=
  0x1F < c.toNat && c.toNat != 0x7F

/-- The characters that a header may hold and still be read as text. -/
def isVisible (c : Char) : Bool :=
  c == '\t' || (0x20 ≤ c.toNat && c.toNat < 0x7F)

mutual
/-- Parameters, after the semicolon in front of them: each a name, an equals sign and a value. -/
def parameters : Nat → List Char → Bool
  | 0, _ => false
  | fuel + 1, cs =>
    match cs.dropWhile (· == ' ') with
    | [] => true
    | cs =>
      match cs.takeWhile isToken, cs.dropWhile isToken with
      | _ :: _, '=' :: '"' :: rest => quotedValue fuel rest
      | _ :: _, '=' :: rest =>
        match rest.takeWhile isToken, rest.dropWhile isToken with
        | _, [] => true
        | _ :: _, ';' :: rest => parameters fuel rest
        | _, _ => false
      | _, _ => false
/-- What follows the opening quote of a parameter value. The closing quote is not looked for before the
second character, so that a quote can be the first. -/
def quotedValue : Nat → List Char → Bool
  | 0, _ => false
  | _, [] => false
  | fuel + 1, c :: cs =>
    match cs.dropWhile fun c => isQuotable c && c != '"' with
    | '"' :: rest =>
      isQuotable c &&
        match rest.dropWhile (· == ' ') with
        | [] => true
        | ';' :: rest => parameters fuel rest
        | _ => false
    | _ => false
end

/-- The part of a subtype behind its last plus sign, and the part in front of that sign. A plus sign at
the beginning divides nothing. -/
def splitSuffix (subtype : List Char) : List Char × Option (List Char) :=
  match subtype.reverse.dropWhile (· ≠ '+') with
  | _ :: c :: cs => ((c :: cs).reverse, some (subtype.reverse.takeWhile (· ≠ '+')).reverse)
  | _ => (subtype, none)

/-- A header names JSON: "application/json", or a subtype of "application" with the suffix "json". Case
does not count, and well-formed parameters may follow. -/
def isJson (header : String) : Bool :=
  let cs := header.toList.map Char.toLower
  if !header.toList.all isVisible then false
  else if cs.takeWhile isToken ≠ "application".toList then false
  else
    match cs.dropWhile isToken with
    | '/' :: rest =>
      let subtype := rest.takeWhile isToken
      let formed :=
        match rest.dropWhile isToken with
        | [] => true
        | ';' :: more => !subtype.isEmpty && parameters (more.length + 1) more
        | _ => false
      let (name, suffix) := splitSuffix subtype
      formed && (name = "json".toList || suffix = some "json".toList)
    | _ => false

end LayeredCache.MediaType
