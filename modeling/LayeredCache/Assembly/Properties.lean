import LayeredCache.Fields
import LayeredCache.Text.Blank

/-!
# Property maps

Texts by name, in ascending order of names, and the one-line form in which they are configured.
-/

namespace LayeredCache

/-- A map from names to texts. -/
structure Properties where
  entries : List (String × String)
  ascending : Fields.Ascending entries
  deriving DecidableEq

namespace Properties

def empty : Properties := ⟨[], List.Pairwise.nil⟩

/-- The map with a text under a name, in place of the text that was there. -/
def insert (p : Properties) (name value : String) : Properties :=
  ⟨Fields.insert name value p.entries, Fields.ascending_insert p.ascending⟩

/-- The map of a list; of the texts that one name has, the last counts. -/
def ofList (entries : List (String × String)) : Properties :=
  ⟨Fields.ofList entries, Fields.ascending_ofList entries⟩

def get? (p : Properties) (name : String) : Option String :=
  p.entries.lookup name

/-- The parts of a text between commas. -/
def segments : List Char → List (List Char)
  | [] => [[]]
  | c :: cs =>
    if c = ',' then [] :: segments cs
    else
      match segments cs with
      | [] => [[c]]
      | segment :: rest => (c :: segment) :: rest

/-- A segment with an equals sign as name and text, without the blanks around them; the first equals
sign divides. A segment without a name counts for nothing. -/
def entry? (segment : List Char) : Option (String × String) :=
  match segment.dropWhile (· ≠ '=') with
  | [] => none
  | _ :: value =>
    match Text.trim (segment.takeWhile (· ≠ '=')) with
    | [] => none
    | name => some (String.ofList name, String.ofList (Text.trim value))

/-- Reads `name=text` entries divided by commas. -/
def parse (raw : String) : Properties :=
  ofList ((segments raw.toList).filterMap entry?)

end Properties

end LayeredCache
