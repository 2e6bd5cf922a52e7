import LayeredCache.Json.Printer
import LayeredCache.Json.Reader
import Mathlib.Tactic.Common

/-!
# Reading written strings

A reader undoes what the printer does to a string: every character is read back from its escape, and the
closing quote ends the content. Nothing is asked of the text that follows.
-/

namespace LayeredCache.Json

open Text (Piece)

/-- A written text as pieces. -/
def asPieces (cs : List Char) : List Piece :=
  cs.map .char

@[simp] lemma asPieces_nil : asPieces [] = [] := rfl

@[simp] lemma asPieces_cons (c : Char) (cs : List Char) :
    asPieces (c :: cs) = .char c :: asPieces cs := rfl

@[simp] lemma asPieces_append (cs ds : List Char) :
    asPieces (cs ++ ds) = asPieces cs ++ asPieces ds := List.map_append

@[simp] lemma length_asPieces (cs : List Char) : (asPieces cs).length = cs.length := List.length_map _

lemma pieces_eq_asPieces (cs : List Char) : Text.pieces (String.ofList cs) = asPieces cs := by
  rw [Text.pieces, String.toList_ofList, asPieces]

/-- The characters of a written text are all there is in it. -/
lemma characters?_asPieces (cs : List Char) : Text.characters? (asPieces cs) = some cs := by
  induction cs with
  | nil => rfl
  | cons c cs ih => rw [asPieces_cons, Text.characters?, ih, Option.map_some]

/-! ## Escapes -/

/-- The escape of a control character denotes its number, which is no half of a surrogate pair. -/
lemma hexValue?_control : ∀ n < 0x20,
    hexValue? (.char '0') (.char '0') (.char (hexDigit (n / 16))) (.char (hexDigit (n % 16))) = some n ∧
      isTrailing n = false ∧ isLeading n = false := by
  decide

/-- A character that is neither a quote nor a backslash nor a control character stands for itself. -/
lemma readContent_plain {c : Char} (hquote : c ≠ '"') (hslash : c ≠ '\\') (hplain : ¬c.toNat < 0x20)
    (rest : List Piece) : readContent (.char c :: rest) = prepend (.char c) (readContent rest) := by
  rw [readContent.eq_def]
  split
  case h_7 heq =>
    obtain ⟨hchar, rfl⟩ := List.cons.inj heq
    obtain rfl := Piece.char.inj hchar
    rw [if_neg hplain]
  -- the patterns before that one begin with a quote or a backslash
  all_goals
    rename_i heq
    cases heq
  all_goals contradiction

/-- The escape of a character is read as that character. -/
theorem readContent_escape (c : Char) (rest : List Piece) :
    readContent (asPieces (escape c) ++ rest) = prepend (.char c) (readContent rest) := by
  unfold escape
  split
  case h_8 hquote hslash _ _ _ _ _ =>
    split
    · rename_i hcontrol
      obtain ⟨hvalue, htrailing, hleading⟩ := hexValue?_control c.toNat hcontrol
      simp [readContent, hvalue, htrailing, hleading, Char.ofNat_toNat]
    · rename_i hplain
      exact readContent_plain hquote hslash hplain rest
  all_goals simp [readContent, simpleEscape?]

/-- The content of a written string is read up to and with the closing quote. -/
theorem readContent_flatMap_escape (cs : List Char) (rest : List Piece) :
    readContent (asPieces (cs.flatMap escape) ++ .char '"' :: rest) = .ok (asPieces cs, rest) := by
  induction cs with
  | nil => simp [readContent]
  | cons c cs ih =>
    rw [List.flatMap_cons, asPieces_append, List.append_assoc, readContent_escape, ih]
    rfl

/-- A written string, after its opening quote, is read as that string. -/
theorem readText_written (s : String) (rest : List Piece) :
    readText (asPieces (s.toList.flatMap escape) ++ .char '"' :: rest) = .ok (s, rest) := by
  rw [readText, readContent_flatMap_escape]
  simp only [characters?_asPieces, String.ofList_toList]

end LayeredCache.Json
