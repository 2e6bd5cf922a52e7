import LayeredCache.Text.Blank
import Mathlib.Data.List.TakeWhile
import Mathlib.Tactic.Common

/-!
# Trimmed texts

What trimming leaves of a text: the part that neither begins nor ends with a blank, with nothing but blanks around it.
There is exactly one such part (`trim_eq`).
-/

namespace LayeredCache.Text

/-- No blank comes first or last. -/
structure Trimmed (cs : List Char) : Prop where
  first : ∀ c ∈ cs.head?, isBlank c = false
  last : ∀ c ∈ cs.getLast?, isBlank c = false

lemma trimmed_iff {cs : List Char} :
    Trimmed cs ↔ cs.head?.any isBlank = false ∧ cs.getLast?.any isBlank = false := by
  rw [Option.any_eq_false, Option.any_eq_false]
  exact ⟨fun h => ⟨h.first, h.last⟩, fun h => ⟨h.1, h.2⟩⟩

instance (cs : List Char) : Decidable (Trimmed cs) :=
  decidable_of_iff' _ trimmed_iff

/-- The first text is the second one with blanks around it, as many as there may be. -/
def Pads (padded cs : List Char) : Prop :=
  ∃ before after, padded = before ++ cs ++ after ∧
    (∀ c ∈ before, isBlank c = true) ∧ ∀ c ∈ after, isBlank c = true

variable {padded cs before : List Char}

/-- Blanks are dropped up to a text that does not begin with one. -/
lemma dropWhile_padding (hbefore : ∀ c ∈ before, isBlank c = true) (hfirst : ∀ c ∈ cs.head?, isBlank c = false) :
    (before ++ cs).dropWhile isBlank = cs := by
  rw [List.dropWhile_append_of_pos hbefore]
  cases cs with
  | nil => rfl
  | cons c cs => exact List.dropWhile_cons_of_neg (by simp [hfirst c rfl])

lemma trim_of_pads (hpads : Pads padded cs) (hcs : Trimmed cs) : trim padded = cs := by
  obtain ⟨before, after, rfl, hbefore, hafter⟩ := hpads
  by_cases hnil : cs = []
  · subst hnil
    have hall : ∀ c ∈ before ++ [] ++ after, isBlank c = true := by
      rw [List.append_nil]
      exact List.forall_mem_append.2 ⟨hbefore, hafter⟩
    rw [trim, List.dropWhile_eq_nil_iff.2 hall]
    rfl
  · -- what is left after the blanks before the text begins like the text
    have hfirst : ∀ c ∈ (cs ++ after).head?, isBlank c = false := by
      obtain ⟨c, rest, rfl⟩ := List.exists_cons_of_ne_nil hnil
      exact hcs.first
    have hlast : ∀ c ∈ cs.reverse.head?, isBlank c = false := by
      rw [List.head?_reverse]
      exact hcs.last
    rw [trim, List.append_assoc, dropWhile_padding hbefore hfirst, List.reverse_append,
      dropWhile_padding (by simpa using hafter) hlast, List.reverse_reverse]

lemma head?_dropWhile (cs : List Char) : ∀ c ∈ (cs.dropWhile isBlank).head?, isBlank c = false := by
  intro c hc
  have hfirst := List.head?_dropWhile_not isBlank cs
  rw [Option.mem_def.1 hc] at hfirst
  exact hfirst

lemma pads_trim (cs : List Char) : Pads cs (trim cs) ∧ Trimmed (trim cs) := by
  let rest := cs.dropWhile isBlank
  have hrest : rest = trim cs ++ (rest.reverse.takeWhile isBlank).reverse := by
    rw [trim, ← List.reverse_append, List.takeWhile_append_dropWhile, List.reverse_reverse]
  refine ⟨⟨cs.takeWhile isBlank, (rest.reverse.takeWhile isBlank).reverse, ?_, ?_, ?_⟩, ?_, ?_⟩
  · rw [List.append_assoc, ← hrest, List.takeWhile_append_dropWhile]
  · exact fun c hc => List.mem_takeWhile_imp hc
  · exact fun c hc => List.mem_takeWhile_imp (List.mem_reverse.1 hc)
  · intro c hc
    -- the trimmed text begins like what is left after the blanks before it
    have hhead : c ∈ rest.head? := by
      rw [hrest, List.head?_append, Option.mem_def.1 hc]
      rfl
    exact head?_dropWhile cs c hhead
  · intro c hc
    rw [trim, List.getLast?_reverse] at hc
    exact head?_dropWhile _ c hc

/-- Trimming leaves what has blanks around it and is itself trimmed. -/
theorem trim_eq : trim padded = cs ↔ Pads padded cs ∧ Trimmed cs := by
  constructor
  · rintro rfl
    exact pads_trim padded
  · rintro ⟨hpads, hcs⟩
    exact trim_of_pads hpads hcs

end LayeredCache.Text
