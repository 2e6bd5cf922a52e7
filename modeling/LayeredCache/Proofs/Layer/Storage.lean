import LayeredCache.Layer.Perpetual
import LayeredCache.Proofs.Fields

/-!
# Entries of the storage

What a put and a removal do to the entries of the perpetual storage.
-/

namespace LayeredCache

namespace Perpetual

variable {p : Perpetual} {key other : String}

lemma get?_erase (p : Perpetual) (key other : String) :
    (p.erase key).get? other = if other = key then none else p.get? other :=
  lookup_filter_ne p.entries key other

lemma get?_insert (p : Perpetual) (key : String) (value : Json) (other : String) :
    (p.insert key value).get? other = if other = key then some value else p.get? other := by
  rw [get?, insert, lookup_cons_ite]
  by_cases h : other = key
  · rw [if_pos h, if_pos h]
  · rw [if_neg h, if_neg h]
    exact (get?_erase p key other).trans (if_neg h)

lemma mem_keys : key ∈ p.keys ↔ ∃ value, p.get? key = some value := by
  rw [keys, get?]
  induction p.entries with
  | nil => simp
  | cons entry entries ih =>
    obtain ⟨name, value⟩ := entry
    rw [List.map_cons, List.mem_cons, lookup_cons_ite, ih]
    by_cases h : key = name <;> simp [h]

lemma mem_keys_erase : other ∈ (p.erase key).keys ↔ other ∈ p.keys ∧ other ≠ key := by
  have herase : (p.erase key).keys = p.keys.filter (· ≠ key) := by
    rw [keys, keys, erase, List.filter_map]
    rfl
  simp [herase, List.mem_filter]

lemma mem_keys_insert {value : Json} : other ∈ (p.insert key value).keys ↔ other = key ∨ other ∈ p.keys := by
  have hinsert : (p.insert key value).keys = key :: (p.erase key).keys := rfl
  rw [hinsert, List.mem_cons, mem_keys_erase]
  by_cases h : other = key <;> simp [h]

/-- The storage without some keys. -/
def eraseAll (p : Perpetual) (keys : List String) : Perpetual :=
  keys.foldl erase p

lemma removeAll_eq (call : Call) (keys : List String) (p : Perpetual) :
    cache.removeAll call keys p = (.ok (), p.eraseAll keys) := by
  induction keys generalizing call p with
  | nil => rfl
  | cons first keys ih => exact ih call.next (p.erase first)

lemma get?_eraseAll (p : Perpetual) (keys : List String) (other : String) :
    (p.eraseAll keys).get? other = if other ∈ keys then none else p.get? other := by
  induction keys generalizing p with
  | nil => simp [eraseAll]
  | cons first keys ih =>
    have hrest : p.eraseAll (first :: keys) = (p.erase first).eraseAll keys := rfl
    rw [hrest, ih, get?_erase]
    by_cases hfirst : other = first <;> simp [hfirst]

end Perpetual

end LayeredCache
