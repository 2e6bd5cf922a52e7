import LayeredCache.Layer.Fifo
import LayeredCache.Layer.Lru
import Mathlib.Data.List.Nodup
import Mathlib.Data.List.Perm.Subperm

/-!
# Keys that a layer tracks

What a put or a lookup does to the keys that a layer tracks in order to evict, before it evicts any.
-/

namespace LayeredCache

namespace Recency

variable {r : Recency} {key : String}

lemma nodup_touch (h : r.keys.Nodup) : (r.touch key).keys.Nodup :=
  List.nodup_cons.2 ⟨by simp [remove], h.filter _⟩

lemma touch_subset : (r.touch key).keys ⊆ key :: r.keys :=
  List.cons_subset_cons _ (List.filter_subset_self r.keys)

lemma subset_touch : r.keys ⊆ (r.touch key).keys := by
  intro other hother
  by_cases hkey : other = key
  · exact hkey ▸ List.mem_cons_self
  · exact List.mem_cons_of_mem _ (List.mem_filter.2 ⟨hother, by simpa using hkey⟩)

/-- The keys stay the same when one of them is used. -/
lemma refresh_perm (r : Recency) (key : String) : (r.refresh key).2.keys.Perm r.keys := by
  rw [refresh]
  split
  · rename_i hkey
    exact (List.perm_cons_erase hkey).symm
  · exact .refl _

/-- The key that is put is not among those that have to go. -/
lemma notMem_drop_touch (r : Recency) (key : String) {n : Nat} (hn : 0 < n) :
    key ∉ (r.touch key).keys.drop n := by
  obtain ⟨n, rfl⟩ := Nat.exists_eq_succ_of_ne_zero (Nat.ne_of_gt hn)
  intro hkey
  have hrest : key ∈ r.keys.filter (· ≠ key) := List.mem_of_mem_drop hkey
  simp at hrest

end Recency

namespace Fifo

variable {queue : List String} {key : String}

lemma nodup_enqueue (h : queue.Nodup) : (enqueue queue key).Nodup := by
  unfold enqueue
  split
  · exact h
  · rename_i hkey
    refine List.nodup_append.2 ⟨h, List.nodup_singleton key, ?_⟩
    intro other hother new hnew
    rw [List.mem_singleton.1 hnew]
    exact fun heq => hkey (heq ▸ hother)

lemma mem_enqueue {other : String} : other ∈ enqueue queue key ↔ other ∈ queue ∨ other = key := by
  unfold enqueue
  split
  · rename_i hkey
    constructor
    · exact Or.inl
    · rintro (hother | rfl)
      · exact hother
      · exact hkey
  · simp

lemma length_enqueue_le : (enqueue queue key).length ≤ queue.length + 1 := by
  unfold enqueue
  split
  · omega
  · simp

/-- The key that is put is not among those that have to go. -/
lemma notMem_take_enqueue {capacity : Nat}
    (hpositive : 0 < capacity) (hlength : queue.length ≤ capacity) :
    key ∉ (enqueue queue key).take ((enqueue queue key).length - capacity) := by
  unfold enqueue
  split
  · rw [Nat.sub_eq_zero_of_le hlength, List.take_zero]
    exact List.not_mem_nil
  · rename_i hkey
    have hexcess : (queue ++ [key]).length - capacity ≤ queue.length := by
      rw [List.length_append, List.length_singleton]
      omega
    rw [List.take_append_of_le_length hexcess]
    exact fun hmem => hkey (List.mem_of_mem_take hmem)

/-- It stays in the queue. -/
lemma mem_drop_enqueue {capacity : Nat} (hpositive : 0 < capacity) (hlength : queue.length ≤ capacity) :
    key ∈ (enqueue queue key).drop ((enqueue queue key).length - capacity) := by
  have hkey : key ∈ (enqueue queue key).take ((enqueue queue key).length - capacity) ++
      (enqueue queue key).drop ((enqueue queue key).length - capacity) := by
    rw [List.take_append_drop]
    exact mem_enqueue.2 (.inr rfl)
  exact (List.mem_append.1 hkey).resolve_left (notMem_take_enqueue hpositive hlength)

end Fifo

end LayeredCache
