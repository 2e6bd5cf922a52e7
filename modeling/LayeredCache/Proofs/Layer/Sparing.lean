import LayeredCache.Layer.Model
import LayeredCache.Proofs.Layer.Storage

/-!
# Puts that spare the other entries

On its way to the storage, a put changes nothing but the entry of its key, unless a layer is stale and
clears the entries first, or a layer that evicts comes to track more keys than its capacity.
-/

namespace LayeredCache

variable {σ : Type} {inner : Cache σ} {bottom : σ → Perpetual} {fits : Call → String → σ → Prop}

/-- A put that fits leaves the entries of all other keys as they are. -/
def Cache.Spares (cache : Cache σ) (bottom : σ → Perpetual) (fits : Call → String → σ → Prop) : Prop :=
  ∀ call key value s, fits call key s → ∀ other, other ≠ key →
    (bottom (cache.put call key value s).2).get? other = (bottom s).get? other

lemma Cache.Spares.mono {fits' : Call → String → σ → Prop} (h : inner.Spares bottom fits)
    (hfits : ∀ call key s, fits' call key s → fits call key s) : inner.Spares bottom fits' :=
  fun call key value s hfits' => h call key value s (hfits call key s hfits')

lemma Perpetual.spares : Perpetual.cache.Spares (fun p => p) fun _ _ _ => True :=
  fun _ key value p _ other hother => (get?_insert p key value other).trans (if_neg hother)

/-- A layer spares the other entries if it hands the put on to a cache that does, perhaps with another
value. -/
lemma Cache.Spares.around {τ : Type} {cache : Cache (τ × σ)} {fits' : Call → String → τ × σ → Prop}
    (h : inner.Spares bottom fits) (form : Json → Json)
    (hput : ∀ call key value s, fits' call key s → fits call key s.2 ∧
      (cache.put call key value s).2.2 = (inner.put call key (form value) s.2).2) :
    cache.Spares (fun s => bottom s.2) fits' := by
  intro call key value s hfits' other hother
  obtain ⟨hfits, hrest⟩ := hput call key value s hfits'
  show (bottom (cache.put call key value s).2.2).get? other = _
  rw [hrest]
  exact h call key (form value) s.2 hfits other hother

/-- Scheduled clearing spares the other entries unless it is stale. -/
lemma Scheduled.spares (h : inner.Spares bottom fits) :
    (around inner).Spares (fun s => bottom s.2) fun call key s =>
      s.1.isStale call = false ∧ fits call key s.2 := by
  refine h.around id fun call key value s ⟨hfresh, hfits⟩ => ⟨hfits, ?_⟩
  show (afterClear inner _ call s).2.2 = _
  rw [afterClear, hfresh]
  rfl

/-- Eviction by use spares the other entries as long as the key that is put fits in. -/
lemma Lru.spares (h : inner.Spares bottom fits) :
    (around inner).Spares (fun s => bottom s.2) fun call key s =>
      (s.1.order.keys.insert key).length ≤ s.1.capacity.count ∧ fits call key s.2 := by
  refine h.around id fun call key value s ⟨hroom, hfits⟩ => ⟨hfits, ?_⟩
  have hlength : (s.1.order.touch key).keys.length ≤ s.1.capacity.count := by
    show (s.1.order.keys.filter (· ≠ key)).length + 1 ≤ _
    by_cases hkey : key ∈ s.1.order.keys
    · have hless : (s.1.order.keys.filter (· ≠ key)).length < s.1.order.keys.length :=
        List.length_filter_lt_length_iff_exists.2 ⟨key, hkey, by simp⟩
      rw [List.insert_of_mem hkey] at hroom
      exact Nat.le_trans hless hroom
    · rw [List.insert_of_not_mem hkey] at hroom
      exact Nat.le_trans (Nat.succ_le_succ (List.length_filter_le ..)) hroom
  have hshrink : (s.1.order.touch key).shrink s.1.capacity.count = ([], s.1.order.touch key) := by
    rw [Recency.shrink, List.drop_of_length_le hlength, List.take_of_length_le hlength]
    rfl
  show (put inner call key value s).2.2 = (inner.put call key value s.2).2
  rw [put]
  rcases inner.put call key value s.2 with ⟨outcome, rest⟩
  cases outcome with
  | error e => rfl
  | ok u =>
    simp only [hshrink]
    rfl

/-- So does eviction in order of insertion. -/
lemma Fifo.spares (h : inner.Spares bottom fits) :
    (around inner).Spares (fun s => bottom s.2) fun call key s =>
      (s.1.queue.insert key).length ≤ s.1.capacity.count ∧ fits call key s.2 := by
  refine h.around id fun call key value s ⟨hroom, hfits⟩ => ⟨hfits, ?_⟩
  have hlength : (enqueue s.1.queue key).length = (s.1.queue.insert key).length := by
    unfold enqueue
    split
    · rename_i hkey
      rw [List.insert_of_mem hkey]
    · rename_i hkey
      rw [List.insert_of_not_mem hkey, List.length_append]
      rfl
  have hnone : (enqueue s.1.queue key).length - s.1.capacity.count = 0 :=
    Nat.sub_eq_zero_of_le (hlength ▸ hroom)
  show (put inner call key value s).2.2 = (inner.put call key value s.2).2
  simp only [put, hnone, List.take_zero, Cache.removeAll, if_true]
  rfl

end LayeredCache
