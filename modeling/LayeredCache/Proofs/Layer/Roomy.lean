import LayeredCache.Layer.Model
import LayeredCache.Proofs.Cache.Invariant
import LayeredCache.Proofs.Layer.Tracking
import Mathlib.Order.Basic

/-!
# Capacities that are never exceeded

A layer that evicts bounds what is stored beneath it, as long as every put succeeds there: a put that fails
can leave a key that the layer does not know. Beneath a layer that evicts, puts succeed if all other
capacities are greater. Then the layers there have room for all the keys that the layer lets through, and
no further eviction takes place which could fail.
-/

namespace LayeredCache

variable {σ : Type}

/-! ## Caches with room for some keys -/

/-- `within s keys` says that whatever is stored or tracked in the state `s` is among `keys`. As long as
there are at most `room` keys, every put succeeds. -/
structure Cache.Roomy (cache : Cache σ) (room : Nat) (bottom : σ → Perpetual)
    (within : σ → List String → Prop) : Prop where
  unlocked {s keys} : within s keys → cache.unlocked s = true
  stored {s keys} : within s keys → (bottom s).keys ⊆ keys
  mono {s keys keys'} : within s keys → keys ⊆ keys' → within s keys'
  put {s keys} (call) {key} (value) : within s keys → key ∈ keys → keys.length ≤ room →
    ∃ s', cache.put call key value s = (.ok (), s') ∧ within s' keys
  get {s keys} (call key) : within s keys →
    ∃ outcome s', cache.get call key s = .done outcome s' ∧ within s' keys
  remove {s keys} (call key) : within s keys → within (cache.remove call key s).2 (keys.filter (· ≠ key))
  clear {s keys} (call) : within s keys → ∃ s', cache.clear call s = (.ok (), s') ∧ within s' []
  size {s keys} (call) : within s keys → within (cache.size call s).2 keys
  release {s keys} (call key) : within s keys → within (cache.release call key s) keys

variable {inner : Cache σ} {room : Nat} {bottom : σ → Perpetual} {within : σ → List String → Prop}

/-- One key that is removed is gone, even if the removal fails. -/
lemma Cache.Roomy.removeAll (h : inner.Roomy room bottom within) {s : σ} {keys removed : List String}
    (call : Call) (hremoved : removed.length ≤ 1) (hs : within s keys) :
    within (inner.removeAll call removed s).2 (keys.filter (· ∉ removed)) := by
  match removed, hremoved with
  | [], _ => exact h.mono hs (by simp)
  | [key], _ =>
    have hrest := h.remove call key hs
    have hkeys : keys.filter (· ∉ [key]) = keys.filter (· ≠ key) :=
      List.filter_congr fun other _ => by simp
    rw [hkeys, Cache.removeAll]
    rcases hremove : inner.remove call key s with ⟨outcome, rest⟩
    rw [hremove] at hrest
    cases outcome <;> exact hrest

lemma Perpetual.roomy (room : Nat) :
    Perpetual.cache.Roomy room (fun p => p) fun p keys => p.keys ⊆ keys := by
  have herase {p : Perpetual} {keys : List String} (key : String) (hp : p.keys ⊆ keys) :
      (p.erase key).keys ⊆ keys.filter (· ≠ key) := by
    intro other hother
    obtain ⟨entry, hentry, rfl⟩ := List.mem_map.1 hother
    obtain ⟨hentry, hne⟩ := List.mem_filter.1 hentry
    exact List.mem_filter.2 ⟨hp (List.mem_map_of_mem hentry), hne⟩
  constructor
  · exact fun _ => rfl
  · exact fun hp => hp
  · exact fun hp hkeys => List.Subset.trans hp hkeys
  · intro p keys call key value hp hkey _
    refine ⟨p.insert key value, rfl, ?_⟩
    show key :: (p.erase key).keys ⊆ keys
    exact List.cons_subset.2 ⟨hkey, List.Subset.trans (herase key hp) (List.filter_subset_self keys)⟩
  · exact fun {p} _ _ key hp => ⟨_, p, rfl, hp⟩
  · exact fun _ key hp => herase key hp
  · exact fun {p} _ _ _ => ⟨empty p.id, rfl, List.Subset.refl _⟩
  · exact fun _ hp => hp
  · exact fun _ _ hp => hp

/-! ## Layers that let everything through -/

/-- A cache that hands every operation on is as roomy as the inner cache. -/
lemma Cache.Roomy.forward (h : inner.Roomy room bottom within) {τ : Type} (kept : τ → Prop) :
    (Cache.forward τ inner).Roomy room (fun s => bottom s.2)
      fun s keys => kept s.1 ∧ within s.2 keys := by
  constructor
  · exact fun hs => h.unlocked hs.2
  · exact fun hs => h.stored hs.2
  · exact fun hs hkeys => ⟨hs.1, h.mono hs.2 hkeys⟩
  · intro s keys call key value hs hkey hroom
    obtain ⟨rest, hput, hrest⟩ := h.put call value hs.2 hkey hroom
    refine ⟨(s.1, rest), ?_, hs.1, hrest⟩
    simp only [Cache.forward, hput]
    rfl
  · intro s keys call key hs
    obtain ⟨outcome, rest, hget, hrest⟩ := h.get call key hs.2
    refine ⟨outcome, (s.1, rest), ?_, hs.1, hrest⟩
    simp only [Cache.forward, hget]
    rfl
  · exact fun call key hs => ⟨hs.1, h.remove call key hs.2⟩
  · intro s keys call hs
    obtain ⟨rest, hclear, hrest⟩ := h.clear call hs.2
    refine ⟨(s.1, rest), ?_, hs.1, hrest⟩
    simp only [Cache.forward, hclear]
    rfl
  · exact fun call hs => ⟨hs.1, h.size call hs.2⟩
  · exact fun call key hs => ⟨hs.1, h.release call key hs.2⟩

lemma Serialized.roomy (h : inner.Roomy room bottom within) :
    (around inner).Roomy room (fun s => bottom s.2) fun s keys => True ∧ within s.2 keys := by
  have hforward := h.forward fun _ : Serialized => True
  constructor
  · exact hforward.unlocked
  · exact hforward.stored
  · exact hforward.mono
  · exact fun call key value hs => hforward.put call (encode value) hs
  · intro s keys call key hs
    obtain ⟨outcome, rest, hget, hrest⟩ := h.get call key hs.2
    refine ⟨decodeFound (inner.id s.2) outcome, (s.1, rest), ?_, trivial, hrest⟩
    simp only [around, hget]
    rfl
  · exact fun call key hs => ⟨trivial, h.remove call key hs.2⟩
  · exact hforward.clear
  · exact hforward.size
  · exact hforward.release

lemma Logging.roomy (h : inner.Roomy room bottom within) :
    (around inner).Roomy room (fun s => bottom s.2) fun s keys => True ∧ within s.2 keys := by
  have hforward := h.forward fun _ : Logging => True
  constructor
  · exact hforward.unlocked
  · exact hforward.stored
  · exact hforward.mono
  · exact hforward.put
  · intro s keys call key hs
    obtain ⟨outcome, rest, hget, hrest⟩ := h.get call key hs.2
    refine ⟨(record outcome s.1).1, ((record outcome s.1).2, rest), ?_, trivial, hrest⟩
    simp only [around, hget]
    rfl
  · exact hforward.remove
  · exact hforward.clear
  · exact hforward.size
  · exact hforward.release

/-- The lock is free before and after every operation. -/
lemma Synchronized.roomy (h : inner.Roomy room bottom within) :
    (around inner).Roomy room (fun s => bottom s.2) fun s keys => s.1 = free ∧ within s.2 keys := by
  have hforward := h.forward fun own : Synchronized => own = free
  constructor
  · rintro ⟨_, rest⟩ keys ⟨rfl, hrest⟩
    show (!false && inner.unlocked rest) = true
    rw [h.unlocked hrest]
    rfl
  · exact hforward.stored
  · exact hforward.mono
  · exact hforward.put
  · rintro ⟨_, rest⟩ keys call key ⟨rfl, hrest⟩
    obtain ⟨outcome, rest', hget, hrest'⟩ := h.get call key hrest
    refine ⟨outcome, (free, rest'), ?_, rfl, hrest'⟩
    simp only [around, get, inside, free, hget]
    rfl
  · exact hforward.remove
  · exact hforward.clear
  · exact hforward.size
  · exact hforward.release

namespace Scheduled

/-- After a clear, if one is due, there is no more to know than before. -/
private lemma within_afterClear (h : inner.Roomy room bottom within) {α : Type}
    {step : Call → σ → Except CacheError α × σ} {s : Scheduled × σ} {keys keys' : List String} (call : Call)
    (hs : within s.2 keys) (hstep : ∀ call s, within s keys → within (step call s).2 keys') :
    within (afterClear inner step call s).2.2 keys' := by
  rw [afterClear]
  cases s.1.isStale call with
  | false => exact hstep call s.2 hs
  | true =>
    obtain ⟨rest, hclear, hrest⟩ := h.clear call hs
    simp only [clear, Cache.lift, hclear, if_true]
    exact hstep call.next rest (h.mono hrest (List.nil_subset _))

lemma roomy (h : inner.Roomy room bottom within) :
    (around inner).Roomy room (fun s => bottom s.2) fun s keys => within s.2 keys := by
  constructor
  · exact fun hs => h.unlocked hs
  · exact fun hs => h.stored hs
  · exact fun hs hkeys => h.mono hs hkeys
  · intro s keys call key value hs hkey hroom
    show ∃ s', afterClear inner (fun call => inner.put call key value) call s = (.ok (), s') ∧ within s'.2 keys
    rw [afterClear]
    cases s.1.isStale call with
    | false =>
      obtain ⟨rest, hput, hrest⟩ := h.put call value hs hkey hroom
      refine ⟨(s.1, rest), ?_, hrest⟩
      simp only [Cache.lift, hput, Bool.false_eq_true, if_false]
    | true =>
      obtain ⟨cleared, hclear, hcleared⟩ := h.clear call hs
      obtain ⟨rest, hput, hrest⟩ := h.put call.next value (h.mono hcleared (List.nil_subset _)) hkey hroom
      refine ⟨(s.1.restart call, rest), ?_, hrest⟩
      simp only [clear, Cache.lift, hclear, hput, if_true]
  · intro s keys call key hs
    show ∃ outcome s', get inner call key s = .done outcome s' ∧ within s'.2 keys
    rw [get]
    cases s.1.isStale call with
    | false =>
      obtain ⟨outcome, rest, hget, hrest⟩ := h.get call key hs
      refine ⟨outcome, (s.1, rest), ?_, hrest⟩
      simp only [hget, Bool.false_eq_true, if_false]
      rfl
    | true =>
      obtain ⟨rest, hclear, hrest⟩ := h.clear call hs
      refine ⟨.ok none, (s.1.restart call, rest), ?_, h.mono hrest (List.nil_subset _)⟩
      rw [Cache.gated_of_unlocked (h.unlocked hs), hclear, if_pos rfl]
      rfl
  · exact fun call key hs => within_afterClear h call hs fun call _ hs => h.remove call key hs
  · intro s keys call hs
    obtain ⟨rest, hclear, hrest⟩ := h.clear call hs
    refine ⟨(s.1.restart call, rest), ?_, hrest⟩
    simp only [around, clear, Cache.lift, hclear]
  · exact fun call hs => within_afterClear h call hs fun call _ hs => h.size call hs
  · exact fun call key hs => h.release call key hs

end Scheduled

/-! ## Layers that evict and have room -/

/-- The layer tracks some of the keys, each once, and may keep as many as there is room for. -/
structure Spacious (room : Nat) (capacity : Capacity) (tracked keys : List String) : Prop where
  room : room ≤ capacity.count
  nodup : tracked.Nodup
  subset : tracked ⊆ keys

namespace Spacious

variable {capacity : Capacity} {tracked keys : List String}

/-- Nothing has to go while the keys have room. -/
lemma length_le (h : Spacious room capacity tracked keys) (hroom : keys.length ≤ room) :
    tracked.length ≤ capacity.count :=
  Nat.le_trans (Nat.le_trans (List.subperm_of_subset h.nodup h.subset).length_le hroom) h.room

lemma mono {keys' : List String} (h : Spacious room capacity tracked keys) (hkeys : keys ⊆ keys') :
    Spacious room capacity tracked keys' :=
  ⟨h.room, h.nodup, List.Subset.trans h.subset hkeys⟩

lemma remove (h : Spacious room capacity tracked keys) (key : String) :
    Spacious room capacity (tracked.filter (· ≠ key)) (keys.filter (· ≠ key)) :=
  ⟨h.room, h.nodup.filter _, List.filter_subset _ h.subset⟩

lemma clear (h : Spacious room capacity tracked keys) : Spacious room capacity [] [] :=
  ⟨h.room, .nil, List.Subset.refl _⟩

end Spacious

lemma Lru.roomy (h : inner.Roomy room bottom within) :
    (around inner).Roomy room (fun s => bottom s.2)
      fun s keys => Spacious room s.1.capacity s.1.order.keys keys ∧ within s.2 keys := by
  constructor
  · exact fun hs => h.unlocked hs.2
  · exact fun hs => h.stored hs.2
  · exact fun hs hkeys => ⟨hs.1.mono hkeys, h.mono hs.2 hkeys⟩
  · intro s keys call key value hs hkey hroom
    obtain ⟨rest, hput, hrest⟩ := h.put call value hs.2 hkey hroom
    have htouched : Spacious room s.1.capacity (s.1.order.touch key).keys keys :=
      ⟨hs.1.room, Recency.nodup_touch hs.1.nodup,
        List.Subset.trans Recency.touch_subset (List.cons_subset.2 ⟨hkey, hs.1.subset⟩)⟩
    have hlength := htouched.length_le hroom
    have hshrink : (s.1.order.touch key).shrink s.1.capacity.count = ([], s.1.order.touch key) := by
      rw [Recency.shrink, List.drop_of_length_le hlength, List.take_of_length_le hlength]
      rfl
    refine ⟨({ s.1 with order := s.1.order.touch key }, rest), ?_, htouched, hrest⟩
    simp only [around, put, hput, hshrink]
    rfl
  · intro s keys call key hs
    obtain ⟨outcome, rest, hget, hrest⟩ := h.get call key hs.2
    have hperm := s.1.order.refresh_perm key
    refine ⟨outcome, ({ s.1 with order := (s.1.order.refresh key).2 }, rest), ?_, ?_, hrest⟩
    · simp only [around, get, hget]
      rfl
    · exact ⟨hs.1.room, hperm.nodup_iff.2 hs.1.nodup, List.Subset.trans hperm.subset hs.1.subset⟩
  · exact fun call key hs => ⟨hs.1.remove key, h.remove call key hs.2⟩
  · intro s keys call hs
    obtain ⟨rest, hclear, hrest⟩ := h.clear call hs.2
    refine ⟨({ s.1 with order := .empty }, rest), ?_, hs.1.clear, hrest⟩
    simp only [around, clear, hclear]
  · exact fun call hs => ⟨hs.1, h.size call hs.2⟩
  · exact fun call key hs => ⟨hs.1, h.release call key hs.2⟩

lemma Fifo.roomy (h : inner.Roomy room bottom within) :
    (around inner).Roomy room (fun s => bottom s.2)
      fun s keys => Spacious room s.1.capacity s.1.queue keys ∧ within s.2 keys := by
  constructor
  · exact fun hs => h.unlocked hs.2
  · exact fun hs => h.stored hs.2
  · exact fun hs hkeys => ⟨hs.1.mono hkeys, h.mono hs.2 hkeys⟩
  · intro s keys call key value hs hkey hroom
    have hqueued : Spacious room s.1.capacity (enqueue s.1.queue key) keys := by
      refine ⟨hs.1.room, nodup_enqueue hs.1.nodup, fun other hother => ?_⟩
      rcases mem_enqueue.1 hother with hother | rfl
      · exact hs.1.subset hother
      · exact hkey
    have hnone : (enqueue s.1.queue key).length - s.1.capacity.count = 0 :=
      Nat.sub_eq_zero_of_le (hqueued.length_le hroom)
    obtain ⟨rest, hput, hrest⟩ := h.put call value hs.2 hkey hroom
    refine ⟨({ s.1 with queue := enqueue s.1.queue key }, rest), ?_, hqueued, hrest⟩
    simp only [around, put, hnone, List.take_zero, List.drop_zero, Cache.removeAll, if_true, hput]
    rfl
  · intro s keys call key hs
    obtain ⟨outcome, rest, hget, hrest⟩ := h.get call key hs.2
    refine ⟨outcome, (s.1, rest), ?_, hs.1, hrest⟩
    simp only [around, Cache.forward, hget]
    rfl
  · exact fun call key hs => ⟨hs.1.remove key, h.remove call key hs.2⟩
  · intro s keys call hs
    obtain ⟨rest, hclear, hrest⟩ := h.clear call hs.2
    refine ⟨({ s.1 with queue := [] }, rest), ?_, hs.1.clear, hrest⟩
    simp only [around, clear, hclear]
  · exact fun call hs => ⟨hs.1, h.size call hs.2⟩
  · exact fun call key hs => ⟨hs.1, h.release call key hs.2⟩

/-! ## The layer with the least capacity -/

/-- The layer tracks at most as many keys as its capacity says, each once, and whatever is beneath it is
among them. -/
structure Bounding (within : σ → List String → Prop) (capacity : Capacity) (tracked : List String)
    (s : σ) : Prop where
  nodup : tracked.Nodup
  length : tracked.length ≤ capacity.count
  within : within s tracked

namespace Bounding

variable {capacity : Capacity} {tracked : List String} {s s' : σ}

/-- No more is stored than there is capacity for. -/
lemma size_le (h : inner.Roomy room bottom within) (hs : Bounding within capacity tracked s) :
    (bottom s).size ≤ capacity.count := by
  have hsize : (bottom s).size = (bottom s).keys.length := (List.length_map _).symm
  have hsubset := h.stored hs.within
  rw [hsize]
  exact Nat.le_trans (List.subperm_of_subset (bottom s).distinct hsubset).length_le hs.length

/-- Keys in excess are removed beneath the layer and not tracked any more. There is at most one. -/
lemma removeAll (h : inner.Roomy room bottom within) (call : Call) {kept removed : List String}
    (hnodup : tracked.Nodup) (hlength : kept.length ≤ capacity.count) (hremoved : removed.length ≤ 1)
    (hsublist : kept.Sublist tracked) (hkept : ∀ key ∈ tracked, key ∈ kept ∨ key ∈ removed)
    (hs : within s tracked) : Bounding within capacity kept (inner.removeAll call removed s).2 := by
  refine ⟨hnodup.sublist hsublist, hlength, h.mono (h.removeAll call hremoved hs) fun key hkey => ?_⟩
  obtain ⟨hkey, hgone⟩ := List.mem_filter.1 hkey
  exact (hkept key hkey).resolve_right (by simpa using hgone)

lemma remove (h : inner.Roomy room bottom within) (call : Call) (key : String)
    (hs : Bounding within capacity tracked s) :
    Bounding within capacity (tracked.filter (· ≠ key)) (inner.remove call key s).2 :=
  ⟨hs.nodup.filter _, Nat.le_trans (List.length_filter_le ..) hs.length, h.remove call key hs.within⟩

lemma clear (hs : within s []) : Bounding within capacity [] s :=
  ⟨.nil, Nat.zero_le _, hs⟩

end Bounding

/-- Around a cache with room for one key more, a layer that evicts by use tracks all that is stored. -/
lemma Lru.bounding {capacity : Capacity} (h : inner.Roomy (capacity.count + 1) bottom within) :
    (around inner).Keeps (fun _ => True) fun s =>
      s.1.capacity = capacity ∧ Bounding within capacity s.1.order.keys s.2 := by
  constructor
  · rintro ⟨own, rest⟩ call key value - ⟨rfl, hs⟩
    have hlength : (own.order.touch key).keys.length ≤ own.capacity.count + 1 := by
      have hfilter : (own.order.keys.filter (· ≠ key)).length ≤ own.order.keys.length :=
        List.length_filter_le ..
      have hbound : own.order.keys.length ≤ own.capacity.count := hs.length
      show (own.order.keys.filter (· ≠ key)).length + 1 ≤ _
      omega
    -- the value is stored before a key goes, so there is one key more for a while
    obtain ⟨stored, hput, hstored⟩ :=
      h.put call value (h.mono hs.within Recency.subset_touch) List.mem_cons_self hlength
    have hstep : ((around inner).put call key value (own, rest)).2 =
        ({ own with order := ⟨(own.order.touch key).keys.take own.capacity.count⟩ },
          (inner.removeAll call.next ((own.order.touch key).keys.drop own.capacity.count).reverse
            stored).2) := by
      simp only [around, put, hput, Recency.shrink, Cache.lift]
    rw [hstep]
    refine ⟨rfl, Bounding.removeAll h call.next (Recency.nodup_touch hs.nodup) ?_ ?_
      (List.take_sublist ..) (fun other hother => ?_) hstored⟩
    · exact List.length_take_le ..
    · rw [List.length_reverse, List.length_drop]
      omega
    · rw [List.mem_reverse, ← List.mem_append, List.take_append_drop]
      exact hother
  · rintro ⟨own, rest⟩ call key ⟨rfl, hs⟩
    obtain ⟨outcome, rest', hget, hrest'⟩ := h.get call key hs.within
    have hperm := own.order.refresh_perm key
    simp only [around, get, hget]
    exact ⟨rfl, hperm.nodup_iff.2 hs.nodup, hperm.length_eq.trans_le hs.length,
      h.mono hrest' hperm.symm.subset⟩
  · exact fun call key hs => ⟨hs.1, hs.2.remove h call key⟩
  · intro s call hs
    obtain ⟨rest, hclear, hrest⟩ := h.clear call hs.2.within
    simp only [around, clear, hclear]
    exact ⟨hs.1, .clear hrest⟩
  · exact fun call hs => ⟨hs.1, hs.2.nodup, hs.2.length, h.size call hs.2.within⟩
  · exact fun call key hs => ⟨hs.1, hs.2.nodup, hs.2.length, h.release call key hs.2.within⟩

/-- So does a layer that evicts in order of insertion. -/
lemma Fifo.bounding {capacity : Capacity} (h : inner.Roomy (capacity.count + 1) bottom within) :
    (around inner).Keeps (fun _ => True) fun s =>
      s.1.capacity = capacity ∧ Bounding within capacity s.1.queue s.2 := by
  constructor
  · rintro ⟨own, rest⟩ call key value - ⟨rfl, hs⟩
    have hlength : (enqueue own.queue key).length ≤ own.capacity.count + 1 := by
      have henqueue : (enqueue own.queue key).length ≤ own.queue.length + 1 := length_enqueue_le
      have hbound : own.queue.length ≤ own.capacity.count := hs.length
      omega
    have hqueued : within rest (enqueue own.queue key) :=
      h.mono hs.within fun other hother => mem_enqueue.2 (.inl hother)
    generalize hoverflow : (enqueue own.queue key).length - own.capacity.count = overflow
    have hcleared : Bounding within own.capacity ((enqueue own.queue key).drop overflow)
        (inner.removeAll call ((enqueue own.queue key).take overflow) rest).2 := by
      refine Bounding.removeAll h call (nodup_enqueue hs.nodup) ?_ ?_ (List.drop_sublist ..)
        (fun other hother => ?_) hqueued
      · rw [List.length_drop]
        omega
      · rw [List.length_take]
        omega
      · rw [or_comm, ← List.mem_append, List.take_append_drop]
        exact hother
    rcases hremove : inner.removeAll call ((enqueue own.queue key).take overflow) rest with ⟨outcome, rest'⟩
    rw [hremove] at hcleared
    cases outcome with
    | error e =>
      have hstep : ((around inner).put call key value (own, rest)).2 =
          ({ own with queue := (enqueue own.queue key).drop overflow }, rest') := by
        simp only [around, put, hoverflow, hremove]
      rw [hstep]
      exact ⟨rfl, hcleared⟩
    | ok u =>
      have hkey : key ∈ (enqueue own.queue key).drop overflow :=
        hoverflow ▸ mem_drop_enqueue own.capacity.positive hs.length
      obtain ⟨stored, hput, hstored⟩ := h.put (if overflow = 0 then call else call.next) value
        hcleared.within hkey (Nat.le_succ_of_le hcleared.length)
      have hstep : ((around inner).put call key value (own, rest)).2 =
          ({ own with queue := (enqueue own.queue key).drop overflow }, stored) := by
        simp only [around, put, hoverflow, hremove, hput, Cache.lift]
      rw [hstep]
      exact ⟨rfl, hcleared.nodup, hcleared.length, hstored⟩
  · intro s call key hs
    obtain ⟨outcome, rest, hget, hrest⟩ := h.get call key hs.2.within
    simp only [around, Cache.forward, hget]
    exact ⟨hs.1, hs.2.nodup, hs.2.length, hrest⟩
  · exact fun call key hs => ⟨hs.1, hs.2.remove h call key⟩
  · intro s call hs
    obtain ⟨rest, hclear, hrest⟩ := h.clear call hs.2.within
    simp only [around, clear, hclear]
    exact ⟨hs.1, .clear hrest⟩
  · exact fun call hs => ⟨hs.1, hs.2.nodup, hs.2.length, h.size call hs.2.within⟩
  · exact fun call key hs => ⟨hs.1, hs.2.nodup, hs.2.length, h.release call key hs.2.within⟩

end LayeredCache
