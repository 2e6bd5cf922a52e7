import LayeredCache.Layer.Fifo
import LayeredCache.Layer.Lru
import LayeredCache.Proofs.Layer.BoundedMap

/-!
# Layers that evict

A layer that evicts follows a bounded map if the cache beneath it follows a plain map. The keys that the
layer tracks are those of the bounded map in the order of their ranks.
-/

namespace LayeredCache

variable {V σ : Type} {inner : Cache σ} {code : V → Json}

/-- Keys that are removed one after another are gone from the plain map. -/
lemma Matches.removeAll {related : σ → Entries V → Prop}
    (h : Matches (fun _ => True) inner Entries.ideal code related) (call : Call) (keys : List String)
    {s : σ} {m : Entries V} (hs : related s m) :
    ∃ s', inner.removeAll call keys s = (.ok (), s') ∧ related s' (Entries.eraseAll keys m) := by
  induction keys generalizing s m call with
  | nil =>
    rw [Entries.eraseAll_nil]
    exact ⟨s, rfl, hs⟩
  | cons key keys ih =>
    obtain ⟨rest, hremove, hrest⟩ := h.remove call key hs trivial
    obtain ⟨s', hkeys, hs'⟩ := ih call.next hrest
    rw [Entries.eraseAll_cons]
    refine ⟨s', ?_, hs'⟩
    simp only [Cache.removeAll, hremove, hkeys]

namespace BoundedMap

/-- What a layer that evicts knows: the keys of a bounded map in the order of their ranks, at most as many
as the capacity. -/
structure Tracked (capacity : Capacity) (keys : List String) (b : BoundedMap V) : Prop where
  bounded : keys.length ≤ capacity.count
  ordered : ∃ order, b.Ordered order ∧ order.map Slot.key = keys

namespace Tracked

variable {capacity : Capacity} {keys : List String} {b : BoundedMap V} {key : String}

lemma empty : Tracked (V := V) capacity [] .empty :=
  ⟨Nat.zero_le _, [], .empty, rfl⟩

lemma nodup (h : b.Tracked capacity keys) : keys.Nodup := by
  obtain ⟨order, horder, rfl⟩ := h.ordered
  exact horder.distinct

lemma find?_eq_none (h : b.Tracked capacity keys) : b.find? key = none ↔ key ∉ keys := by
  obtain ⟨order, horder, rfl⟩ := h.ordered
  refine ⟨fun hnone hkey => ?_, horder.find?_of_notMem⟩
  obtain ⟨slot, hslot, rfl⟩ := List.mem_map.1 hkey
  rw [horder.find?_of_mem hslot] at hnone
  cases hnone

private lemma map_filter (order : List (Slot V)) (key : String) :
    (order.filter (·.key ≠ key)).map Slot.key = (order.map Slot.key).filter (· ≠ key) := by
  rw [List.filter_map]
  rfl

lemma erase (h : b.Tracked capacity keys) (key : String) :
    (b.erase key).Tracked capacity (keys.filter (· ≠ key)) := by
  obtain ⟨order, horder, hkeys⟩ := h.ordered
  refine ⟨(List.length_filter_le ..).trans h.bounded, _, horder.erase key, ?_⟩
  rw [map_filter, hkeys]

private lemma length_moved (hkey : key ∈ keys) : (keys.filter (· ≠ key) ++ [key]).length ≤ keys.length := by
  have hlt : (keys.filter (· ≠ key)).length < keys.length :=
    List.length_filter_lt_length_iff_exists.2 ⟨key, hkey, by simp⟩
  rw [List.length_append, List.length_singleton]
  exact hlt

/-- A used key moves to the end. -/
lemma touch (h : b.Tracked capacity keys) (hkey : key ∈ keys) :
    (b.touch key).Tracked capacity (keys.filter (· ≠ key) ++ [key]) := by
  obtain ⟨order, horder, rfl⟩ := h.ordered
  refine ⟨(length_moved hkey).trans h.bounded, ?_⟩
  obtain ⟨slot, hslot, rfl⟩ := List.mem_map.1 hkey
  refine ⟨_, horder.touch hslot, ?_⟩
  rw [List.map_append, map_filter]
  rfl

/-- So does a key that is put again under eviction by use. -/
lemma put_leastRecent (h : b.Tracked capacity keys) (hkey : key ∈ keys) (value : V) :
    (b.put .leastRecent capacity.count key value).Tracked capacity (keys.filter (· ≠ key) ++ [key]) ∧
      (b.put .leastRecent capacity.count key value).entries =
        (key, value) :: Entries.erase key b.entries := by
  obtain ⟨order, horder, rfl⟩ := h.ordered
  obtain ⟨slot, hslot, rfl⟩ := List.mem_map.1 hkey
  rw [put, horder.find?_of_mem hslot]
  refine ⟨⟨(length_moved hkey).trans h.bounded, _, horder.store slot.key value, ?_⟩, entries_store ..⟩
  rw [List.map_append, map_filter]
  rfl

/-- In order of insertion, a key that is put again stays where it is. -/
lemma put_firstIn (h : b.Tracked capacity keys) (hkey : key ∈ keys) (value : V) :
    (b.put .firstIn capacity.count key value).Tracked capacity keys ∧
      (b.put .firstIn capacity.count key value).entries =
        (key, value) :: Entries.erase key b.entries := by
  obtain ⟨order, horder, rfl⟩ := h.ordered
  obtain ⟨slot, hslot, rfl⟩ := List.mem_map.1 hkey
  rw [put, horder.find?_of_mem hslot]
  exact ⟨⟨h.bounded, horder.replace hslot value⟩, entries_store ..⟩

/-- A new key comes last, and the keys that exceed the capacity are gone from the front. -/
lemma put_new (h : b.Tracked capacity keys) (hkey : key ∉ keys) (policy : Eviction) (value : V) :
    (b.put policy capacity.count key value).Tracked capacity
        ((keys ++ [key]).drop ((keys ++ [key]).length - capacity.count)) ∧
      (b.put policy capacity.count key value).entries = (key, value) :: Entries.erase key
        (Entries.eraseAll ((keys ++ [key]).take ((keys ++ [key]).length - capacity.count)) b.entries) := by
  obtain ⟨order, horder, rfl⟩ := h.ordered
  have hbounded := h.bounded
  have hpositive := capacity.positive
  rw [List.length_map] at hbounded
  obtain ⟨hput, hentries⟩ := BoundedMap.put_new horder hpositive hbounded hkey policy value
  rw [List.length_append, List.length_singleton, List.length_map]
  have hexcess : order.length + 1 - capacity.count ≤ (order.map Slot.key).length := by
    rw [List.length_map]
    omega
  -- the new key is behind those that go
  rw [List.take_append_of_le_length hexcess]
  refine ⟨⟨?_, _, hput, ?_⟩, hentries⟩
  · rw [List.length_drop, List.length_append, List.length_singleton, List.length_map]
    omega
  · rw [List.drop_append_of_le_length hexcess, List.map_append, List.map_drop]
    rfl

/-- The new key itself does not exceed the capacity. -/
lemma notMem_exceeding (h : b.Tracked capacity keys) (hkey : key ∉ keys) :
    key ∉ (keys ++ [key]).take ((keys ++ [key]).length - capacity.count) := by
  have hbounded := h.bounded
  have hpositive := capacity.positive
  have hexcess : keys.length + 1 - capacity.count ≤ keys.length := by omega
  rw [List.length_append, List.length_singleton, List.take_append_of_le_length hexcess]
  exact fun hmem => hkey (List.mem_of_mem_take hmem)

end Tracked

end BoundedMap

/-! ## Eviction by use -/

namespace Recency

/-- The keys in the order in which they would be evicted, after a use. -/
lemma touch_reverse (keys : List String) (key : String) :
    (Recency.mk keys.reverse).touch key = ⟨(keys.filter (· ≠ key) ++ [key]).reverse⟩ := by
  rw [touch, remove, List.filter_reverse, List.reverse_append]
  rfl

lemma refresh_reverse {keys : List String} (hnodup : keys.Nodup) {key : String} (hkey : key ∈ keys) :
    ((Recency.mk keys.reverse).refresh key).2 = ⟨(keys.filter (· ≠ key) ++ [key]).reverse⟩ := by
  rw [refresh, if_pos (List.mem_reverse.2 hkey), (List.nodup_reverse.2 hnodup).erase_eq_filter,
    List.filter_reverse, List.reverse_append]
  refine congrArg (fun rest => Recency.mk (key :: rest.reverse)) (List.filter_congr fun other _ => ?_)
  by_cases h : other = key <;> simp [h]

lemma shrink_reverse (keys : List String) (n : Nat) :
    (Recency.mk keys.reverse).shrink n =
      (keys.take (keys.length - n), ⟨(keys.drop (keys.length - n)).reverse⟩) := by
  rw [shrink, List.drop_reverse, List.take_reverse, List.reverse_reverse]

end Recency

namespace Lru

/-- What relates the layer and the cache beneath it to a bounded map. -/
private def Related (capacity : Capacity) (related : σ → Entries V → Prop) (s : Lru × σ)
    (b : BoundedMap V) : Prop :=
  related s.2 b.entries ∧ s.1.capacity = capacity ∧
    ∃ keys, s.1.order = ⟨keys.reverse⟩ ∧ b.Tracked capacity keys

private lemma matches_put {capacity : Capacity} {related : σ → Entries V → Prop}
    (h : Matches (fun _ => True) inner Entries.ideal code related) {s : Lru × σ} {b : BoundedMap V}
    (call : Call) (key : String) (value : V) (hs : Related capacity related s b) :
    ∃ s', put inner call key (code value) s = (.ok (), s') ∧
      Related capacity related s' (b.put .leastRecent capacity.count key value) := by
  obtain ⟨⟨order, _⟩, rest⟩ := s
  obtain ⟨hrest, rfl, keys, rfl, htracked⟩ := hs
  rename_i capacity
  obtain ⟨stored, hput, hstored⟩ := h.put call key value hrest trivial
  simp only [put, hput, Recency.touch_reverse, Recency.shrink_reverse]
  by_cases hkey : key ∈ keys
  · -- no key is new, so none has to go
    obtain ⟨htracked', hentries⟩ := htracked.put_leastRecent hkey value
    have hnone : (keys.filter (· ≠ key) ++ [key]).length - capacity.count = 0 :=
      Nat.sub_eq_zero_of_le htracked'.bounded
    rw [hnone]
    refine ⟨(⟨⟨(keys.filter (· ≠ key) ++ [key]).reverse⟩, capacity⟩, stored), rfl, ?_, rfl, _, rfl,
      htracked'⟩
    rw [hentries]
    exact hstored
  · have hkeys : keys.filter (· ≠ key) = keys := by
      refine List.filter_eq_self.2 fun other hother => ?_
      have hne : other ≠ key := fun heq => hkey (heq ▸ hother)
      simpa using hne
    rw [hkeys]
    -- the layer stores first and removes then, the other way round than the reference
    obtain ⟨htracked', hentries⟩ := htracked.put_new hkey .leastRecent value
    obtain ⟨s', hremove, hs'⟩ := h.removeAll call.next
      ((keys ++ [key]).take ((keys ++ [key]).length - capacity.count)) hstored
    refine ⟨_, congrArg (Cache.lift _) hremove, ?_, rfl, _, rfl, htracked'⟩
    rw [hentries, ← Entries.eraseAll_erase,
      ← Entries.eraseAll_cons_of_notMem (htracked.notMem_exceeding hkey)]
    exact hs'

private lemma matches_get {capacity : Capacity} {related : σ → Entries V → Prop}
    (h : Matches (fun _ => True) inner Entries.ideal code related) {s : Lru × σ} {b : BoundedMap V}
    (call : Call) (key : String) (hs : Related capacity related s b) :
    ∃ s', get inner call key s = .done (.ok ((b.get .leastRecent key).1.map code)) s' ∧
      Related capacity related s' (b.get .leastRecent key).2 := by
  obtain ⟨⟨order, _⟩, rest⟩ := s
  obtain ⟨hrest, rfl, keys, rfl, htracked⟩ := hs
  rename_i capacity
  obtain ⟨rest', hget, hrest'⟩ := h.get call key hrest trivial
  have hfound : (Entries.ideal.get call.now key b.entries).1 = (b.get .leastRecent key).1 := by
    show b.entries.lookup key = _
    rw [BoundedMap.lookup_entries, BoundedMap.get]
    cases b.find? key <;> rfl
  rw [hfound] at hget
  simp only [get, hget]
  refine ⟨_, rfl, ?_⟩
  by_cases hkey : key ∈ keys
  · obtain ⟨slot, hslot⟩ := Option.ne_none_iff_exists'.1 fun hnone => htracked.find?_eq_none.1 hnone hkey
    rw [Recency.refresh_reverse htracked.nodup hkey, BoundedMap.get, hslot]
    refine ⟨?_, rfl, _, rfl, htracked.touch hkey⟩
    rw [BoundedMap.entries_touch]
    exact hrest'
  · -- a key that is not tracked is not found either
    have huntracked : ((Recency.mk keys.reverse).refresh key).2 = ⟨keys.reverse⟩ := by
      rw [Recency.refresh, if_neg (fun hmem => hkey (List.mem_reverse.1 hmem))]
    rw [huntracked, BoundedMap.get, htracked.find?_eq_none.2 hkey]
    exact ⟨hrest', rfl, keys, rfl, htracked⟩

/-- Eviction by use follows a bounded map. -/
lemma follows {s : σ} (capacity : Capacity)
    (h : inner.Follows (fun _ => True) Entries.ideal code s []) :
    (around inner).Follows (fun _ => True) (BoundedMap.ideal .leastRecent capacity.count) code
      (⟨.empty, capacity⟩, s) .empty := by
  obtain ⟨related, hmatches, hrelated⟩ := h
  refine ⟨Related capacity related, ?_, hrelated, rfl, [], rfl, .empty⟩
  constructor
  · exact fun hs => hmatches.unlocked hs.1
  · exact fun call key value hs _ => matches_put hmatches call key value hs
  · exact fun call key hs _ => matches_get hmatches call key hs
  · intro s b call key hs _
    obtain ⟨hrest, hcapacity, keys, hkeys, htracked⟩ := hs
    obtain ⟨rest, hremove, hrest⟩ := hmatches.remove call key hrest trivial
    have hfound : (Entries.ideal.remove call.now key b.entries).1 = (b.find? key).map Slot.value :=
      BoundedMap.lookup_entries b key
    rw [hfound] at hremove
    refine ⟨_, congrArg (Cache.lift _) hremove, ?_, hcapacity, keys.filter (· ≠ key), ?_,
      htracked.erase key⟩
    · rw [BoundedMap.ideal, BoundedMap.entries_erase]
      exact hrest
    · show s.1.order.remove key = _
      rw [hkeys, Recency.remove, List.filter_reverse]
  · intro s b call hs _
    obtain ⟨hrest, hcapacity, _⟩ := hs
    obtain ⟨rest, hclear, hrest⟩ := hmatches.clear call hrest trivial
    refine ⟨({ s.1 with order := .empty }, rest), ?_, hrest, hcapacity, [], rfl, .empty⟩
    simp only [around, clear, hclear]
  · intro s b call hs _
    obtain ⟨hrest, htracked⟩ := hs
    obtain ⟨rest, hsize, hrest⟩ := hmatches.size call hrest trivial
    refine ⟨(s.1, rest), ?_, hrest, htracked⟩
    simp only [around, Cache.forward, hsize]
    show Cache.lift s.1 (Except.ok b.entries.length, rest) = _
    rw [BoundedMap.length_entries]
    rfl

end Lru

/-! ## Eviction in order of insertion -/

namespace Fifo

/-- What relates the layer and the cache beneath it to a bounded map. -/
private def Related (capacity : Capacity) (related : σ → Entries V → Prop) (s : Fifo × σ)
    (b : BoundedMap V) : Prop :=
  related s.2 b.entries ∧ s.1.capacity = capacity ∧ b.Tracked capacity s.1.queue

private lemma matches_put {capacity : Capacity} {related : σ → Entries V → Prop}
    (h : Matches (fun _ => True) inner Entries.ideal code related) {s : Fifo × σ} {b : BoundedMap V}
    (call : Call) (key : String) (value : V) (hs : Related capacity related s b) :
    ∃ s', put inner call key (code value) s = (.ok (), s') ∧
      Related capacity related s' (b.put .firstIn capacity.count key value) := by
  obtain ⟨⟨queue, _⟩, rest⟩ := s
  obtain ⟨hrest, rfl, htracked⟩ := hs
  rename_i capacity
  -- the keys in excess go first, then the value is stored
  obtain ⟨cleared, hremove, hcleared⟩ := h.removeAll call
    ((enqueue queue key).take ((enqueue queue key).length - capacity.count)) hrest
  let call' := if (enqueue queue key).length - capacity.count = 0 then call else call.next
  obtain ⟨stored, hput, hstored⟩ := h.put call' key value hcleared trivial
  simp only [put, hremove]
  refine ⟨_, congrArg (Cache.lift _) hput, ?_⟩
  by_cases hkey : key ∈ queue
  · obtain ⟨htracked', hentries⟩ := htracked.put_firstIn hkey value
    have hnone : (enqueue queue key).length - capacity.count = 0 := by
      rw [enqueue, if_pos hkey]
      exact Nat.sub_eq_zero_of_le htracked.bounded
    rw [hnone, List.take_zero, Entries.eraseAll_nil] at hstored
    refine ⟨?_, rfl, ?_⟩
    · rw [hentries]
      exact hstored
    · show BoundedMap.Tracked _ ((enqueue queue key).drop _) _
      rw [hnone, List.drop_zero, enqueue, if_pos hkey]
      exact htracked'
  · obtain ⟨htracked', hentries⟩ := htracked.put_new hkey .firstIn value
    have hqueue : enqueue queue key = queue ++ [key] := if_neg hkey
    rw [hqueue] at hstored
    refine ⟨?_, rfl, ?_⟩
    · rw [hentries]
      exact hstored
    · show BoundedMap.Tracked _ ((enqueue queue key).drop _) _
      rw [hqueue]
      exact htracked'

/-- Eviction in order of insertion follows a bounded map. -/
lemma follows {s : σ} (capacity : Capacity)
    (h : inner.Follows (fun _ => True) Entries.ideal code s []) :
    (around inner).Follows (fun _ => True) (BoundedMap.ideal .firstIn capacity.count) code
      (⟨[], capacity⟩, s) .empty := by
  obtain ⟨related, hmatches, hrelated⟩ := h
  refine ⟨Related capacity related, ?_, hrelated, rfl, .empty⟩
  constructor
  · exact fun hs => hmatches.unlocked hs.1
  · exact fun call key value hs _ => matches_put hmatches call key value hs
  · intro s b call key hs _
    obtain ⟨hrest, htracked⟩ := hs
    obtain ⟨rest, hget, hrest⟩ := hmatches.get call key hrest trivial
    -- a lookup leaves the order alone
    have hideal : (BoundedMap.ideal .firstIn capacity.count).get call.now key b =
        (b.entries.lookup key, b) := by
      show b.get .firstIn key = _
      rw [BoundedMap.lookup_entries, BoundedMap.get]
      cases b.find? key <;> rfl
    rw [hideal]
    refine ⟨(s.1, rest), ?_, hrest, htracked⟩
    simp only [around, Cache.forward, hget]
    rfl
  · intro s b call key hs _
    obtain ⟨hrest, hcapacity, htracked⟩ := hs
    obtain ⟨rest, hremove, hrest⟩ := hmatches.remove call key hrest trivial
    have hfound : (Entries.ideal.remove call.now key b.entries).1 = (b.find? key).map Slot.value :=
      BoundedMap.lookup_entries b key
    rw [hfound] at hremove
    refine ⟨_, congrArg (Cache.lift _) hremove, ?_, hcapacity, htracked.erase key⟩
    rw [BoundedMap.ideal, BoundedMap.entries_erase]
    exact hrest
  · intro s b call hs _
    obtain ⟨hrest, hcapacity, _⟩ := hs
    obtain ⟨rest, hclear, hrest⟩ := hmatches.clear call hrest trivial
    refine ⟨({ s.1 with queue := [] }, rest), ?_, hrest, hcapacity, .empty⟩
    simp only [around, clear, hclear]
  · intro s b call hs _
    obtain ⟨hrest, htracked⟩ := hs
    obtain ⟨rest, hsize, hrest⟩ := hmatches.size call hrest trivial
    refine ⟨(s.1, rest), ?_, hrest, htracked⟩
    simp only [around, Cache.forward, hsize]
    show Cache.lift s.1 (Except.ok b.entries.length, rest) = _
    rw [BoundedMap.length_entries]
    rfl

end Fifo

end LayeredCache
