import LayeredCache.Layer.Model
import LayeredCache.Proofs.Cache.Invariant
import LayeredCache.Proofs.Json.RoundTrip
import LayeredCache.Proofs.Layer.Storage
import LayeredCache.Proofs.Layer.Tracking

/-!
# Layers that act on the entries directly

Serialization, logging and synchronization neither clear nor evict. As long as the texts of all values that
are put can be read, none of their operations fails, and each of them does to the entries what it says. So a
layer that evicts around such layers tracks the stored keys and no others.
-/

namespace LayeredCache

variable {σ : Type}

/-! ## Caches without clearing and eviction -/

/-- No operation fails in a `legible` state, as long as what is put is among `values`, and each has its
effect on the entries and no other. What is found is `held`. -/
structure Cache.Direct (cache : Cache σ) (bottom : σ → Perpetual) (values held : Json → Prop)
    (legible : σ → Prop) : Prop where
  put {s} (call key) {value} : values value → legible s → ∃ stored s', cache.put call key value s = (.ok (), s') ∧
    bottom s' = (bottom s).insert key stored ∧ legible s'
  get {s} (call key) : legible s → ∃ found s', cache.get call key s = .done (.ok found) s' ∧
    bottom s' = bottom s ∧ legible s' ∧ ∀ value, found = some value → held value
  remove {s} (call key) : legible s → ∃ found s', cache.remove call key s = (.ok found, s') ∧
    bottom s' = (bottom s).erase key ∧ legible s' ∧ ∀ value, found = some value → held value
  clear {s} (call) : legible s → ∃ s', cache.clear call s = (.ok (), s') ∧
    bottom s' = .empty (bottom s).id ∧ legible s'
  size {s} (call) : legible s → bottom (cache.size call s).2 = bottom s ∧ legible (cache.size call s).2
  release {s} (call key) : legible s →
    bottom (cache.release call key s) = bottom s ∧ legible (cache.release call key s)

variable {inner : Cache σ} {bottom : σ → Perpetual} {values held : Json → Prop} {legible : σ → Prop}

/-- Less needs to be known of what is found. -/
lemma Cache.Direct.mono {held' : Json → Prop} (h : inner.Direct bottom values held legible)
    (hheld : ∀ value, held value → held' value) : inner.Direct bottom values held' legible := by
  constructor
  · exact h.put
  · intro s call key hs
    obtain ⟨found, s', hget, hsame, hs', hfound⟩ := h.get call key hs
    exact ⟨found, s', hget, hsame, hs', fun value hvalue => hheld value (hfound value hvalue)⟩
  · intro s call key hs
    obtain ⟨found, s', hremove, herase, hs', hfound⟩ := h.remove call key hs
    exact ⟨found, s', hremove, herase, hs', fun value hvalue => hheld value (hfound value hvalue)⟩
  · exact h.clear
  · exact h.size
  · exact h.release

/-- The storage holds what is put. -/
lemma Perpetual.direct (values : Json → Prop) :
    Perpetual.cache.Direct (fun p => p) values values fun p => ∀ key value, p.get? key = some value → values value := by
  constructor
  · intro p call key value hvalue hp
    refine ⟨value, p.insert key value, rfl, rfl, fun other held hheld => ?_⟩
    rw [get?_insert] at hheld
    split at hheld
    · exact Option.some.inj hheld ▸ hvalue
    · exact hp other held hheld
  · exact fun {p} _ key hp => ⟨p.get? key, p, rfl, rfl, hp, fun value hvalue => hp key value hvalue⟩
  · intro p call key hp
    refine ⟨p.get? key, p.erase key, rfl, rfl, fun other held hheld => ?_, fun value hvalue => hp key value hvalue⟩
    rw [get?_erase] at hheld
    split at hheld
    · cases hheld
    · exact hp other held hheld
  · exact fun {p} _ _ => ⟨empty p.id, rfl, rfl, nofun⟩
  · exact fun _ hp => ⟨rfl, hp⟩
  · exact fun _ _ hp => ⟨rfl, hp⟩

lemma Cache.Direct.forward (h : inner.Direct bottom values held legible) {τ : Type} (kept : τ → Prop) :
    (Cache.forward τ inner).Direct (fun s => bottom s.2) values held fun s => kept s.1 ∧ legible s.2 := by
  constructor
  · intro s call key value hvalue hs
    obtain ⟨stored, rest, hput, hinsert, hrest⟩ := h.put call key hvalue hs.2
    refine ⟨stored, (s.1, rest), ?_, hinsert, hs.1, hrest⟩
    simp only [Cache.forward, hput]
    rfl
  · intro s call key hs
    obtain ⟨found, rest, hget, hsame, hrest, hfound⟩ := h.get call key hs.2
    refine ⟨found, (s.1, rest), ?_, hsame, ⟨hs.1, hrest⟩, hfound⟩
    simp only [Cache.forward, hget]
    rfl
  · intro s call key hs
    obtain ⟨found, rest, hremove, herase, hrest, hfound⟩ := h.remove call key hs.2
    refine ⟨found, (s.1, rest), ?_, herase, ⟨hs.1, hrest⟩, hfound⟩
    simp only [Cache.forward, hremove]
    rfl
  · intro s call hs
    obtain ⟨rest, hclear, hempty, hrest⟩ := h.clear call hs.2
    refine ⟨(s.1, rest), ?_, hempty, hs.1, hrest⟩
    simp only [Cache.forward, hclear]
    rfl
  · intro s call hs
    obtain ⟨hsame, hrest⟩ := h.size call hs.2
    exact ⟨hsame, hs.1, hrest⟩
  · intro s call key hs
    obtain ⟨hsame, hrest⟩ := h.release call key hs.2
    exact ⟨hsame, hs.1, hrest⟩

lemma Logging.direct (h : inner.Direct bottom values held legible) :
    (around inner).Direct (fun s => bottom s.2) values held fun s => True ∧ legible s.2 := by
  have hforward := h.forward fun _ : Logging => True
  constructor
  · exact hforward.put
  · intro s call key hs
    obtain ⟨found, rest, hget, hsame, hrest, hfound⟩ := h.get call key hs.2
    refine ⟨found, (⟨s.1.counts.record found.isSome⟩, rest), ?_, hsame, ⟨trivial, hrest⟩, hfound⟩
    simp only [around, hget]
    rfl
  · exact hforward.remove
  · exact hforward.clear
  · exact hforward.size
  · exact hforward.release

lemma Synchronized.direct (h : inner.Direct bottom values held legible) :
    (around inner).Direct (fun s => bottom s.2) values held fun s => s.1 = free ∧ legible s.2 := by
  have hforward := h.forward fun own : Synchronized => own = free
  constructor
  · exact hforward.put
  · rintro ⟨_, rest⟩ call key ⟨rfl, hrest⟩
    obtain ⟨found, rest', hget, hsame, hrest', hfound⟩ := h.get call key hrest
    refine ⟨found, (free, rest'), ?_, hsame, ⟨rfl, hrest'⟩, hfound⟩
    simp only [around, get, inside, free, hget]
    rfl
  · exact hforward.remove
  · exact hforward.clear
  · exact hforward.size
  · exact hforward.release

/-- The text of a value. -/
def Json.IsTextOf (values : Json → Prop) (text : Json) : Prop :=
  ∃ value, values value ∧ text = Serialized.encode value

/-- What is read from the text of a value. -/
def Json.IsReadOf (values : Json → Prop) (v : Json) : Prop :=
  ∃ value, values value ∧ Json.read value.print = .ok v

/-- Over a cache that holds texts of values, each of them is read. -/
lemma Serialized.direct (hread : ∀ value, values value → value.Readable)
    (h : inner.Direct bottom (Json.IsTextOf values) (Json.IsTextOf values) legible) :
    (around inner).Direct (fun s => bottom s.2) values (Json.IsReadOf values) fun s => True ∧ legible s.2 := by
  have hforward := h.forward fun _ : Serialized => True
  -- what is found beneath is the text of a value, if anything
  have hdecode (id : String) {found : Option Json} (hfound : ∀ text, found = some text → Json.IsTextOf values text) :
      ∃ found', decodeFound id (.ok found) = .ok found' ∧ ∀ v, found' = some v → Json.IsReadOf values v := by
    cases found with
    | none => exact ⟨none, rfl, nofun⟩
    | some text =>
      obtain ⟨value, hvalue, rfl⟩ := hfound text rfl
      obtain ⟨v, hv⟩ := hread value hvalue
      exact ⟨some v, decodeFound_of_read id hv, fun v' hv' => ⟨value, hvalue, Option.some.inj hv' ▸ hv⟩⟩
  constructor
  · exact fun call key value hvalue hs => hforward.put call key ⟨value, hvalue, rfl⟩ hs
  · intro s call key hs
    obtain ⟨found, rest, hget, hsame, hrest, hfound⟩ := h.get call key hs.2
    obtain ⟨found', hdecoded, hfound'⟩ := hdecode (inner.id s.2) hfound
    refine ⟨found', (s.1, rest), ?_, hsame, ⟨trivial, hrest⟩, hfound'⟩
    simp only [around, hget, Action.outward, hdecoded]
  · intro s call key hs
    obtain ⟨found, rest, hremove, herase, hrest, hfound⟩ := h.remove call key hs.2
    obtain ⟨found', hdecoded, hfound'⟩ := hdecode (inner.id rest) hfound
    refine ⟨found', (s.1, rest), ?_, herase, ⟨trivial, hrest⟩, hfound'⟩
    simp only [around, hremove, hdecoded]
  · exact hforward.clear
  · exact hforward.size
  · exact hforward.release

/-! ## Keys that are stored and tracked -/

/-- Keys that are removed one after another are gone, and no others. -/
lemma Cache.Direct.removeAll (h : inner.Direct bottom values held legible) (call : Call) (keys : List String)
    {s : σ} (hs : legible s) : ∃ s', inner.removeAll call keys s = (.ok (), s') ∧
      (∀ key, key ∈ (bottom s').keys ↔ key ∈ (bottom s).keys ∧ key ∉ keys) ∧ legible s' := by
  induction keys generalizing s call with
  | nil => exact ⟨s, rfl, by simp, hs⟩
  | cons first keys ih =>
    obtain ⟨found, rest, hremove, herase, hrest, -⟩ := h.remove call first hs
    obtain ⟨s', hremoveAll, hkeys, hs'⟩ := ih call.next hrest
    refine ⟨s', ?_, fun key => ?_, hs'⟩
    · rw [Cache.removeAll, hremove]
      exact hremoveAll
    · rw [hkeys, herase, Perpetual.mem_keys_erase, List.mem_cons, not_or, and_assoc]

/-- A list of the stored keys, each once. -/
structure Perpetual.Tracked (p : Perpetual) (tracked : List String) : Prop where
  nodup : tracked.Nodup
  mem (key) : key ∈ p.keys ↔ key ∈ tracked

namespace Perpetual.Tracked

variable {p p' : Perpetual} {tracked kept gone : List String}

lemma size (h : p.Tracked tracked) : p.size = tracked.length := by
  have hperm : p.keys.Perm tracked := (List.perm_ext_iff_of_nodup p.distinct h.nodup).2 h.mem
  exact (List.length_map _).symm.trans hperm.length_eq

lemma remove (h : p.Tracked tracked) (key : String) : (p.erase key).Tracked (tracked.filter (· ≠ key)) := by
  refine ⟨h.nodup.filter _, fun other => ?_⟩
  rw [mem_keys_erase, h.mem, List.mem_filter]
  simp

lemma insert (h : p.Tracked tracked) (key : String) (value : Json) :
    (p.insert key value).Tracked (tracked.insert key) := by
  refine ⟨h.nodup.insert, fun other => ?_⟩
  rw [mem_keys_insert, h.mem, List.mem_insert_iff]

lemma touch {r : Recency} (h : p.Tracked r.keys) (key : String) (value : Json) :
    (p.insert key value).Tracked (r.touch key).keys := by
  refine ⟨Recency.nodup_touch h.nodup, fun other => ?_⟩
  rw [mem_keys_insert, h.mem]
  show _ ↔ other ∈ key :: r.keys.filter (· ≠ key)
  by_cases hother : other = key <;> simp [hother]

lemma enqueue (h : p.Tracked tracked) (key : String) (value : Json) :
    (p.insert key value).Tracked (Fifo.enqueue tracked key) := by
  refine ⟨Fifo.nodup_enqueue h.nodup, fun other => ?_⟩
  rw [mem_keys_insert, h.mem, Fifo.mem_enqueue, or_comm]

lemma perm {tracked' : List String} (h : p.Tracked tracked) (hperm : tracked'.Perm tracked) : p.Tracked tracked' :=
  ⟨hperm.nodup_iff.2 h.nodup, fun key => (h.mem key).trans hperm.mem_iff.symm⟩

/-- Some of the keys are no longer stored, and the others are tracked. -/
lemma without (h : p.Tracked tracked) (hsplit : (kept ++ gone).Perm tracked)
    (hkeys : ∀ key, key ∈ p'.keys ↔ key ∈ p.keys ∧ key ∉ gone) : p'.Tracked kept := by
  obtain ⟨hkept, -, hdisjoint⟩ := List.nodup_append.1 (hsplit.nodup_iff.2 h.nodup)
  refine ⟨hkept, fun key => ?_⟩
  rw [hkeys, h.mem, ← hsplit.mem_iff, List.mem_append]
  constructor
  · rintro ⟨hkept | hgone, hnot⟩
    · exact hkept
    · exact absurd hgone hnot
  · exact fun hmem => ⟨.inl hmem, fun hgone => hdisjoint key hmem key hgone rfl⟩

end Perpetual.Tracked

/-- Around a direct cache, a layer that evicts by use tracks the stored keys. -/
lemma Lru.tracking (h : inner.Direct bottom values held legible) :
    (around inner).Keeps values fun s => (bottom s.2).Tracked s.1.order.keys ∧ legible s.2 := by
  constructor
  · intro s call key value hvalue hs
    obtain ⟨stored, rest, hput, hinsert, hrest⟩ := h.put call key hvalue hs.2
    have htouched : (bottom rest).Tracked (s.1.order.touch key).keys := hinsert ▸ hs.1.touch key stored
    obtain ⟨rest', hremove, hkeys, hrest'⟩ :=
      h.removeAll call.next ((s.1.order.touch key).keys.drop s.1.capacity.count).reverse hrest
    have hstep : ((around inner).put call key value s).2 =
        ({ s.1 with order := ⟨(s.1.order.touch key).keys.take s.1.capacity.count⟩ }, rest') := by
      simp only [around, put, hput, Recency.shrink, Cache.lift, hremove]
    rw [hstep]
    refine ⟨htouched.without ?_ hkeys, hrest'⟩
    exact ((List.reverse_perm _).append_left _).trans (.of_eq (List.take_append_drop ..))
  · intro s call key hs
    obtain ⟨found, rest, hget, hsame, hrest, -⟩ := h.get call key hs.2
    simp only [around, get, hget]
    exact ⟨hsame ▸ hs.1.perm (s.1.order.refresh_perm key), hrest⟩
  · intro s call key hs
    obtain ⟨found, rest, hremove, herase, hrest, -⟩ := h.remove call key hs.2
    simp only [around, remove, hremove]
    exact ⟨herase ▸ hs.1.remove key, hrest⟩
  · intro s call hs
    obtain ⟨rest, hclear, hempty, hrest⟩ := h.clear call hs.2
    simp only [around, clear, hclear]
    exact ⟨hempty ▸ ⟨.nil, fun key => .rfl⟩, hrest⟩
  · intro s call hs
    obtain ⟨hsame, hrest⟩ := h.size call hs.2
    exact ⟨hsame ▸ hs.1, hrest⟩
  · intro s call key hs
    obtain ⟨hsame, hrest⟩ := h.release call key hs.2
    exact ⟨hsame ▸ hs.1, hrest⟩

/-- So does one that evicts in order of insertion. -/
lemma Fifo.tracking (h : inner.Direct bottom values held legible) :
    (around inner).Keeps values fun s => s.1.queue.length ≤ s.1.capacity.count ∧
      (bottom s.2).Tracked s.1.queue ∧ legible s.2 := by
  constructor
  · intro s call key value hvalue hs
    obtain ⟨hlength, htracked, hlegible⟩ := hs
    have hkey := @notMem_take_enqueue s.1.queue key _ s.1.capacity.positive hlength
    have hqueue := htracked.enqueue key value
    generalize hoverflow : (enqueue s.1.queue key).length - s.1.capacity.count = overflow at hkey
    obtain ⟨rest, hremove, hkeys, hrest⟩ := h.removeAll call ((enqueue s.1.queue key).take overflow) hlegible
    obtain ⟨stored, rest', hput, hinsert, hrest'⟩ :=
      h.put (if overflow = 0 then call else call.next) key hvalue hrest
    have hstep : ((around inner).put call key value s).2 =
        ({ s.1 with queue := (enqueue s.1.queue key).drop overflow }, rest') := by
      simp only [around, put, hoverflow, hremove, hput, Cache.lift]
    rw [hstep]
    have hsplit : ((enqueue s.1.queue key).drop overflow ++ (enqueue s.1.queue key).take overflow).Perm
        (enqueue s.1.queue key) := List.perm_append_comm.trans (.of_eq (List.take_append_drop ..))
    refine ⟨?_, hqueue.without hsplit fun other => ?_, hrest'⟩
    · show ((enqueue s.1.queue key).drop overflow).length ≤ s.1.capacity.count
      rw [List.length_drop]
      omega
    · rw [hinsert, Perpetual.mem_keys_insert, Perpetual.mem_keys_insert, hkeys]
      -- the key that is put does not go again
      constructor
      · rintro (rfl | ⟨hother, hnot⟩)
        · exact ⟨.inl rfl, hkey⟩
        · exact ⟨.inr hother, hnot⟩
      · rintro ⟨rfl | hother, hnot⟩
        · exact .inl rfl
        · exact .inr ⟨hother, hnot⟩
  · intro s call key hs
    obtain ⟨found, rest, hget, hsame, hrest, -⟩ := h.get call key hs.2.2
    simp only [around, Cache.forward, hget]
    exact ⟨hs.1, hsame ▸ hs.2.1, hrest⟩
  · intro s call key hs
    obtain ⟨found, rest, hremove, herase, hrest, -⟩ := h.remove call key hs.2.2
    simp only [around, remove, hremove]
    exact ⟨Nat.le_trans (List.length_filter_le ..) hs.1, herase ▸ hs.2.1.remove key, hrest⟩
  · intro s call hs
    obtain ⟨rest, hclear, hempty, hrest⟩ := h.clear call hs.2.2
    simp only [around, clear, hclear]
    exact ⟨Nat.zero_le _, hempty ▸ ⟨.nil, fun key => .rfl⟩, hrest⟩
  · intro s call hs
    obtain ⟨hsame, hrest⟩ := h.size call hs.2.2
    exact ⟨hs.1, hsame ▸ hs.2.1, hrest⟩
  · intro s call key hs
    obtain ⟨hsame, hrest⟩ := h.release call key hs.2.2
    exact ⟨hs.1, hsame ▸ hs.2.1, hrest⟩

end LayeredCache
