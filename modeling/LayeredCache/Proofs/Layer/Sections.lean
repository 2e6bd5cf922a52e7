import LayeredCache.Layer.Fifo
import LayeredCache.Layer.Lru
import LayeredCache.Layer.Perpetual
import LayeredCache.Proofs.Concurrency.Sections

/-!
# Sections of layers

An operation of the storage is a single section. An operation of a layer that evicts has sections of its own,
in which it reads and changes the keys that it tracks, between those of the inner cache.
-/

namespace LayeredCache

variable {σ τ α : Type}

/-! ## Caches in sections -/

/-- The sections of every operation of a cache. -/
structure Sections (σ : Type) where
  put : Call → String → Json → Script σ (Except CacheError Unit)
  get : Call → String → Script σ Found
  remove : Call → String → Script σ (Except CacheError (Option Json))
  clear : Call → Script σ (Except CacheError Unit)
  size : Call → Script σ (Except CacheError Nat)

/-- The sections of an operation. -/
def Sections.script (sections : Sections σ) (call : Call) : Operation Json → Script σ Outcome
  | .put key value => (sections.put call key value).map (·.map fun () => .stored)
  | .get key => (sections.get call key).map (·.map .found)
  | .remove key => (sections.remove call key).map (·.map .removed)
  | .clear => (sections.clear call).map (·.map fun () => .cleared)
  | .size => (sections.size call).map (·.map .counted)

/-- Keys that are removed one after another, up to the first failure. -/
def Sections.removeAll (sections : Sections σ) (call : Call) :
    List String → Script σ (Except CacheError Unit)
  | [] => .done (.ok ())
  | key :: keys => (sections.remove call key).bind fun
    | .ok _ => removeAll sections call.next keys
    | .error e => .done (.error e)

/-- One right after another, the sections of an operation are the operation, and none of them waits. -/
structure Cache.SplitsInto (cache : Cache σ) (sections : Sections σ) : Prop where
  put (call key value s) : cache.put call key value s = (sections.put call key value).run s
  get (call key s) : cache.get call key s = .ofResult ((sections.get call key).run s)
  remove (call key s) : cache.remove call key s = (sections.remove call key).run s
  clear (call s) : cache.clear call s = (sections.clear call).run s
  size (call s) : cache.size call s = (sections.size call).run s
  unlocked (s) : cache.unlocked s = true

namespace Cache.SplitsInto

variable {cache : Cache σ} {sections : Sections σ}

lemma removeAll (h : cache.SplitsInto sections) (call : Call) (keys : List String) (s : σ) :
    cache.removeAll call keys s = (sections.removeAll call keys).run s := by
  induction keys generalizing call s with
  | nil => rfl
  | cons key keys ih =>
    rw [Cache.removeAll, Sections.removeAll, Script.run_bind, h.remove]
    rcases (sections.remove call key).run s with ⟨outcome, rest⟩
    cases outcome with
    | error e => rfl
    | ok found => exact ih call.next rest

lemma perform (h : cache.SplitsInto sections) (call : Call) (s : σ) (operation : Operation Json) :
    cache.perform call s operation = .ofResult ((sections.script call operation).run s) := by
  have hfree := h.unlocked s
  cases operation with
  | put key value =>
    rw [Cache.perform, gated_of_unlocked hfree, h.put, Sections.script, Script.run_map]
    rfl
  | get key =>
    rw [Cache.perform, h.get, Sections.script, Script.run_map]
    rfl
  | remove key =>
    rw [Cache.perform, gated_of_unlocked hfree, h.remove, Sections.script, Script.run_map]
    rfl
  | clear =>
    rw [Cache.perform, gated_of_unlocked hfree, h.clear, Sections.script, Script.run_map]
    rfl
  | size =>
    rw [Cache.perform, gated_of_unlocked hfree, h.size, Sections.script, Script.run_map]
    rfl

end Cache.SplitsInto

/-! ## The storage -/

def Perpetual.sections : Sections Perpetual where
  put call key value := .once (Perpetual.cache.put call key value)
  get _ key := .once fun p => (.ok (p.get? key), p)
  remove call key := .once (Perpetual.cache.remove call key)
  clear call := .once (Perpetual.cache.clear call)
  size call := .once (Perpetual.cache.size call)

lemma Perpetual.splits : Perpetual.cache.SplitsInto sections :=
  ⟨fun _ _ _ _ => rfl, fun _ _ _ => rfl, fun _ _ _ => rfl, fun _ _ => rfl, fun _ _ => rfl, fun _ => rfl⟩

/-! ## Layers that evict -/

namespace Script

/-- A section on the layer's own part of the state. -/
def own (step : τ → α × τ) : Script (τ × σ) α :=
  .once fun s => ((step s.1).1, (step s.1).2, s.2)

/-- The sections of the inner cache, beneath a layer. -/
def beneath : Script σ α → Script (τ × σ) α
  | .done outcome => .done outcome
  | .locked change rest => .locked (fun s => (s.1, change s.2)) fun s => (rest s.2).beneath

@[simp]
lemma run_own (step : τ → α × τ) (s : τ × σ) : (own step).run s = ((step s.1).1, (step s.1).2, s.2) :=
  rfl

@[simp]
lemma run_beneath (script : Script σ α) (s : τ × σ) :
    script.beneath.run s = Cache.lift s.1 (script.run s.2) := by
  induction script generalizing s with
  | done outcome => rfl
  | locked change rest ih => exact ih s.2 (s.1, change s.2)

end Script

open Script

variable {inner : Cache σ} {parts : Sections σ}

/-- A put writes to the inner cache, then to the order of use, and then removes one key after another. A
lookup and a removal begin with the order of use, and a clear ends with it. -/
def Lru.sections (inner : Sections σ) : Sections (Lru × σ) where
  put call key value := (inner.put call key value).beneath.bind fun
    | .error e => .done (.error e)
    | .ok () => (own fun lru =>
        let (evicted, order) := (lru.order.touch key).shrink lru.capacity.count
        (evicted, { lru with order })).bind fun evicted => (inner.removeAll call.next evicted).beneath
  get call key := (own fun lru => ((), { lru with order := (lru.order.refresh key).2 })).bind fun () =>
    (inner.get call key).beneath
  remove call key := (own fun lru => ((), { lru with order := lru.order.remove key })).bind fun () =>
    (inner.remove call key).beneath
  clear call := (inner.clear call).beneath.bind fun
    | .error e => .done (.error e)
    | .ok () => own fun lru => (.ok (), { lru with order := .empty })
  size call := (inner.size call).beneath

lemma Lru.splits (h : inner.SplitsInto parts) : (around inner).SplitsInto (sections parts) := by
  constructor
  · intro call key value s
    show put inner call key value s = _
    rw [put, h.put, sections, run_bind, run_beneath, Cache.lift]
    rcases (parts.put call key value).run s.2 with ⟨outcome, rest⟩
    cases outcome with
    | error e => rfl
    | ok u => simp only [run_bind, run_own, run_beneath, h.removeAll]
  · intro call key s
    show get inner call key s = _
    rw [get, h.get, sections, run_bind, run_beneath]
    rfl
  · intro call key s
    show remove inner call key s = _
    rw [remove, h.remove, sections, run_bind, run_beneath]
    rfl
  · intro call s
    show clear inner call s = _
    rw [clear, h.clear, sections, run_bind, run_beneath, Cache.lift]
    rcases (parts.clear call).run s.2 with ⟨outcome, rest⟩
    cases outcome <;> rfl
  · intro call s
    show Cache.lift s.1 (inner.size call s.2) = _
    rw [h.size, sections, run_beneath]
  · exact fun s => h.unlocked s.2

/-- A put writes to the queue, then removes one key after another, and then writes to the inner cache. A
removal begins with the queue, and a clear ends with it. -/
def Fifo.sections (inner : Sections σ) : Sections (Fifo × σ) where
  put call key value := (own fun fifo =>
      let queue := enqueue fifo.queue key
      let overflow := queue.length - fifo.capacity.count
      ((overflow, queue.take overflow), { fifo with queue := queue.drop overflow })).bind
    fun (overflow, evicted) => (inner.removeAll call evicted).beneath.bind fun
      | .error e => .done (.error e)
      | .ok () => (inner.put (if overflow = 0 then call else call.next) key value).beneath
  get call key := (inner.get call key).beneath
  remove call key := (own fun fifo => ((), { fifo with queue := fifo.queue.filter (· ≠ key) })).bind fun () =>
    (inner.remove call key).beneath
  clear call := (inner.clear call).beneath.bind fun
    | .error e => .done (.error e)
    | .ok () => own fun fifo => (.ok (), { fifo with queue := [] })
  size call := (inner.size call).beneath

lemma Fifo.splits (h : inner.SplitsInto parts) : (around inner).SplitsInto (sections parts) := by
  constructor
  · intro call key value s
    show put inner call key value s = _
    simp only [put, sections, run_bind, run_own, run_beneath, h.removeAll, Cache.lift]
    rcases (parts.removeAll call _).run s.2 with ⟨outcome, rest⟩
    cases outcome with
    | error e => rfl
    | ok u =>
      simp only [run_beneath, h.put, Cache.lift]
      rfl
  · intro call key s
    show (inner.get call key s.2).outward _ s.1 = _
    rw [h.get, sections, run_beneath]
    rfl
  · intro call key s
    show remove inner call key s = _
    rw [remove, h.remove, sections, run_bind, run_beneath]
    rfl
  · intro call s
    show clear inner call s = _
    rw [clear, h.clear, sections, run_bind, run_beneath, Cache.lift]
    rcases (parts.clear call).run s.2 with ⟨outcome, rest⟩
    cases outcome <;> rfl
  · intro call s
    show Cache.lift s.1 (inner.size call s.2) = _
    rw [h.size, sections, run_beneath]
  · exact fun s => h.unlocked s.2

end LayeredCache
