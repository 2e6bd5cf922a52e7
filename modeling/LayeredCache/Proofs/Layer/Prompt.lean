import LayeredCache.Layer.Model
import LayeredCache.Proofs.Cache.Program

/-!
# Caches that answer at once

From a state in which its locks are free, a prompt cache has an outcome of every operation at once, and
its locks are free afterwards. Every built-in layer but blocking makes a prompt cache of a prompt one.
-/

namespace LayeredCache

variable {σ : Type}

/-- Every operation that begins with free locks ends at once, and with free locks. -/
structure Cache.Prompt (cache : Cache σ) : Prop where
  put {s} (call key value) : cache.unlocked s = true →
    cache.unlocked (cache.put call key value s).2 = true
  get {s} (call key) : cache.unlocked s = true →
    ∃ outcome s', cache.get call key s = .done outcome s' ∧ cache.unlocked s' = true
  remove {s} (call key) : cache.unlocked s = true → cache.unlocked (cache.remove call key s).2 = true
  clear {s} (call) : cache.unlocked s = true → cache.unlocked (cache.clear call s).2 = true
  size {s} (call) : cache.unlocked s = true → cache.unlocked (cache.size call s).2 = true

/-- An operation of a program on a prompt cache. -/
lemma Cache.Prompt.perform {cache : Cache σ} (h : cache.Prompt) {s : σ} (hs : cache.unlocked s = true)
    (call : Call) (operation : Operation Json) :
    ∃ outcome s', cache.perform call s operation = .done outcome s' ∧ cache.unlocked s' = true := by
  cases operation with
  | put key value =>
    refine ⟨(cache.put call key value s).1.map fun () => .stored, _, ?_, h.put call key value hs⟩
    rw [Cache.perform, Cache.gated_of_unlocked hs]
    rfl
  | get key =>
    obtain ⟨outcome, s', hget, hs'⟩ := h.get call key hs
    refine ⟨outcome.map .found, s', ?_, hs'⟩
    rw [Cache.perform, hget]
    rfl
  | remove key =>
    refine ⟨(cache.remove call key s).1.map .removed, _, ?_, h.remove call key hs⟩
    rw [Cache.perform, Cache.gated_of_unlocked hs]
    rfl
  | clear =>
    refine ⟨(cache.clear call s).1.map fun () => .cleared, _, ?_, h.clear call hs⟩
    rw [Cache.perform, Cache.gated_of_unlocked hs]
    rfl
  | size =>
    refine ⟨(cache.size call s).1.map .counted, _, ?_, h.size call hs⟩
    rw [Cache.perform, Cache.gated_of_unlocked hs]
    rfl

/-! ## Built-in layers -/

lemma Perpetual.prompt : Perpetual.cache.Prompt :=
  ⟨fun _ _ _ _ => rfl, fun _ _ _ => ⟨_, _, rfl, rfl⟩, fun _ _ _ => rfl, fun _ _ => rfl, fun _ _ => rfl⟩

variable {inner : Cache σ}

lemma Cache.Prompt.forward (h : inner.Prompt) (τ : Type) : (Cache.forward τ inner).Prompt := by
  constructor
  · exact fun call key value hs => h.put call key value hs
  · intro s call key hs
    obtain ⟨outcome, rest, hget, hrest⟩ := h.get call key hs
    refine ⟨outcome, (s.1, rest), ?_, hrest⟩
    simp only [Cache.forward, hget]
    rfl
  · exact fun call key hs => h.remove call key hs
  · exact fun call hs => h.clear call hs
  · exact fun call hs => h.size call hs

lemma Cache.Prompt.removeAll (h : inner.Prompt) (keys : List String) {s : σ} (call : Call)
    (hs : inner.unlocked s = true) : inner.unlocked (inner.removeAll call keys s).2 = true := by
  induction keys generalizing s call with
  | nil => exact hs
  | cons key keys ih =>
    have hrest := h.remove call key hs
    rw [Cache.removeAll]
    rcases hremove : inner.remove call key s with ⟨outcome, rest⟩
    rw [hremove] at hrest
    cases outcome with
    | error e => exact hrest
    | ok found => exact ih call.next hrest

lemma Lru.prompt (h : inner.Prompt) : (around inner).Prompt := by
  constructor
  · intro s call key value hs
    have hrest := h.put call key value hs
    show inner.unlocked (put inner call key value s).2.2 = true
    rw [put]
    rcases hput : inner.put call key value s.2 with ⟨outcome, rest⟩
    rw [hput] at hrest
    cases outcome with
    | error e => exact hrest
    | ok u => exact h.removeAll _ call.next hrest
  · intro s call key hs
    obtain ⟨outcome, rest, hget, hrest⟩ := h.get call key hs
    refine ⟨outcome, ({ s.1 with order := (s.1.order.refresh key).2 }, rest), ?_, hrest⟩
    simp only [around, get, hget]
    rfl
  · exact fun call key hs => h.remove call key hs
  · intro s call hs
    have hrest := h.clear call hs
    show inner.unlocked (clear inner call s).2.2 = true
    rw [clear]
    rcases hclear : inner.clear call s.2 with ⟨outcome, rest⟩
    rw [hclear] at hrest
    cases outcome <;> exact hrest
  · exact fun call hs => h.size call hs

lemma Fifo.prompt (h : inner.Prompt) : (around inner).Prompt := by
  constructor
  · intro s call key value hs
    have hrest := h.removeAll ((enqueue s.1.queue key).take
      ((enqueue s.1.queue key).length - s.1.capacity.count)) call hs
    show inner.unlocked (put inner call key value s).2.2 = true
    simp only [put]
    rcases hremove : inner.removeAll call ((enqueue s.1.queue key).take
      ((enqueue s.1.queue key).length - s.1.capacity.count)) s.2 with ⟨outcome, rest⟩
    rw [hremove] at hrest
    cases outcome with
    | error e => exact hrest
    | ok u => exact h.put _ key value hrest
  · exact fun call key hs => (h.forward Fifo).get call key hs
  · exact fun call key hs => h.remove call key hs
  · intro s call hs
    have hrest := h.clear call hs
    show inner.unlocked (clear inner call s).2.2 = true
    rw [clear]
    rcases hclear : inner.clear call s.2 with ⟨outcome, rest⟩
    rw [hclear] at hrest
    cases outcome <;> exact hrest
  · exact fun call hs => h.size call hs

namespace Scheduled

/-- A clear that comes first leaves the locks free for the step after it. -/
private lemma unlocked_afterClear (h : inner.Prompt) {α : Type}
    {step : Call → σ → Except CacheError α × σ} (call : Call) {s : Scheduled × σ}
    (hs : inner.unlocked s.2 = true)
    (hstep : ∀ call s, inner.unlocked s = true → inner.unlocked (step call s).2 = true) :
    inner.unlocked (afterClear inner step call s).2.2 = true := by
  rw [afterClear]
  cases s.1.isStale call with
  | false => exact hstep call s.2 hs
  | true =>
    have hrest := h.clear call hs
    simp only [clear, Cache.lift, if_true]
    rcases hclear : inner.clear call s.2 with ⟨outcome, rest⟩
    rw [hclear] at hrest
    cases outcome with
    | error e => exact hrest
    | ok u => exact hstep call.next rest hrest

lemma prompt (h : inner.Prompt) : (around inner).Prompt := by
  constructor
  · exact fun call key value hs => unlocked_afterClear h call hs fun call _ hs => h.put call key value hs
  · intro s call key hs
    show ∃ outcome s', get inner call key s = .done outcome s' ∧ inner.unlocked s'.2 = true
    rw [get]
    cases s.1.isStale call with
    | false =>
      obtain ⟨outcome, rest, hget, hrest⟩ := h.get call key hs
      refine ⟨outcome, (s.1, rest), ?_, hrest⟩
      simp only [hget, Bool.false_eq_true, if_false]
      rfl
    | true =>
      -- the lookup ends with the clear
      have hfree : inner.unlocked s.2 = true := hs
      have hrest := h.clear call hfree
      refine ⟨(inner.clear call s.2).1.map fun () => none, (s.1.restart call, (inner.clear call s.2).2), ?_,
        hrest⟩
      rw [Cache.gated_of_unlocked hfree, if_pos rfl]
      rfl
  · exact fun call key hs => unlocked_afterClear h call hs fun call _ hs => h.remove call key hs
  · exact fun call hs => h.clear call hs
  · exact fun call hs => unlocked_afterClear h call hs fun call _ hs => h.size call hs

end Scheduled

lemma Serialized.prompt (h : inner.Prompt) : (around inner).Prompt := by
  constructor
  · exact fun call key value hs => h.put call key _ hs
  · intro s call key hs
    obtain ⟨outcome, rest, hget, hrest⟩ := h.get call key hs
    refine ⟨decodeFound (inner.id s.2) outcome, (s.1, rest), ?_, hrest⟩
    simp only [around, hget]
    rfl
  · exact fun call key hs => h.remove call key hs
  · exact fun call hs => h.clear call hs
  · exact fun call hs => h.size call hs

lemma Logging.prompt (h : inner.Prompt) : (around inner).Prompt := by
  constructor
  · exact fun call key value hs => h.put call key value hs
  · intro s call key hs
    obtain ⟨outcome, rest, hget, hrest⟩ := h.get call key hs
    refine ⟨(record outcome s.1).1, ((record outcome s.1).2, rest), ?_, hrest⟩
    simp only [around, hget]
    rfl
  · exact fun call key hs => h.remove call key hs
  · exact fun call hs => h.clear call hs
  · exact fun call hs => h.size call hs

lemma Synchronized.prompt (h : inner.Prompt) : (around inner).Prompt := by
  have hsplit {s : Synchronized × σ} (hs : (around inner).unlocked s = true) :
      s.1.locked = false ∧ inner.unlocked s.2 = true := by
    have hboth : (!s.1.locked && inner.unlocked s.2) = true := hs
    simpa using hboth
  have hjoin {s : Synchronized × σ} (hfree : s.1.locked = false) (hs : inner.unlocked s.2 = true) :
      (around inner).unlocked s = true := by
    show (!s.1.locked && inner.unlocked s.2) = true
    rw [hfree, hs]
    rfl
  constructor
  · exact fun call key value hs => hjoin (hsplit hs).1 (h.put call key value (hsplit hs).2)
  · intro s call key hs
    obtain ⟨hfree, hs⟩ := hsplit hs
    obtain ⟨outcome, rest, hget, hrest⟩ := h.get call key hs
    refine ⟨outcome, (free, rest), ?_, hjoin rfl hrest⟩
    simp only [around, get, hfree, inside, hget]
    rfl
  · exact fun call key hs => hjoin (hsplit hs).1 (h.remove call key (hsplit hs).2)
  · exact fun call hs => hjoin (hsplit hs).1 (h.clear call (hsplit hs).2)
  · exact fun call hs => hjoin (hsplit hs).1 (h.size call (hsplit hs).2)

end LayeredCache
