import LayeredCache.Layer.Model
import LayeredCache.Proofs.Cache.Invariant

/-!
# Layers keep what the cache beneath them keeps

A layer changes the state beneath it by the operations of the inner cache alone, so a property of that
state that these operations keep is kept under any built-in layer.
-/

namespace LayeredCache

variable {σ : Type} {inner : Cache σ} {values : Json → Prop} {kept : σ → Prop}

lemma Cache.Keeps.forward (h : inner.Keeps values kept) (τ : Type) :
    (Cache.forward τ inner).Keeps values fun s => kept s.2 := by
  constructor
  · exact fun call key _ hvalue hs => h.put call key hvalue hs
  · exact fun call key hs => (h.get call key hs).outward ..
  · exact fun call key hs => h.remove call key hs
  · exact fun call hs => h.clear call hs
  · exact fun call hs => h.size call hs
  · exact fun call key hs => h.release call key hs

lemma Lru.keeps (h : inner.Keeps values kept) : (around inner).Keeps values fun s => kept s.2 := by
  have hforward := h.forward Lru
  constructor
  · intro s call key value hvalue hs
    have hrest := h.put call key hvalue hs
    show kept (put inner call key value s).2.2
    rw [put]
    rcases hput : inner.put call key value s.2 with ⟨outcome, rest⟩
    rw [hput] at hrest
    cases outcome with
    | error e => exact hrest
    | ok u => exact h.removeAll call.next _ hrest
  · exact fun call key hs => (h.get call key hs).outward ..
  · exact hforward.remove
  · intro s call hs
    have hrest := h.clear call hs
    show kept (clear inner call s).2.2
    rw [clear]
    rcases hclear : inner.clear call s.2 with ⟨outcome, rest⟩
    rw [hclear] at hrest
    cases outcome <;> exact hrest
  · exact hforward.size
  · exact hforward.release

lemma Fifo.keeps (h : inner.Keeps values kept) : (around inner).Keeps values fun s => kept s.2 := by
  have hforward := h.forward Fifo
  constructor
  · intro s call key value hvalue hs
    have hrest := h.removeAll call ((enqueue s.1.queue key).take
      ((enqueue s.1.queue key).length - s.1.capacity.count)) hs
    show kept (put inner call key value s).2.2
    simp only [put]
    rcases hremove : inner.removeAll call ((enqueue s.1.queue key).take
      ((enqueue s.1.queue key).length - s.1.capacity.count)) s.2 with ⟨outcome, rest⟩
    rw [hremove] at hrest
    cases outcome with
    | error e => exact hrest
    | ok u => exact h.put _ key hvalue hrest
  · exact hforward.get
  · exact hforward.remove
  · intro s call hs
    have hrest := h.clear call hs
    show kept (clear inner call s).2.2
    rw [clear]
    rcases hclear : inner.clear call s.2 with ⟨outcome, rest⟩
    rw [hclear] at hrest
    cases outcome <;> exact hrest
  · exact hforward.size
  · exact hforward.release

namespace Scheduled

/-- A clear may come before a step. -/
private lemma keeps_afterClear (h : inner.Keeps values kept) {α : Type}
    {step : Call → σ → Except CacheError α × σ} (call : Call) {s : Scheduled × σ}
    (hstep : ∀ call s, kept s → kept (step call s).2) (hs : kept s.2) :
    kept (afterClear inner step call s).2.2 := by
  rw [afterClear]
  cases s.1.isStale call with
  | false => exact hstep call s.2 hs
  | true =>
    have hrest := h.clear call hs
    simp only [clear, Cache.lift, if_true]
    rcases hclear : inner.clear call s.2 with ⟨outcome, rest⟩
    rw [hclear] at hrest
    cases outcome with
    | error e => exact hrest
    | ok u => exact hstep call.next rest hrest

lemma keeps (h : inner.Keeps values kept) : (around inner).Keeps values fun s => kept s.2 := by
  constructor
  · exact fun call key _ hvalue hs => keeps_afterClear h call (fun call s hs => h.put call key hvalue hs) hs
  · intro s call key hs
    show (get inner call key s).Keeps _
    rw [get]
    split
    · exact (Cache.keeps_gated call (fun call s hs => h.clear call hs) hs).outward ..
    · exact (h.get call key hs).outward ..
  · exact fun call key hs => keeps_afterClear h call (fun call s hs => h.remove call key hs) hs
  · exact fun call hs => h.clear call hs
  · exact fun call hs => keeps_afterClear h call (fun call s hs => h.size call hs) hs
  · exact fun call key hs => h.release call key hs

end Scheduled

/-- The inner cache is given texts, which must be among the values too. -/
lemma Serialized.keeps (htexts : ∀ value, values value → values (encode value))
    (h : inner.Keeps values kept) : (around inner).Keeps values fun s => kept s.2 := by
  have hforward := h.forward Serialized
  constructor
  · exact fun call key value hvalue hs => h.put call key (htexts value hvalue) hs
  · exact fun call key hs => (h.get call key hs).outward ..
  · exact fun call key hs => h.remove call key hs
  · exact hforward.clear
  · exact hforward.size
  · exact hforward.release

lemma Logging.keeps (h : inner.Keeps values kept) : (around inner).Keeps values fun s => kept s.2 := by
  have hforward := h.forward Logging
  constructor
  · exact hforward.put
  · exact fun call key hs => (h.get call key hs).outward ..
  · exact hforward.remove
  · exact hforward.clear
  · exact hforward.size
  · exact hforward.release

/-- Nothing changes beneath synchronization while a lookup waits for the lock. -/
lemma Synchronized.keeps (h : inner.Keeps values kept) :
    (around inner).Keeps values fun s => kept s.2 := by
  have hforward := h.forward Synchronized
  constructor
  · exact hforward.put
  · intro s call key hs
    show (get inner call key s).Keeps _
    rw [get]
    split
    · exact ⟨hs, fun now s hs => (h.get { call with now } key hs).outward ..⟩
    · exact (h.get call key hs).outward ..
  · exact hforward.remove
  · exact hforward.clear
  · exact hforward.size
  · exact hforward.release

/-- Nothing changes beneath blocking while a lookup waits for its key. -/
lemma Blocking.keeps (h : inner.Keeps values kept) : (around inner).Keeps values fun s => kept s.2 := by
  have hforward := h.forward Blocking
  have hadmitted (call : Call) (key : String) (own : Blocking) {rest : σ} (hrest : kept rest) :
      (admitted inner call key (own, rest)).Keeps fun s => kept s.2 := (h.get call key hrest).outward ..
  constructor
  · exact fun call key _ hvalue hs => h.put call key hvalue hs
  · intro s call key hs
    show (get inner call key s).Keeps _
    unfold get
    split
    · exact hadmitted call key _ hs
    · split
      · exact hs
      · refine ⟨hs, fun now s hs => ?_⟩
        dsimp only
        split
        · exact hadmitted _ key _ hs
        · exact hs
  · exact fun call key hs => h.remove call key hs
  · exact hforward.clear
  · exact hforward.size
  · exact fun call key hs => hs

/-- Every built-in layer keeps what the cache beneath it keeps. -/
theorem DecoratorKind.keeps {E : Extension} (kind : DecoratorKind E)
    (hbuiltIn : ∀ added, kind ≠ .added added)
    (htexts : ∀ value, values value → values (Serialized.encode value)) (h : inner.Keeps values kept) :
    (kind.model.around inner).Keeps values fun s => kept s.2 := by
  cases kind with
  | lru => exact Lru.keeps h
  | fifo => exact Fifo.keeps h
  | scheduled => exact Scheduled.keeps h
  | serialized => exact Serialized.keeps htexts h
  | logging => exact Logging.keeps h
  | synchronized => exact Synchronized.keeps h
  | blocking => exact Blocking.keeps h
  | added added => exact absurd rfl (hbuiltIn added)

end LayeredCache
