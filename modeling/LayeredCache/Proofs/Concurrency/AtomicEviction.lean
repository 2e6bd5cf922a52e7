import LayeredCache.Proofs.Assembly.TimelyEviction
import LayeredCache.Proofs.Layer.Sections

/-!
# Eviction under one lock

A layer that evicts over the perpetual storage has one lock for the keys that it tracks and another for the
entries, and takes them in turns. Under synchronization, the tracked keys are the stored keys whenever nobody
is in the middle of an operation, and every operation gives what it would give without other threads.
-/

namespace LayeredCache

variable {σ : Type}

/-! ## Operations of several threads, one after another -/

namespace Cache

/-- The outcomes of operations, each performed when the one before it has ended, and the state after them.
There are none if an operation waits forever. -/
def inTurn (cache : Cache σ) : List (Call × Operation Json) → σ → Option (List Outcome × σ)
  | [], s => some ([], s)
  | (call, operation) :: calls, s =>
    match (cache.perform call s operation).alone call.now with
    | none => none
    | some (outcome, s, _) => (inTurn cache calls s).map fun (outcomes, s) => (outcome :: outcomes, s)

variable {cache : Cache σ} {parts : Sections σ}

/-- A lock that nobody has changes nothing. -/
lemma SplitsInto.perform_synchronized (h : cache.SplitsInto parts) (call : Call) (s : σ)
    (operation : Operation Json) :
    (Synchronized.around cache).perform call (.free, s) operation =
      .ofResult (Cache.lift Synchronized.free ((parts.script call operation).run s)) := by
  have hfree : (Synchronized.around cache).unlocked (.free, s) = true := h.unlocked s
  cases operation with
  | put key value =>
    rw [Cache.perform, gated_of_unlocked hfree, Sections.script, Script.run_map, ← h.put]
    rfl
  | get key =>
    show ((Synchronized.inside (cache.get call key s)).map _ : Action _ Outcome) = _
    rw [h.get, Sections.script, Script.run_map]
    rfl
  | remove key =>
    rw [Cache.perform, gated_of_unlocked hfree, Sections.script, Script.run_map, ← h.remove]
    rfl
  | clear =>
    rw [Cache.perform, gated_of_unlocked hfree, Sections.script, Script.run_map, ← h.clear]
    rfl
  | size =>
    rw [Cache.perform, gated_of_unlocked hfree, Sections.script, Script.run_map, ← h.size]
    rfl

lemma SplitsInto.inTurn_synchronized (h : cache.SplitsInto parts) (calls : List (Call × Operation Json)) (s : σ) :
    (Synchronized.around cache).inTurn calls (.free, s) =
      some (Cache.lift Synchronized.free (Sectioned.inTurn parts.script calls s)) := by
  induction calls generalizing s with
  | nil => rfl
  | cons entry calls ih =>
    have hrest := ih ((parts.script entry.1 entry.2).run s).2
    simp only [inTurn, h.perform_synchronized, Action.ofResult, Action.alone, Cache.lift, hrest]
    rfl

/-- What every operation keeps holds after operations in turn. -/
lemma Keeps.inTurn {kept : σ → Prop} (hsplits : cache.SplitsInto parts)
    (h : cache.Keeps (fun _ => True) kept) (calls : List (Call × Operation Json)) {s : σ} (hs : kept s) :
    kept (Sectioned.inTurn parts.script calls s).2 := by
  induction calls generalizing s with
  | nil => exact hs
  | cons entry calls ih =>
    have hkeeps := h.perform entry.1 (show entry.2.Puts fun _ => True by cases entry.2 <;> trivial) hs
    rw [hsplits.perform] at hkeeps
    exact ih hkeeps

end Cache

/-! ## Layers that evict -/

namespace Eviction

variable {E : Extension}

/-- The sections of a layer that evicts over the perpetual storage. -/
def sections (policy : Eviction) (capacity : Capacity) :
    Sections (Chain (E := E) .perpetual [(policy.layer capacity).kind]) :=
  match policy with
  | .leastRecent => Lru.sections Perpetual.sections
  | .firstIn => Fifo.sections Perpetual.sections

lemma splits (policy : Eviction) (capacity : Capacity) :
    (Chain.cache (E := E) .perpetual [(policy.layer capacity).kind]).SplitsInto (policy.sections capacity) := by
  cases policy with
  | leastRecent => exact Lru.splits Perpetual.splits
  | firstIn => exact Fifo.splits Perpetual.splits

/-- The tracked keys are the stored keys, each once, and at most as many as the capacity says. -/
structure Tidy (capacity : Capacity) (kind : DecoratorKind E) (s : Chain .perpetual [kind]) : Prop where
  tracked : (Chain.bottom _ s).Tracked (Chain.tracked _ s)
  length : (Chain.tracked _ s).length ≤ capacity.count

lemma always_tidy (policy : Eviction) (capacity : Capacity) (id : String) :
    Chain.Always (E := E) (fun _ => True) (.empty id) [policy.layer capacity]
      (Tidy capacity (policy.layer capacity).kind) := by
  cases policy with
  | leastRecent =>
    refine ⟨_, (Lru.tracking (Perpetual.direct _)).and (Lru.bounding (Perpetual.roomy _)),
      ⟨⟨⟨.nil, fun _ => .rfl⟩, nofun⟩, rfl, .clear (List.Subset.refl _)⟩, fun s hs => ⟨hs.1.1, hs.2.2.length⟩⟩
  | firstIn =>
    refine ⟨_, (Fifo.tracking (Perpetual.direct _)).and (Fifo.bounding (Perpetual.roomy _)),
      ⟨⟨Nat.zero_le _, ⟨.nil, fun _ => .rfl⟩, nofun⟩, rfl, .clear (List.Subset.refl _)⟩,
      fun s hs => ⟨hs.1.2.1, hs.2.2.length⟩⟩

/-- Whatever sections of different threads the lock lets alternate, as soon as nobody is in the middle of an
operation the tracked keys are the stored keys, each once, and no more than there is capacity for. Every
operation has returned what it gives if all operations are performed one after another, in the order in which
they took the lock. -/
theorem synchronized_eq_inTurn (policy : Eviction) (capacity : Capacity) (id : String)
    {s : Sectioned.Shared (Chain (E := E) .perpetual [(policy.layer capacity).kind])}
    (h : Sectioned.Steps (policy.sections capacity).script
      (.start (Chain.ofLayers (.empty id) [policy.layer capacity])) s)
    (hidle : ∀ thread, s.place thread = .idle) :
    (Chain.tracked _ s.state).Nodup ∧
    (∀ key, key ∈ (Chain.bottom _ s.state).keys ↔ key ∈ Chain.tracked _ s.state) ∧
    (Chain.tracked _ s.state).length ≤ capacity.count ∧
    ∃ outcomes, (Chain.cache .perpetual [.synchronized, (policy.layer capacity).kind]).inTurn s.taken
        (Synchronized.free, Chain.ofLayers (.empty id) [policy.layer capacity]) =
          some (outcomes, Synchronized.free, s.state) ∧
      ∀ turn, s.returned turn = outcomes[turn]? := by
  obtain ⟨hstate, hreturned⟩ := Sectioned.eq_inTurn_of_idle h hidle
  obtain ⟨kept, hkeeps, hfirst, htidy⟩ := always_tidy (E := E) policy capacity id
  have hsplits := policy.splits (E := E) capacity
  have hs : Tidy capacity (policy.layer capacity).kind s.state :=
    htidy _ (hstate ▸ hkeeps.inTurn hsplits s.taken hfirst)
  refine ⟨hs.tracked.nodup, hs.tracked.mem, hs.length, _, ?_, hreturned⟩
  have hturns := hsplits.inTurn_synchronized s.taken (Chain.ofLayers (.empty id) [policy.layer capacity])
  rw [hstate]
  exact hturns

open Sectioned in
/-- Two threads put a key each where there is room for one. The second waits for the lock, and has it before
the first returns. -/
theorem synchronized_eq_inTurn_evicting : ∃ s : Shared (Chain (E := .nothing) .perpetual [.lru]),
    Steps (sections .leastRecent ⟨1, by decide⟩).script
      (.start (Chain.ofLayers (.empty "users") [layer .leastRecent ⟨1, by decide⟩])) s ∧
    (∀ thread, s.place thread = .idle) ∧
    s.taken = [(.at 1 0, .put "a" .null), (.at 2 0, .put "b" .null)] ∧
    Chain.tracked _ s.state = ["b"] ∧ "b" ∈ (Chain.bottom _ s.state).keys ∧
    "a" ∉ (Chain.bottom _ s.state).keys ∧ s.returned 1 = some (.ok .stored) := by
  obtain ⟨s, hsteps, hidle, htaken, htracked⟩ :
      ∃ s : Shared (Chain (E := .nothing) .perpetual [.lru]),
        Steps (sections .leastRecent ⟨1, by decide⟩).script
          (.start (Chain.ofLayers (.empty "users") [layer .leastRecent ⟨1, by decide⟩])) s ∧
        (∀ thread, s.place thread = .idle) ∧
        s.taken = [(.at 1 0, .put "a" .null), (.at 2 0, .put "b" .null)] ∧ Chain.tracked _ s.state = ["b"] := by
    refine ⟨_, .tail (.tail (.tail (.tail (.tail (.tail (.tail (.tail (.tail (.tail (.tail (.tail (.tail .refl
      (.call 1 0 (.put "a" .null) rfl))
      (.call 2 0 (.put "b" .null) rfl))
      (@Step.take _ _ _ 1 _ _ rfl rfl))
      (@Step.advance _ _ _ 1 _ _ _ rfl))
      (@Step.advance _ _ _ 1 _ _ _ rfl))
      (@Step.free _ _ _ 1 _ _ rfl))
      (@Step.take _ _ _ 2 _ _ rfl rfl))
      (@Step.giveBack _ _ _ 1 _ _ rfl))
      (@Step.advance _ _ _ 2 _ _ _ rfl))
      (@Step.advance _ _ _ 2 _ _ _ rfl))
      (@Step.advance _ _ _ 2 _ _ _ rfl))
      (@Step.free _ _ _ 2 _ _ rfl))
      (@Step.giveBack _ _ _ 2 _ _ rfl), fun thread => ?_, rfl, rfl⟩
    simp only [Shared.goTo, Shared.start, Function.update_apply]
    split_ifs <;> rfl
  obtain ⟨-, hstored, -, outcomes, hturns, hreturned⟩ :=
    synchronized_eq_inTurn .leastRecent ⟨1, by decide⟩ "users" hsteps hidle
  rw [htaken] at hturns
  have houtcomes : [.ok .stored, .ok .stored] = outcomes := (Prod.mk.inj (Option.some.inj hturns)).1
  refine ⟨s, hsteps, hidle, htaken, htracked, (hstored "b").2 ?_, fun hmem => ?_, ?_⟩
  · exact htracked ▸ List.mem_singleton_self "b"
  · have htracked' : "a" ∈ ["b"] := htracked ▸ (hstored "a").1 hmem
    exact absurd htracked' (by decide)
  · rw [hreturned, ← houtcomes]
    rfl

end Eviction

end LayeredCache
