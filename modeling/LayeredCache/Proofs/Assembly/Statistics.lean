import LayeredCache.Proofs.Assembly.Steps
import LayeredCache.Proofs.Concurrency.Counting

/-!
# What a built cache counts

Every cache that is built over the perpetual storage has a layer that logs, and around it only layers that
pass lookups on one for one. So its statistics are the lookups that its callers have seen, whatever layers
are beneath.
-/

namespace LayeredCache

variable {E : Extension}

/-! ## Stacks that count -/

/-- The stack counts lookups, and has counted none. -/
def Stack.Counts (stack : Stack E) : Prop :=
  ∃ counts, stack.cache.Counts counts ∧ counts stack.state = .none

namespace Stack

variable {stack : Stack E}

lemma counts_logging (stack : Stack E) : (stack.wrap .logging Logging.empty).Counts :=
  ⟨_, Logging.countsLookups stack.cache, rfl⟩

lemma Counts.synchronized (h : stack.Counts) (own : Synchronized) :
    (stack.wrap .synchronized own).Counts := by
  obtain ⟨counts, hcounts, hnone⟩ := h
  exact ⟨_, Synchronized.countsLookups hcounts, hnone⟩

lemma Counts.blocking (h : stack.Counts) (own : Blocking) : (stack.wrap .blocking own).Counts := by
  obtain ⟨counts, hcounts, hnone⟩ := h
  exact ⟨_, Blocking.countsLookups hcounts, hnone⟩

end Stack

namespace Spec

variable {spec : Spec E} {now : Nat} {stack : Stack E}

/-- What is built is a stack that counts, under synchronization, and with blocking if that is asked for. -/
lemma build_eq_counting (hbuild : spec.build now = .ok stack)
    (hperpetual : spec.storage.isPerpetual = true) :
    ∃ inner : Stack E, (inner.wrap .synchronized Synchronized.free).Counts ∧
      stack = (inner.wrap .synchronized Synchronized.free).wrapAll
        (if spec.blocking then [⟨.blocking, Blocking.empty spec.blockingTimeout⟩] else []) := by
  obtain ⟨-, -, layers, layers', -, -, rfl⟩ := (build_eq_ok hperpetual).1 hbuild
  let serialized : List (Layer E) := if spec.readWrite then [⟨.serialized, Serialized.mk⟩] else []
  let beneath := (((Stack.base .perpetual (Perpetual.empty spec.id)).wrapAll layers').wrapAll
    (spec.scheduledLayers now)).wrapAll serialized
  refine ⟨beneath.wrap .logging Logging.empty, (Stack.counts_logging beneath).synchronized _, ?_⟩
  simp only [standardLayers, syncedLayers, Stack.wrapAll_append]
  rfl

/-- The statistics of a built cache count every lookup that found a value as a hit, every lookup that found
none as a miss, and nothing else, whatever the threads do and in any order. The same holds when other threads
act between the steps of a blocking lookup, as soon as nobody is in the middle of an operation. -/
theorem stats_eq_tally (hbuild : spec.build now = .ok stack)
    (hperpetual : spec.storage.isPerpetual = true) :
    (∀ start session, Session.Reaches stack.cache (fun _ => True) (.new stack.state start) session →
      stack.cache.stats session.state = some (.tally (session.outcomes.map Prod.snd))) ∧
    ∀ ds own state, stack = ⟨.perpetual, .blocking :: ds, (own, state)⟩ →
      ∀ s, Blocking.Steps (Chain.cache .perpetual ds) (.start own.timeout state) s →
        (∀ thread, s.phase thread = .idle) →
        (Chain.cache .perpetual (.blocking :: ds)).stats (s.blocking, s.inner) = some (.tally s.returned) := by
  obtain ⟨inner, hinner, hstack⟩ := build_eq_counting hbuild hperpetual
  refine ⟨fun start session hreaches => ?_, fun ds own state heq s hsteps hidle => ?_⟩
  · have hcounts : stack.Counts := by
      rw [hstack]
      split
      · exact hinner.blocking _
      · exact hinner
    obtain ⟨counts, hcounts, hnone⟩ := hcounts
    rw [hcounts.stats, (hreaches.counted hcounts hnone).state]
  · obtain ⟨storage, kinds, first⟩ := inner
    rw [hstack] at heq
    split at heq
    · cases heq
      obtain ⟨counts, hcounts, hnone⟩ := hinner
      have htally := Blocking.counts_of_idle hcounts hnone hsteps hidle
      exact (hcounts.stats s.inner).trans (congrArg some htally)
    · cases heq

/-- A further layer that logs, and lookups that wait five milliseconds. -/
def logsTwice : Spec .nothing :=
  { Spec.new "users" with
    decorators := [.decorator .logging]
    blocking := true
    blockingTimeout := some (5 * nanosPerMilli) }

/-- A thread finds nothing, another one waits too long for it, and finds the value that is put then. -/
theorem stats_logsTwice : ∃ stack session, logsTwice.build 0 = .ok stack ∧
    Session.Reaches stack.cache (fun _ => True) (.new stack.state 0) session ∧
    session.outcomes = [(2, .ok (.found (some .null))), (1, .ok .stored),
      (2, .error (.lockTimeout "users" "k" 5)), (1, .ok (.found none))] ∧
    stack.cache.stats session.state = some ⟨1, 1⟩ := by
  obtain ⟨stack, session, hbuild, hreaches, houtcomes⟩ : ∃ stack session, logsTwice.build 0 = .ok stack ∧
      Session.Reaches stack.cache (fun _ => True) (.new stack.state 0) session ∧
      session.outcomes = [(2, .ok (.found (some .null))), (1, .ok .stored),
        (2, .error (.lockTimeout "users" "k" 5)), (1, .ok (.found none))] :=
    ⟨_, _, rfl, .tail (.tail (.tail (.tail (.tail (.tail .refl
      (.perform _ 1 (.get "k") trivial))
      (.perform _ 2 (.get "k") trivial))
      (.pass _ 5000000))
      (.resume (show _ = [] ++ _ :: [] from rfl) (by decide +kernel)))
      (.perform _ 1 (.put "k" .null) trivial))
      (.perform _ 2 (.get "k") trivial), rfl⟩
  refine ⟨stack, session, hbuild, hreaches, houtcomes, ?_⟩
  rw [(stats_eq_tally hbuild rfl).1 0 session hreaches, houtcomes]
  rfl

end Spec

end LayeredCache
