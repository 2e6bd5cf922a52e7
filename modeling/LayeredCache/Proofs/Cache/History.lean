import LayeredCache.Proofs.Cache.Invariant

/-!
# Histories

Operations that threads perform one after another on a cache, at instants that never go back, with their
outcomes and the states that they lead to. Between them, threads can give keys up.
-/

namespace LayeredCache

variable {σ V : Type}

/-- An operation that was performed: by whom and when, its outcome, and the state after it. -/
structure Event (σ : Type) where
  thread : Nat
  now : Nat
  operation : Operation Json
  outcome : Outcome
  after : σ

/-- The operation can leave the entry of the key as it is. -/
def Operation.Spares (key : String) : Operation V → Prop
  | .put other _ => other ≠ key
  | .get _ => True
  | .remove other => other ≠ key
  | .clear => False
  | .size => True

namespace Cache

/-- A history that begins in the state `first` at the instant `start`: its events, the latest one first, the
state that it leads to and the instant at which it ends. Every thread is among `threads` and every value that is
put among `values`. -/
inductive History (cache : Cache σ) (threads : Nat → Prop) (values : Json → Prop) (first : σ) (start : Nat) :
    List (Event σ) → σ → Nat → Prop
  | new : History cache threads values first start [] first start
  | perform {log s last thread now operation outcome s' later} :
    History cache threads values first start log s last → last ≤ now → threads thread →
    operation.Puts values →
    (cache.perform (.at thread now) s operation).alone now = some (outcome, s', later) →
    History cache threads values first start (⟨thread, now, operation, outcome, s'⟩ :: log) s' later
  | release {log s last thread now} (key : String) :
    History cache threads values first start log s last → last ≤ now → threads thread →
    History cache threads values first start log (cache.release (.at thread now) key s) now

variable {cache : Cache σ} {threads : Nat → Prop} {values : Json → Prop} {first s : σ} {start last : Nat}
  {log : List (Event σ)}

/-- What every operation of one of the threads keeps, and every release, holds after every history. -/
lemma History.holds {ok : Nat → σ → Prop} (h : cache.History threads values first start log s last)
    (hperform : ∀ {s thread now operation outcome s' later}, ok now s → threads thread →
      operation.Puts values →
      (cache.perform (.at thread now) s operation).alone now = some (outcome, s', later) → ok later s')
    (hrelease : ∀ {s thread now} key, ok now s → threads thread → ok now (cache.release (.at thread now) key s))
    (hlater : ∀ {m n s}, ok m s → m ≤ n → ok n s) (hfirst : ok start first) : ok last s := by
  induction h with
  | new => exact hfirst
  | perform _ hle hthread hputs hperformed ih => exact hperform (hlater ih hle) hthread hputs hperformed
  | release key _ hle hthread ih => exact hrelease key (hlater ih hle) hthread

end Cache

end LayeredCache
