import LayeredCache.Cache.Operations
import Mathlib.Tactic.Common

/-!
# Programs of one thread

A program is a list of operations, each with the instant of its call. A cache runs it operation after
operation for one thread; a reference runs it on a state of its own and knows neither errors nor waiting.
-/

namespace LayeredCache

/-- An operation with a value of type `V`. -/
inductive Operation (V : Type) where
  | put (key : String) (value : V)
  | get (key : String)
  | remove (key : String)
  | clear
  | size

/-- What an operation gives if it does not fail. -/
inductive Answer (V : Type) where
  | stored
  | found (value : Option V)
  | removed (value : Option V)
  | cleared
  | counted (n : Nat)
  deriving DecidableEq

variable {V W σ α : Type}

def Operation.map (f : V → W) : Operation V → Operation W
  | .put key value => .put key (f value)
  | .get key => .get key
  | .remove key => .remove key
  | .clear => .clear
  | .size => .size

def Answer.map (f : V → W) : Answer V → Answer W
  | .stored => .stored
  | .found value => .found (value.map f)
  | .removed value => .removed (value.map f)
  | .cleared => .cleared
  | .counted n => .counted n

/-! ## Programs on a cache -/

/-- What becomes of an operation in a program. -/
abbrev Outcome := Except CacheError (Answer Json)

/-- The outcome is changed in the end, after all waiting. -/
lemma Action.alone_map {ρ υ : Type} (f : ρ → υ) (action : Action σ ρ) (now : Nat) :
    (action.map f).alone now = (action.alone now).map fun (outcome, s, later) => (f outcome, s, later) := by
  induction action generalizing now with
  | done outcome s => rfl
  | waiting deadline ready s resume ih =>
    cases deadline with
    | none => rfl
    | some deadline => exact ih (max now deadline) s (max now deadline)

namespace Cache

/-- One operation. All but a lookup begin when every lock on their way is free. -/
def perform (cache : Cache σ) (call : Call) (s : σ) : Operation Json → Action σ Outcome
  | .put key value =>
    (cache.gated (fun call => cache.put call key value) call s).map (·.map fun () => .stored)
  | .get key => (cache.get call key s).map (·.map .found)
  | .remove key => (cache.gated (fun call => cache.remove call key) call s).map (·.map .removed)
  | .clear => (cache.gated cache.clear call s).map (·.map fun () => .cleared)
  | .size => (cache.gated cache.size call s).map (·.map .counted)

/-- The outcomes of a program while no other thread acts, and the state after it. There are none if an
operation waits forever. -/
def run (cache : Cache σ) (thread : Nat) :
    List (Nat × Operation Json) → σ → Option (List Outcome × σ)
  | [], s => some ([], s)
  | (now, operation) :: program, s =>
    match (cache.perform (.at thread now) s operation).alone now with
    | none => none
    | some (outcome, s, _) =>
      (run cache thread program s).map fun (outcomes, s) => (outcome :: outcomes, s)

lemma gated_of_unlocked {ρ : Type} {cache : Cache σ} {operation : Call → σ → ρ × σ} {call : Call} {s : σ}
    (h : cache.unlocked s = true) : cache.gated operation call s = .ofResult (operation call s) := by
  rw [gated, if_pos h]

end Cache

/-! ## Programs on a reference -/

/-- A reference for a cache of values of type `V`: what each operation gives at an instant, and the state
after it. -/
structure Ideal (V α : Type) where
  put : Nat → String → V → α → α
  get : Nat → String → α → Option V × α
  remove : Nat → String → α → Option V × α
  clear : Nat → α → α
  size : Nat → α → Nat × α

namespace Ideal

def perform (ideal : Ideal V α) (now : Nat) (a : α) : Operation V → Answer V × α
  | .put key value => (.stored, ideal.put now key value a)
  | .get key => ((ideal.get now key a).map .found id)
  | .remove key => ((ideal.remove now key a).map .removed id)
  | .clear => (.cleared, ideal.clear now a)
  | .size => ((ideal.size now a).map .counted id)

/-- The answers to a program. -/
def run (ideal : Ideal V α) : List (Nat × Operation V) → α → List (Answer V)
  | [], _ => []
  | (now, operation) :: program, a =>
    let (answer, a) := ideal.perform now a operation
    answer :: ideal.run program a

end Ideal

end LayeredCache
