import LayeredCache.Proofs.Cache.Program
import Mathlib.Logic.Function.Basic
import Mathlib.Logic.Relation

/-!
# Operations in sections

An operation can be made of sections. Each has the shared state to itself, and other threads may act between
two of them. If every operation takes one lock before its first section and frees it after its last, then
sections of different operations never mix: what the operations return and leave behind is what they return
and leave behind one after another, in the order in which they took the lock.
-/

namespace LayeredCache

variable {σ ρ υ : Type}

/-! ## Sections -/

/-- What is left of an operation: an outcome, or a section. A section changes the shared state, and what comes
after it depends on the state that it has found. -/
inductive Script (σ ρ : Type) where
  | done (outcome : ρ)
  | locked (change : σ → σ) (rest : σ → Script σ ρ)

namespace Script

/-- All sections, one right after another. -/
def run : Script σ ρ → σ → ρ × σ
  | .done outcome, s => (outcome, s)
  | .locked change rest, s => (rest s).run (change s)

/-- A single section. -/
def once (step : σ → ρ × σ) : Script σ ρ :=
  .locked (fun s => (step s).2) fun s => .done (step s).1

/-- Some sections, and then others that depend on the outcome. -/
def bind : Script σ ρ → (ρ → Script σ υ) → Script σ υ
  | .done outcome, next => next outcome
  | .locked change rest, next => .locked change fun s => (rest s).bind next

/-- The same sections with another outcome. -/
def map (f : ρ → υ) (script : Script σ ρ) : Script σ υ :=
  script.bind fun outcome => .done (f outcome)

@[simp]
lemma run_bind (script : Script σ ρ) (next : ρ → Script σ υ) (s : σ) :
    (script.bind next).run s = (next (script.run s).1).run (script.run s).2 := by
  induction script generalizing s with
  | done outcome => rfl
  | locked change rest ih => exact ih s (change s)

@[simp]
lemma run_map (f : ρ → υ) (script : Script σ ρ) (s : σ) :
    (script.map f).run s = (f (script.run s).1, (script.run s).2) :=
  run_bind script _ s

end Script

/-! ## Threads that take turns -/

namespace Sectioned

/-- What a thread is in the middle of. -/
inductive Place (σ : Type) where
  | idle
  /-- The operation has not got the lock yet. -/
  | calling (call : Call) (operation : Operation Json)
  /-- The operation has the lock; its turn is the number of operations that had it before. -/
  | inside (turn : Nat) (rest : Script σ Outcome)
  /-- The lock is free again, and the outcome is about to be returned. -/
  | returning (turn : Nat) (outcome : Outcome)

/-- The turn of the operation that a thread is in the middle of. -/
def Place.turn? : Place σ → Option Nat
  | .inside turn _ => some turn
  | .returning turn _ => some turn
  | _ => none

/-- The shared state, the thread that has the lock, and where each thread is. Beside them stands what has
happened: the operations in the order in which they took the lock, and the outcome of each turn as soon as it
is returned. -/
structure Shared (σ : Type) where
  state : σ
  holder : Option Nat
  place : Nat → Place σ
  taken : List (Call × Operation Json)
  returned : Nat → Option Outcome

namespace Shared

/-- Nobody has done anything. -/
def start (state : σ) : Shared σ :=
  ⟨state, none, fun _ => .idle, [], fun _ => none⟩

/-- A thread goes on to a place. -/
def goTo (s : Shared σ) (thread : Nat) (place : Place σ) : Shared σ :=
  { s with place := Function.update s.place thread place }

end Shared

/-- The sections of every operation. -/
abbrev Scripts (σ : Type) := Call → Operation Json → Script σ Outcome

/-- One step of a thread. Only the lock keeps a thread from acting. -/
inductive Step (scripts : Scripts σ) : Shared σ → Shared σ → Prop where
  | call {s} (thread now operation) : s.place thread = .idle →
    Step scripts s (s.goTo thread (.calling (.at thread now) operation))
  | take {s thread call operation} : s.place thread = .calling call operation → s.holder = none →
    Step scripts s ({ s with
      holder := some thread, taken := s.taken ++ [(call, operation)] }.goTo thread
      (.inside s.taken.length (scripts call operation)))
  | advance {s thread turn change rest} : s.place thread = .inside turn (.locked change rest) →
    Step scripts s ({ s with state := change s.state }.goTo thread (.inside turn (rest s.state)))
  | free {s thread turn outcome} : s.place thread = .inside turn (.done outcome) →
    Step scripts s ({ s with holder := none }.goTo thread (.returning turn outcome))
  | giveBack {s thread turn outcome} : s.place thread = .returning turn outcome →
    Step scripts s ({ s with
      returned := Function.update s.returned turn (some outcome) }.goTo thread .idle)

/-- Some steps, of any threads. -/
abbrev Steps (scripts : Scripts σ) : Shared σ → Shared σ → Prop :=
  Relation.ReflTransGen (Step scripts)

/-- The outcomes of some operations, each with all its sections one right after another, and the state after
them. -/
def inTurn (scripts : Scripts σ) : List (Call × Operation Json) → σ → List Outcome × σ
  | [], s => ([], s)
  | (call, operation) :: calls, s =>
    let (outcome, s) := (scripts call operation).run s
    let (outcomes, s) := inTurn scripts calls s
    (outcome :: outcomes, s)

variable {scripts : Scripts σ} {calls : List (Call × Operation Json)} {first state : σ}

lemma length_inTurn (calls : List (Call × Operation Json)) (first : σ) :
    (inTurn scripts calls first).1.length = calls.length := by
  induction calls generalizing first with
  | nil => rfl
  | cons entry calls ih => exact congrArg Nat.succ (ih _)

lemma inTurn_concat (calls : List (Call × Operation Json)) (call : Call) (operation : Operation Json)
    (first : σ) :
    inTurn scripts (calls ++ [(call, operation)]) first =
      ((inTurn scripts calls first).1 ++ [((scripts call operation).run (inTurn scripts calls first).2).1],
        ((scripts call operation).run (inTurn scripts calls first).2).2) := by
  induction calls generalizing first with
  | nil => rfl
  | cons entry calls ih =>
    have hrest := ih ((scripts entry.1 entry.2).run first).2
    simp only [List.cons_append, inTurn, hrest]

/-! ## What every step keeps -/

/-- A thread with the lock will end its turn with the outcome and the state of the operations in turn. A
thread that is about to return has the outcome of its turn. -/
def Place.Fits (scripts : Scripts σ) (calls : List (Call × Operation Json)) (first state : σ)
    (holder : Option Nat) (thread : Nat) : Place σ → Prop
  | .inside turn rest => holder = some thread ∧
    (inTurn scripts calls first).1[turn]? = some (rest.run state).1 ∧
    (inTurn scripts calls first).2 = (rest.run state).2
  | .returning turn outcome => (inTurn scripts calls first).1[turn]? = some outcome
  | _ => True

/-- While the lock is free, the state is that of the operations in turn. Every thread and every outcome that
has been returned fits them, and no turn is lost. -/
structure Orderly (scripts : Scripts σ) (first : σ) (s : Shared σ) : Prop where
  free : s.holder = none → s.state = (inTurn scripts s.taken first).2
  places : ∀ thread, (s.place thread).Fits scripts s.taken first s.state s.holder thread
  held : ∀ thread, s.holder = some thread → ∃ turn rest, s.place thread = .inside turn rest
  returned : ∀ turn outcome, s.returned turn = some outcome →
    (inTurn scripts s.taken first).1[turn]? = some outcome
  covered : ∀ turn < s.taken.length, (s.returned turn).isSome ∨ ∃ thread, (s.place thread).turn? = some turn

variable {s s' : Shared σ} {thread other turn : Nat} {place : Place σ}

/-- The outcome of a turn stays as it is when others take theirs. -/
lemma getElem?_inTurn_concat {outcome : Outcome} (call : Call) (operation : Operation Json)
    (h : (inTurn scripts calls first).1[turn]? = some outcome) :
    (inTurn scripts (calls ++ [(call, operation)]) first).1[turn]? = some outcome := by
  rw [inTurn_concat]
  exact (List.getElem?_append_left (List.getElem?_eq_some_iff.1 h).1).trans h

/-- Only the thread that has the lock is inside. -/
private lemma ne_inside (h : Orderly scripts first s) (hother : s.holder ≠ some other) (turn : Nat)
    (rest : Script σ Outcome) : s.place other ≠ .inside turn rest := by
  intro hplace
  have hfits := h.places other
  rw [hplace] at hfits
  exact hother hfits.1

/-- A thread that is not inside fits whatever happens to the state and to the lock, as long as the outcomes of
the turns stay. -/
private lemma fits_outside {calls' : List (Call × Operation Json)} {holder holder' : Option Nat}
    {state' : σ} (h : place.Fits scripts calls first state holder thread)
    (houtside : ∀ turn rest, place ≠ .inside turn rest)
    (hcalls : ∀ (turn : Nat) outcome, (inTurn scripts calls first).1[turn]? = some outcome →
      (inTurn scripts calls' first).1[turn]? = some outcome) :
    place.Fits scripts calls' first state' holder' thread := by
  cases place with
  | inside turn rest => exact absurd rfl (houtside turn rest)
  | returning turn outcome => exact hcalls turn outcome h
  | idle => trivial
  | calling call operation => trivial

/-- When another thread has the lock, a thread fits whatever happens to both. -/
private lemma fits_other {holder' : Option Nat} {state' : σ} (h : Orderly scripts first s)
    (hholder : s.holder = some thread) (hother : other ≠ thread) :
    (s.place other).Fits scripts s.taken first state' holder' other := by
  refine fits_outside (h.places other) (ne_inside h ?_) fun _ _ => id
  rw [hholder]
  exact fun heq => hother (Option.some.inj heq).symm

private lemma places_goTo {calls : List (Call × Operation Json)} {holder : Option Nat}
    (hplace : place.Fits scripts calls first state holder thread)
    (hothers : ∀ other, other ≠ thread → (s.place other).Fits scripts calls first state holder other) :
    ∀ other, (Function.update s.place thread place other).Fits scripts calls first state holder other :=
  (Function.forall_update_iff s.place fun other place =>
    place.Fits scripts calls first state holder other).2 ⟨hplace, hothers⟩

/-- No turn is lost if a thread keeps the turn that it is in. -/
private lemma covered_goTo (hturn : (s.place thread).turn? = some turn → place.turn? = some turn)
    (h : ∃ other, (s.place other).turn? = some turn) :
    ∃ other, (Function.update s.place thread place other).turn? = some turn := by
  obtain ⟨other, hother⟩ := h
  refine ⟨other, ?_⟩
  by_cases heq : other = thread
  · subst heq
    rw [Function.update_self, hturn hother]
  · rw [Function.update_of_ne heq, hother]

/-- A thread that goes on outside does not have the lock. -/
private lemma held_goTo (h : Orderly scripts first s) (houtside : ∀ turn rest, s.place thread ≠ .inside turn rest)
    (hholder : s.holder = some other) :
    ∃ turn rest, Function.update s.place thread place other = .inside turn rest := by
  obtain ⟨turn, rest, hplace⟩ := h.held other hholder
  refine ⟨turn, rest, ?_⟩
  rw [Function.update_of_ne _, hplace]
  rintro rfl
  exact houtside turn rest hplace

/-- One case per step. -/
lemma Orderly.step (h : Orderly scripts first s) (hstep : Step scripts s s') : Orderly scripts first s' := by
  cases hstep with
  | call thread now operation hplace =>
    refine ⟨h.free, places_goTo trivial fun other _ => h.places other, fun other hholder => ?_, h.returned,
      fun turn hturn => ?_⟩
    · exact held_goTo (s := s) h (by rw [hplace]; exact nofun) hholder
    · exact (h.covered turn hturn).imp_right (covered_goTo (by rw [hplace]; exact nofun))
  | take hplace hholder =>
    rename_i thread call operation
    -- the lock was free, so this turn begins where the turns before it have ended
    have hstays : ∀ (turn : Nat) outcome, (inTurn scripts s.taken first).1[turn]? = some outcome →
        (inTurn scripts (s.taken ++ [(call, operation)]) first).1[turn]? = some outcome :=
      fun turn outcome => getElem?_inTurn_concat call operation
    refine ⟨nofun, places_goTo ⟨rfl, ?_, ?_⟩ fun other _ => ?_, ?_, fun turn outcome hreturned => ?_,
      fun turn hturn => ?_⟩
    · show (inTurn scripts (s.taken ++ [(call, operation)]) first).1[s.taken.length]? =
        some ((scripts call operation).run s.state).1
      have hlength : (inTurn scripts s.taken first).1.length = s.taken.length := length_inTurn ..
      rw [h.free hholder, inTurn_concat, ← hlength, List.getElem?_concat_length]
    · show (inTurn scripts (s.taken ++ [(call, operation)]) first).2 =
        ((scripts call operation).run s.state).2
      rw [h.free hholder, inTurn_concat]
    · exact fits_outside (h.places other) (ne_inside (s := s) h (by rw [hholder]; exact nofun)) hstays
    · rintro other ⟨⟩
      exact ⟨_, _, Function.update_self ..⟩
    · exact hstays turn outcome (h.returned turn outcome hreturned)
    · have hlast : turn < s.taken.length ∨ turn = s.taken.length := by
        have hlength : (s.taken ++ [(call, operation)]).length = s.taken.length + 1 := List.length_append
        have hturn : turn < (s.taken ++ [(call, operation)]).length := hturn
        omega
      rcases hlast with hturn | rfl
      · exact (h.covered turn hturn).imp_right (covered_goTo (by rw [hplace]; exact nofun))
      · refine .inr ⟨thread, ?_⟩
        show (Function.update s.place thread _ thread).turn? = _
        rw [Function.update_self]
        rfl
  | advance hplace =>
    rename_i thread turn change rest
    -- what is left of the sections still leads to the outcome and the state of the turn
    have hfits := h.places thread
    rw [hplace] at hfits
    obtain ⟨hholder, houtcome, hstate⟩ := hfits
    refine ⟨fun hfree => ?_, places_goTo ⟨hholder, houtcome, hstate⟩ fun other hother =>
      fits_other (s := s) h hholder hother, fun other hheld => ?_, h.returned, fun turn hturn => ?_⟩
    · exact absurd (hholder.symm.trans hfree) nofun
    · obtain rfl : thread = other := Option.some.inj (hholder.symm.trans hheld)
      exact ⟨_, _, Function.update_self ..⟩
    · exact (h.covered turn hturn).imp_right (covered_goTo (by rw [hplace]; exact id))
  | free hplace =>
    rename_i thread turn outcome
    have hfits := h.places thread
    rw [hplace] at hfits
    obtain ⟨hholder, houtcome, hstate⟩ := hfits
    refine ⟨fun _ => hstate.symm, places_goTo houtcome fun other hother =>
      fits_other (s := s) h hholder hother, nofun, h.returned, fun turn hturn => ?_⟩
    exact (h.covered turn hturn).imp_right (covered_goTo (by rw [hplace]; exact id))
  | giveBack hplace =>
    rename_i thread turn outcome
    have hfits := h.places thread
    rw [hplace] at hfits
    refine ⟨h.free, places_goTo trivial fun other _ => h.places other, fun other hholder => ?_,
      fun turn' outcome' hreturned => ?_, fun turn' hturn => ?_⟩
    · exact held_goTo (s := s) h (by rw [hplace]; exact nofun) hholder
    · by_cases heq : turn' = turn
      · subst heq
        obtain rfl : outcome = outcome' := by simpa [Shared.goTo] using hreturned
        exact hfits
      · exact h.returned turn' outcome' (by simpa [Shared.goTo, heq] using hreturned)
    · by_cases heq : turn' = turn
      · exact .inl (by simp [Shared.goTo, heq])
      · refine (h.covered turn' hturn).imp (fun hreturned => ?_) (covered_goTo fun hthread => ?_)
        · simpa [Shared.goTo, heq] using hreturned
        · rw [hplace] at hthread
          exact absurd (Option.some.inj hthread).symm heq

/-- By induction on the steps that lead to the state. -/
lemma orderly_of_steps (h : Steps scripts (.start first) s) : Orderly scripts first s := by
  induction h with
  | refl => exact ⟨fun _ => rfl, fun _ => trivial, nofun, nofun, nofun⟩
  | tail _ hstep ih => exact ih.step hstep

/-- When no thread is in the middle of an operation, the state and all outcomes are those of the operations
one after another, in the order in which they took the lock. -/
theorem eq_inTurn_of_idle (h : Steps scripts (.start first) s) (hidle : ∀ thread, s.place thread = .idle) :
    s.state = (inTurn scripts s.taken first).2 ∧
    ∀ turn, s.returned turn = (inTurn scripts s.taken first).1[turn]? := by
  have horderly := orderly_of_steps h
  have hfree : s.holder = none := by
    refine Option.eq_none_iff_forall_ne_some.2 fun thread hholder => ?_
    obtain ⟨turn, rest, hplace⟩ := horderly.held thread hholder
    rw [hidle] at hplace
    cases hplace
  refine ⟨horderly.free hfree, fun turn => ?_⟩
  cases hreturned : s.returned turn with
  | some outcome => exact (horderly.returned turn outcome hreturned).symm
  | none =>
    -- a turn that has begun has ended
    refine (List.getElem?_eq_none ?_).symm
    rw [length_inTurn]
    refine Nat.le_of_not_lt fun hturn => ?_
    rcases horderly.covered turn hturn with hsome | ⟨thread, hthread⟩
    · rw [hreturned] at hsome
      cases hsome
    · rw [hidle] at hthread
      cases hthread

end Sectioned

end LayeredCache
