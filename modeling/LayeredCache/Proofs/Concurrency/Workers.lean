import LayeredCache.Layer.Synchronized
import LayeredCache.Proofs.Layer.Holds
import LayeredCache.Proofs.Layer.Prompt
import LayeredCache.Proofs.Server.Requests
import Mathlib.Data.Set.Basic
import Mathlib.Logic.Function.Basic
import Mathlib.Logic.Relation

/-!
# Workers that serve requests

A pool of worker threads shares a cache under synchronization and blocking without a timeout. Requests come
at any time, each is taken up by any idle worker, and the workers act in any order. A worker asks for the
key that it looks up, sleeps while another worker has it, waits for the lock, operates on the inner cache
and gives lock and key up. A key is held exactly by a worker that is in a lookup of it, and some worker can
always act until every request is done.
-/

namespace LayeredCache

variable {σ : Type}

/-- The key that an operation looks up. -/
def Operation.lookup? {V : Type} : Operation V → Option String
  | .get key => some key
  | _ => none

namespace Pool

/-! ## Workers between their steps -/

/-- What a worker is in the middle of. -/
inductive Phase (σ : Type) where
  | idle
  /-- A lookup is about to see whether it is admitted. -/
  | asking (key : String)
  /-- A lookup sleeps until a key is given up. -/
  | asleep (key : String)
  /-- An operation waits for the lock. -/
  | waiting (operation : Operation Json)
  | owning (operation : Operation Json)
  /-- The inner cache has an operation wait while its worker has the lock. -/
  | inside (operation : Operation Json) (deadline : Option Nat) (ready : σ → Bool)
    (resume : Nat → σ → Action σ Outcome)
  | unlocking (operation : Operation Json) (outcome : Outcome)
  /-- Without the lock, the outcome decides what becomes of the key. -/
  | settling (operation : Operation Json) (outcome : Outcome)
  /-- A key that was not found is about to be given up. -/
  | closing (key : String)

namespace Phase

/-- How an operation begins. -/
def begin : Operation Json → Phase σ
  | .get key => .asking key
  | operation => .waiting operation

/-- The key that the worker has been admitted to and not given up yet. -/
def admitted? : Phase σ → Option String
  | .waiting operation => operation.lookup?
  | .owning operation => operation.lookup?
  | .inside operation _ _ _ => operation.lookup?
  | .unlocking operation _ => operation.lookup?
  | .settling operation _ => operation.lookup?
  | .closing key => some key
  | _ => none

/-- The worker has the lock. -/
def hasLock : Phase σ → Bool
  | .owning _ => true
  | .inside .. => true
  | .unlocking .. => true
  | _ => false

/-- The inner cache has the worker wait. -/
def isInside : Phase σ → Bool
  | .inside .. => true
  | _ => false

/-- A worker that slept asks again. -/
def woken : Phase σ → Phase σ
  | .asleep key => .asking key
  | phase => phase

end Phase

end Pool

/-- The parts of a cache that worker threads share, the operations that are asked for and not begun yet, and
what each worker is in the middle of. -/
structure Pool (σ : Type) where
  blocking : Blocking
  lock : Synchronized
  inner : σ
  queue : List (Operation Json)
  phase : Nat → Pool.Phase σ

namespace Pool

/-- No request has come. -/
def start (inner : σ) : Pool σ :=
  ⟨.empty none, .free, inner, [], fun _ => .idle⟩

/-- A worker goes on to a phase. -/
def goTo (pool : Pool σ) (thread : Nat) (phase : Phase σ) : Pool σ :=
  { pool with phase := Function.update pool.phase thread phase }

/-- A worker takes in what has become of its operation on the inner cache. -/
def enter (pool : Pool σ) (thread : Nat) (operation : Operation Json) : Action σ Outcome → Pool σ
  | .done outcome inner => { pool with inner }.goTo thread (.unlocking operation outcome)
  | .waiting deadline ready inner resume =>
    { pool with inner }.goTo thread (.inside operation deadline ready resume)

/-- Everyone who sleeps is woken. -/
def wake (pool : Pool σ) : Pool σ :=
  { pool with phase := fun other => (pool.phase other).woken }

/-- A worker gives a key up, and if it holds the key, everyone who sleeps is woken. -/
def release (pool : Pool σ) (thread : Nat) (key : String) : Pool σ :=
  if pool.blocking.holder? key = some thread then
    { pool.wake with blocking := pool.blocking.release key thread }
  else pool

/-- The end of an operation at the blocking layer. Only a lookup that found nothing keeps its key, and its
worker has to give it up. -/
def settle (pool : Pool σ) (thread : Nat) (operation : Operation Json) (outcome : Outcome) : Pool σ :=
  match operation with
  | .get key =>
    match outcome with
    | .ok (.found none) => pool.goTo thread (.closing key)
    | _ => (pool.release thread key).goTo thread .idle
  | .put key _ => (pool.release thread key).goTo thread .idle
  | .remove key => (pool.release thread key).goTo thread .idle
  | .clear => pool.goTo thread .idle
  | .size => pool.goTo thread .idle

/-- One step of a worker, at any instant. -/
inductive Work (inner : Cache σ) (workers : Set Nat) : Pool σ → Pool σ → Prop where
  | begin {pool thread before operation after} : thread ∈ workers → pool.phase thread = .idle →
    pool.queue = before ++ operation :: after →
    Work inner workers pool ({ pool with queue := before ++ after }.goTo thread (.begin operation))
  | grant {pool thread key blocking} : pool.phase thread = .asking key →
    pool.blocking.admit? key thread = some blocking →
    Work inner workers pool ({ pool with blocking }.goTo thread (.waiting (.get key)))
  | sleep {pool thread key} : pool.phase thread = .asking key →
    pool.blocking.admit? key thread = none →
    Work inner workers pool (pool.goTo thread (.asleep key))
  | acquire {pool thread operation} : pool.phase thread = .waiting operation →
    pool.lock.locked = false →
    Work inner workers pool ({ pool with lock := ⟨true⟩ }.goTo thread (.owning operation))
  | operate {pool thread operation} (now) : pool.phase thread = .owning operation →
    Work inner workers pool
      (pool.enter thread operation (inner.perform (.at thread now) pool.inner operation))
  | resume {pool thread operation deadline ready resume} (now) :
    pool.phase thread = .inside operation deadline ready resume →
    (ready pool.inner = true ∨ ∃ instant, deadline = some instant ∧ instant ≤ now) →
    Work inner workers pool (pool.enter thread operation (resume now pool.inner))
  | unlock {pool thread operation outcome} : pool.phase thread = .unlocking operation outcome →
    Work inner workers pool ({ pool with lock := .free }.goTo thread (.settling operation outcome))
  | settle {pool thread operation outcome} : pool.phase thread = .settling operation outcome →
    Work inner workers pool (pool.settle thread operation outcome)
  | close {pool thread key} : pool.phase thread = .closing key →
    Work inner workers pool ((pool.release thread key).goTo thread .idle)

/-- A worker acts, or a request comes that asks for an operation. -/
inductive Step (inner : Cache σ) (workers : Set Nat) : Pool σ → Pool σ → Prop where
  | come {pool operation} (request : Request) : request.operation? = some operation →
    Step inner workers pool { pool with queue := operation :: pool.queue }
  | work {pool pool'} : Work inner workers pool pool' → Step inner workers pool pool'

/-- Some steps, of any workers. -/
abbrev Steps (inner : Cache σ) (workers : Set Nat) : Pool σ → Pool σ → Prop :=
  Relation.ReflTransGen (Step inner workers)

/-- A request is not done yet. -/
def Busy (pool : Pool σ) : Prop :=
  pool.queue ≠ [] ∨ ∃ thread, pool.phase thread ≠ .idle

variable {inner : Cache σ} {workers : Set Nat} {pool pool' : Pool σ} {thread : Nat} {key : String}

@[simp]
lemma phase_goTo (pool : Pool σ) (thread : Nat) (phase : Phase σ) :
    (pool.goTo thread phase).phase thread = phase :=
  Function.update_self ..

lemma phase_goTo_of_ne {other : Nat} (h : other ≠ thread) (pool : Pool σ) (phase : Phase σ) :
    (pool.goTo thread phase).phase other = pool.phase other :=
  Function.update_of_ne h ..

@[simp]
lemma Phase.admitted?_woken (phase : Phase σ) : phase.woken.admitted? = phase.admitted? := by
  cases phase <;> rfl

@[simp]
lemma Phase.hasLock_woken (phase : Phase σ) : phase.woken.hasLock = phase.hasLock := by
  cases phase <;> rfl

@[simp]
lemma Phase.isInside_woken (phase : Phase σ) : phase.woken.isInside = phase.isInside := by
  cases phase <;> rfl

@[simp]
lemma Phase.woken_ne_asleep (phase : Phase σ) (key : String) : phase.woken ≠ .asleep key := by
  cases phase <;> simp [Phase.woken]

/-! ## What every step preserves -/

/-- What a worker is in the middle of agrees with what it holds: it holds exactly the key that it has been
admitted to, has the lock exactly if it is the owner, sleeps only because of another worker, and does not
wait in the inner cache. -/
structure InPlace (blocking : Blocking) (owner : Option Nat) (thread : Nat) (phase : Phase σ) : Prop where
  holder : ∀ key, blocking.holder? key = some thread ↔ phase.admitted? = some key
  owner : phase.hasLock = true ↔ owner = some thread
  asleep : ∀ key, phase = .asleep key → ∃ holder, blocking.holder? key = some holder ∧ holder ≠ thread
  outside : phase.isInside = false

/-- Every worker is in place, and the lock is taken exactly if it has an owner. -/
structure Orderly (inner : Cache σ) (owner : Option Nat) (pool : Pool σ) : Prop where
  inPlace : ∀ thread, InPlace pool.blocking owner thread (pool.phase thread)
  locked : pool.lock.locked = owner.isSome
  unlocked : inner.unlocked pool.inner = true

lemma orderly_start {first : σ} (h : inner.unlocked first = true) : Orderly inner none (start first) where
  inPlace _ := ⟨fun _ => ⟨nofun, nofun⟩, ⟨nofun, nofun⟩, nofun, rfl⟩
  locked := rfl
  unlocked := h

section

variable {blocking blocking' : Blocking} {owner owner' : Option Nat} {phase phase' : Phase σ} {other : Nat}

/-- A worker that goes on with the same key and without another change of the lock. -/
lemma InPlace.next (h : InPlace blocking owner thread phase) (hadmitted : phase'.admitted? = phase.admitted?)
    (hlock : phase'.hasLock = true ↔ owner' = some thread) (hasleep : ∀ key, phase' ≠ .asleep key)
    (houtside : phase'.isInside = false) : InPlace blocking owner' thread phase' where
  holder := hadmitted ▸ h.holder
  owner := hlock
  asleep key heq := absurd heq (hasleep key)
  outside := houtside

/-- The lock changes hands among the others. -/
lemma InPlace.relock (h : InPlace blocking owner other phase)
    (howner : owner' = some other ↔ owner = some other) : InPlace blocking owner' other phase :=
  { h with owner := h.owner.trans howner.symm }

/-- Another worker is admitted to a key. -/
lemma InPlace.grant (h : InPlace blocking owner other phase) (hne : other ≠ thread)
    (hgrant : blocking.admit? key thread = some blocking') : InPlace blocking' owner other phase where
  holder k := by
    rw [Blocking.holder?_admit?_eq_some hgrant, h.holder]
    simp [hne.symm]
  owner := h.owner
  asleep k heq := by
    obtain ⟨holder, hholder, hother⟩ := h.asleep k heq
    exact ⟨holder, (Blocking.holder?_admit?_eq_some hgrant).2 (.inr hholder), hother⟩
  outside := h.outside

/-- Another worker gives a key up, and everyone is awake. -/
lemma InPlace.release (h : InPlace blocking owner other phase) (hne : other ≠ thread) :
    InPlace (blocking.release key thread) owner other phase.woken where
  holder k := by
    rw [Blocking.holder?_release_eq_some, h.holder, Phase.admitted?_woken]
    simp [hne.symm]
  owner := by rw [Phase.hasLock_woken, h.owner]
  asleep k heq := absurd heq (phase.woken_ne_asleep k)
  outside := by rw [Phase.isInside_woken, h.outside]

/-- A worker goes on to a phase that suits it, and the others stay in place. -/
lemma orderly_goTo {queue : List (Operation Json)} {lock : Synchronized} {state : σ}
    (hself : InPlace blocking owner thread phase)
    (hothers : ∀ other, other ≠ thread → InPlace blocking owner other (pool.phase other))
    (hlocked : lock.locked = owner.isSome) (hunlocked : inner.unlocked state = true) :
    Orderly inner owner ({ pool with blocking, lock, inner := state, queue }.goTo thread phase) := by
  refine ⟨fun other => ?_, hlocked, hunlocked⟩
  by_cases h : other = thread
  · rw [h, phase_goTo]
    exact hself
  · rw [phase_goTo_of_ne h]
    exact hothers other h

end

namespace Orderly

variable {owner : Option Nat}

/-- A worker is admitted to a key. -/
lemma grant (h : Orderly inner owner pool) {blocking : Blocking} (hphase : pool.phase thread = .asking key)
    (hgrant : pool.blocking.admit? key thread = some blocking) :
    Orderly inner owner ({ pool with blocking }.goTo thread (.waiting (.get key))) := by
  have hself := hphase ▸ h.inPlace thread
  refine orderly_goTo ⟨fun k => ?_, hself.owner, nofun, rfl⟩
    (fun other hne => (h.inPlace other).grant hne hgrant) h.locked h.unlocked
  -- nothing was held while the worker asked
  rw [Blocking.holder?_admit?_eq_some hgrant, hself.holder]
  simp [Phase.admitted?, Operation.lookup?]

/-- A worker gives up the key that it holds, if any. -/
lemma release (h : Orderly inner owner pool) (hphase : (pool.phase thread).hasLock = false)
    (hadmitted : ∀ k, (pool.phase thread).admitted? = some k → k = key) :
    Orderly inner owner ((pool.release thread key).goTo thread .idle) := by
  have hself := h.inPlace thread
  have howner : owner ≠ some thread := by
    rw [Ne, ← hself.owner, hphase]
    exact Bool.false_ne_true
  have hlock : (Phase.idle : Phase σ).hasLock = true ↔ owner = some thread := by
    simp [Phase.hasLock, howner]
  unfold Pool.release
  by_cases hheld : pool.blocking.holder? key = some thread
  · rw [if_pos hheld]
    -- whoever slept is awake, so it does not matter which key it slept for
    have hothers : ∀ other, other ≠ thread →
        InPlace (pool.blocking.release key thread) owner other (pool.wake.phase other) :=
      fun other hne => (h.inPlace other).release hne
    refine orderly_goTo ⟨fun k => ?_, hlock, nofun, rfl⟩ hothers h.locked h.unlocked
    rw [Blocking.holder?_release_eq_some, hself.holder]
    constructor
    · rintro ⟨hk, hne⟩
      exact absurd ⟨rfl, (hadmitted k hk).symm⟩ hne
    · exact nofun
  · rw [if_neg hheld]
    have hnone : (Phase.idle : Phase σ).admitted? = (pool.phase thread).admitted? := by
      cases hk : (pool.phase thread).admitted? with
      | none => rfl
      | some k => exact absurd ((hself.holder key).2 (hadmitted k hk ▸ hk)) hheld
    exact orderly_goTo (hself.next hnone hlock nofun rfl) (fun other _ => h.inPlace other) h.locked
      h.unlocked

/-- A worker goes on with its key, and gets the lock, keeps it or gives it up. -/
lemma next (h : Orderly inner owner pool) {owner' : Option Nat} {queue : List (Operation Json)}
    {lock : Synchronized} {state : σ} {phase : Phase σ}
    (hadmitted : phase.admitted? = (pool.phase thread).admitted?)
    (hlock : phase.hasLock = true ↔ owner' = some thread) (hasleep : ∀ key, phase ≠ .asleep key)
    (houtside : phase.isInside = false)
    (howner : ∀ other, other ≠ thread → (owner' = some other ↔ owner = some other))
    (hlocked : lock.locked = owner'.isSome) (hunlocked : inner.unlocked state = true) :
    Orderly inner owner' ({ pool with lock, inner := state, queue }.goTo thread phase) :=
  orderly_goTo ((h.inPlace thread).next hadmitted hlock hasleep houtside)
    (fun other hne => (h.inPlace other).relock (howner other hne)) hlocked hunlocked

/-- The end of an operation. Whatever its outcome, the worker keeps at most a key that it has to give up. -/
lemma settle (h : Orderly inner owner pool) {operation : Operation Json} {outcome : Outcome}
    (hphase : pool.phase thread = .settling operation outcome) :
    Orderly inner owner (pool.settle thread operation outcome) := by
  have hself := hphase ▸ h.inPlace thread
  have hlock : (pool.phase thread).hasLock = false := by rw [hphase]; rfl
  have hadmitted : (pool.phase thread).admitted? = operation.lookup? := by rw [hphase]; rfl
  cases operation with
  | get key =>
    have hkey : ∀ k, (pool.phase thread).admitted? = some k → k = key := fun k hk =>
      (Option.some.inj (hadmitted.symm.trans hk)).symm
    simp only [Pool.settle]
    split
    · exact h.next hadmitted.symm hself.owner nofun rfl (fun _ _ => Iff.rfl) h.locked h.unlocked
    · exact h.release hlock hkey
  | put key value => exact h.release hlock fun k hk => nomatch hadmitted.symm.trans hk
  | remove key => exact h.release hlock fun k hk => nomatch hadmitted.symm.trans hk
  | clear => exact h.next hadmitted.symm hself.owner nofun rfl (fun _ _ => Iff.rfl) h.locked h.unlocked
  | size => exact h.next hadmitted.symm hself.owner nofun rfl (fun _ _ => Iff.rfl) h.locked h.unlocked

/-- Every step of a worker on a prompt cache. -/
lemma work (hprompt : inner.Prompt) (h : Orderly inner owner pool) (hwork : Work inner workers pool pool') :
    ∃ owner', Orderly inner owner' pool' := by
  cases hwork with
  | @begin thread _ operation _ _ hphase _ =>
    have hself := hphase ▸ h.inPlace thread
    refine ⟨owner, h.next ?_ ?_ ?_ ?_ (fun _ _ => Iff.rfl) h.locked h.unlocked⟩
    · rw [hphase]
      cases operation <;> rfl
    · rw [← hself.owner]
      cases operation <;> rfl
    · cases operation <;> exact nofun
    · cases operation <;> rfl
  | grant hphase hgrant => exact ⟨owner, h.grant hphase hgrant⟩
  | @sleep thread key hphase hgrant =>
    have hself := hphase ▸ h.inPlace thread
    refine ⟨owner, orderly_goTo ⟨hself.holder, hself.owner, ?_, rfl⟩ (fun other _ => h.inPlace other)
      h.locked h.unlocked⟩
    rintro _ ⟨⟩
    exact Blocking.admit?_eq_none.1 hgrant
  | @acquire thread operation hphase hfree =>
    have hlocked := h.locked
    rw [hfree] at hlocked
    obtain rfl : owner = none := by
      cases owner with
      | none => rfl
      | some other => cases hlocked
    refine ⟨some thread, h.next (by rw [hphase]; rfl) ⟨fun _ => rfl, fun _ => rfl⟩ nofun rfl ?_ rfl
      h.unlocked⟩
    intro other hne
    simp [hne.symm]
  | @operate thread operation now hphase =>
    have hself := hphase ▸ h.inPlace thread
    obtain ⟨outcome, state, hperform, hstate⟩ := hprompt.perform h.unlocked (.at thread now) operation
    rw [hperform]
    refine ⟨owner, h.next (by rw [hphase]; rfl) ?_ nofun rfl (fun _ _ => Iff.rfl) h.locked hstate⟩
    exact hself.owner
  | @resume thread operation deadline ready resume now hphase _ =>
    -- a prompt cache has nobody wait inside
    have houtside := (h.inPlace thread).outside
    rw [hphase] at houtside
    cases houtside
  | @unlock thread operation outcome hphase =>
    have hself := hphase ▸ h.inPlace thread
    obtain rfl := hself.owner.1 rfl
    refine ⟨none, h.next (by rw [hphase]; rfl) ⟨nofun, nofun⟩ nofun rfl ?_ rfl h.unlocked⟩
    intro other hne
    simp [hne.symm]
  | settle hphase => exact ⟨owner, h.settle hphase⟩
  | @close thread key hphase =>
    refine ⟨owner, h.release (by rw [hphase]; rfl) fun k hk => ?_⟩
    rw [hphase] at hk
    exact (Option.some.inj hk).symm

/-! ## Somebody can always act -/

/-- The owner of the lock can act. -/
lemma exists_work_of_hasLock (h : Orderly inner owner pool) (hphase : (pool.phase thread).hasLock = true) :
    ∃ pool', Work inner workers pool pool' := by
  have houtside := (h.inPlace thread).outside
  cases hthread : pool.phase thread with
  | owning operation => exact ⟨_, .operate 0 hthread⟩
  | unlocking operation outcome => exact ⟨_, .unlock hthread⟩
  | inside operation deadline ready resume =>
    rw [hthread] at houtside
    cases houtside
  | _ =>
    rw [hthread] at hphase
    cases hphase

/-- Who waits for the lock gets it, or its owner can act. -/
lemma exists_work_of_waiting (h : Orderly inner owner pool) {operation : Operation Json}
    (hphase : pool.phase thread = .waiting operation) : ∃ pool', Work inner workers pool pool' := by
  have hlocked := h.locked
  cases owner with
  | none => exact ⟨_, .acquire hphase hlocked⟩
  | some other => exact h.exists_work_of_hasLock ((h.inPlace other).owner.2 rfl)

/-- Who is awake and busy can act, or waits for somebody who can. -/
lemma exists_work_of_awake (h : Orderly inner owner pool) (hidle : pool.phase thread ≠ .idle)
    (hasleep : ∀ key, pool.phase thread ≠ .asleep key) : ∃ pool', Work inner workers pool pool' := by
  cases hthread : pool.phase thread with
  | idle => exact absurd hthread hidle
  | asking key =>
    cases hgrant : pool.blocking.admit? key thread with
    | some blocking => exact ⟨_, .grant hthread hgrant⟩
    | none => exact ⟨_, .sleep hthread hgrant⟩
  | asleep key => exact absurd hthread (hasleep key)
  | waiting operation => exact h.exists_work_of_waiting hthread
  | settling operation outcome => exact ⟨_, .settle hthread⟩
  | closing key => exact ⟨_, .close hthread⟩
  | _ => exact h.exists_work_of_hasLock (show (pool.phase thread).hasLock = true by rw [hthread]; rfl)

/-- The holder of a key is neither idle nor asleep, so nobody sleeps in vain. -/
lemma exists_work (h : Orderly inner owner pool) (hworkers : workers.Nonempty) (hbusy : pool.Busy) :
    ∃ pool', Work inner workers pool pool' := by
  by_cases hidle : ∀ thread, pool.phase thread = .idle
  · -- any worker can take up a request that waits
    have hqueue : pool.queue ≠ [] := by
      rcases hbusy with hqueue | ⟨thread, hthread⟩
      · exact hqueue
      · exact absurd (hidle thread) hthread
    obtain ⟨operation, queue, hcons⟩ := List.exists_cons_of_ne_nil hqueue
    obtain ⟨thread, hthread⟩ := hworkers
    exact ⟨_, .begin hthread (hidle thread) (show pool.queue = [] ++ operation :: queue from hcons)⟩
  · obtain ⟨thread, hthread⟩ := not_forall.1 hidle
    by_cases hasleep : ∃ key, pool.phase thread = .asleep key
    · -- the holder of the key has been admitted, so it waits for the lock at most
      obtain ⟨key, hkey⟩ := hasleep
      obtain ⟨holder, hholder, -⟩ := (h.inPlace thread).asleep key hkey
      have hadmitted := ((h.inPlace holder).holder key).1 hholder
      have hbusy : pool.phase holder ≠ .idle := by
        intro heq
        rw [heq] at hadmitted
        cases hadmitted
      have hawake : ∀ other, pool.phase holder ≠ .asleep other := by
        intro other heq
        rw [heq] at hadmitted
        cases hadmitted
      exact h.exists_work_of_awake hbusy hawake
    · exact h.exists_work_of_awake hthread (not_exists.1 hasleep)

/-- Without a worker in an operation, no key is held. -/
lemma held_eq_nil (h : Orderly inner owner pool) (hidle : ∀ thread, pool.phase thread = .idle) :
    pool.blocking.held = [] := by
  refine Blocking.held_eq_nil fun key => Option.eq_none_iff_forall_ne_some.2 fun thread hheld => ?_
  have hadmitted := ((h.inPlace thread).holder key).1 hheld
  rw [hidle thread] at hadmitted
  cases hadmitted

end Orderly

/-- By induction on the steps that lead to the state. -/
lemma orderly_of_steps {first : σ} (hprompt : inner.Prompt) (hfirst : inner.unlocked first = true)
    (hsteps : Steps inner workers (start first) pool) : ∃ owner, Orderly inner owner pool := by
  induction hsteps with
  | refl => exact ⟨none, orderly_start hfirst⟩
  | tail _ hstep ih =>
    obtain ⟨owner, h⟩ := ih
    cases hstep with
    | come request hrequest => exact ⟨owner, h.inPlace, h.locked, h.unlocked⟩
    | work hwork => exact h.work hprompt hwork

end Pool

end LayeredCache
