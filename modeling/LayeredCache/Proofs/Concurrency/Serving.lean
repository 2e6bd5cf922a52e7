import LayeredCache.Proofs.Assembly.PromptStack
import LayeredCache.Proofs.Concurrency.Workers

/-!
# Requests to a built cache

A request that is served in one go is a run of its worker's steps, whatever the other workers are in the
middle of. A cache that is built with blocking and without a timeout serves requests together: some worker
can act as long as a request is not done, and no key is held when all are.
-/

namespace LayeredCache

variable {σ : Type}

/-! ## A request that is served in one go -/

namespace Operation

/-- What an admission makes of the held keys. Only a lookup has to be admitted. -/
def admitted? (thread : Nat) (blocking : Blocking) : Operation Json → Option Blocking
  | .get key => blocking.admit? key thread
  | _ => some blocking

/-- What the end of an operation makes of the held keys. -/
def releasing (thread : Nat) (blocking : Blocking) : Operation Json → Blocking
  | .put key _ => blocking.release key thread
  | .get key => blocking.release key thread
  | .remove key => blocking.release key thread
  | .clear => blocking
  | .size => blocking

end Operation

namespace Pool

section

variable {inner : Cache σ} {workers : Set Nat} {pool : Pool σ} {thread : Nat} {operation : Operation Json}
  {outcome : Outcome} {state : σ}

lemma goTo_goTo (pool : Pool σ) (thread : Nat) (phase phase' : Phase σ) :
    (pool.goTo thread phase).goTo thread phase' = pool.goTo thread phase' := by
  unfold goTo
  rw [Function.update_idem]

/-- A worker's step after another one of its own. -/
private lemma step_goTo {pool' : Pool σ} {phase phase' : Phase σ}
    (h : Work inner workers pool' ((pool.goTo thread phase).goTo thread phase')) :
    Step inner workers pool' (pool.goTo thread phase') :=
  .work (goTo_goTo pool thread phase phase' ▸ h)

@[simp]
lemma blocking_release (pool : Pool σ) (thread : Nat) (key : String) :
    (pool.release thread key).blocking = pool.blocking.release key thread := by
  unfold Pool.release Blocking.release
  split <;> rfl

@[simp]
lemma lock_release (pool : Pool σ) (thread : Nat) (key : String) :
    (pool.release thread key).lock = pool.lock := by
  unfold Pool.release
  split <;> rfl

@[simp]
lemma inner_release (pool : Pool σ) (thread : Nat) (key : String) :
    (pool.release thread key).inner = pool.inner := by
  unfold Pool.release
  split <;> rfl

/-- A request comes, and a worker begins its operation. -/
lemma steps_begun {request : Request} (hthread : thread ∈ workers) (hidle : pool.phase thread = .idle)
    (hrequest : request.operation? = some operation) :
    Steps inner workers pool (pool.goTo thread (.begin operation)) := by
  let asked : Pool σ := { pool with queue := operation :: pool.queue }
  have hcome : Step inner workers pool asked := .come request hrequest
  have hqueue : asked.queue = [] ++ operation :: pool.queue := rfl
  have hbegin : Work inner workers asked (pool.goTo thread (.begin operation)) :=
    .begin hthread (show asked.phase thread = .idle from hidle) hqueue
  exact .head hcome (.single (.work hbegin))

/-- The operation is admitted and waits for the lock. -/
lemma steps_admitted {blocking : Blocking}
    (hgrant : operation.admitted? thread pool.blocking = some blocking) :
    Steps inner workers (pool.goTo thread (.begin operation))
      ({ pool with blocking }.goTo thread (.waiting operation)) := by
  cases operation with
  | get key => exact .single (step_goTo (.grant (phase_goTo ..) hgrant))
  | _ =>
    obtain rfl := Option.some.inj hgrant
    exact .refl

/-- It gets the lock, has its outcome and gives the lock up. -/
lemma steps_locked (now : Nat) (hlock : pool.lock = .free)
    (hperform : inner.perform (.at thread now) pool.inner operation = .done outcome state) :
    Steps inner workers (pool.goTo thread (.waiting operation))
      ({ pool with inner := state }.goTo thread (.settling operation outcome)) := by
  have hfree : pool.lock.locked = false := by rw [hlock]; rfl
  have hacquire : Step inner workers (pool.goTo thread (.waiting operation))
      ({ pool with lock := ⟨true⟩ }.goTo thread (.owning operation)) :=
    step_goTo (.acquire (phase_goTo ..) hfree)
  have hoperate : Step inner workers ({ pool with lock := ⟨true⟩ }.goTo thread (.owning operation))
      ({ pool with lock := ⟨true⟩, inner := state }.goTo thread (.unlocking operation outcome)) := by
    have hwork : Work inner workers ({ pool with lock := ⟨true⟩ }.goTo thread (.owning operation))
        (Pool.enter _ thread operation (inner.perform (.at thread now) pool.inner operation)) :=
      .operate now (phase_goTo ..)
    rw [hperform] at hwork
    exact step_goTo hwork
  have hunlock : Step inner workers
      ({ pool with lock := ⟨true⟩, inner := state }.goTo thread (.unlocking operation outcome))
      ({ pool with lock := .free, inner := state }.goTo thread (.settling operation outcome)) :=
    step_goTo (.unlock (phase_goTo ..))
  rw [← hlock] at hunlock
  exact .head hacquire (.head hoperate (.single hunlock))

/-- The operation ends, and its worker gives the key up. -/
lemma steps_settled (pool : Pool σ) (thread : Nat) (operation : Operation Json) (outcome : Outcome) :
    ∃ pool', Steps inner workers (pool.goTo thread (.settling operation outcome)) pool' ∧
      pool'.phase thread = .idle ∧ pool'.blocking = operation.releasing thread pool.blocking ∧
      pool'.lock = pool.lock ∧ pool'.inner = pool.inner := by
  have hsettle : Work inner workers (pool.goTo thread (.settling operation outcome)) _ :=
    .settle (phase_goTo ..)
  have hreleased (middle : Pool σ) (key : String) :
      ((middle.release thread key).goTo thread .idle).blocking = middle.blocking.release key thread ∧
        ((middle.release thread key).goTo thread .idle).lock = middle.lock ∧
        ((middle.release thread key).goTo thread .idle).inner = middle.inner :=
    ⟨blocking_release .., lock_release .., inner_release ..⟩
  cases operation with
  | get key =>
    simp only [settle] at hsettle
    split at hsettle
    · -- the layer leaves the key to the worker
      have hclose (middle : Pool σ) : Work inner workers (middle.goTo thread (.closing key)) _ :=
        .close (phase_goTo ..)
      exact ⟨_, .head (.work hsettle) (.single (.work (hclose _))), phase_goTo .., hreleased _ key⟩
    · exact ⟨_, .single (.work hsettle), phase_goTo .., hreleased _ key⟩
  | put key value => exact ⟨_, .single (.work hsettle), phase_goTo .., hreleased _ key⟩
  | remove key => exact ⟨_, .single (.work hsettle), phase_goTo .., hreleased _ key⟩
  | clear => exact ⟨_, .single (.work hsettle), phase_goTo .., rfl, rfl, rfl⟩
  | size => exact ⟨_, .single (.work hsettle), phase_goTo .., rfl, rfl, rfl⟩

/-- What a worker does with the built layers in one go, in terms of the cache beneath them. It waits forever
for a key that another worker holds. -/
lemma work_around {blocking : Blocking} {call : Call} {first : σ} (htimeout : blocking.timeout = none)
    (hunlocked : inner.unlocked first = true)
    (hperform : inner.perform call first operation = .done outcome state) :
    (Blocking.around (Synchronized.around inner)).work call (blocking, .free, first) operation =
      (operation.admitted? call.thread blocking).map fun granted =>
        (operation.releasing call.thread granted, .free, state) := by
  cases operation with
  | get key =>
    rw [Cache.work]
    show ((Blocking.get (Synchronized.around inner) call key (blocking, .free, first)).alone _).map _ =
      (blocking.admit? key call.thread).map _
    cases hgrant : blocking.admit? key call.thread with
    | none =>
      simp only [Blocking.get, hgrant, htimeout, Blocking.await, Option.map_none]
      rfl
    | some granted =>
      rw [Cache.perform] at hperform
      cases hget : inner.get call key first with
      | waiting deadline ready s resume =>
        rw [hget] at hperform
        cases hperform
      | done found rest =>
        rw [hget] at hperform
        obtain ⟨-, rfl⟩ := Action.done.inj hperform
        have hlookup : (Synchronized.around inner).get call key (.free, first) =
            .done found (.free, rest) := by
          show Synchronized.inside (inner.get call key first) = _
          rw [hget]
          rfl
        simp only [Blocking.get, hgrant, Blocking.admitted, hlookup]
        -- whether by the layer or by the worker, the key is given up
        cases found with
        | error e => rfl
        | ok value => cases value <;> rfl
  | _ =>
    rw [Cache.perform, Cache.gated_of_unlocked hunlocked] at hperform
    obtain ⟨-, rfl⟩ := Action.done.inj hperform
    rfl

/-- A request that an idle worker serves in one go, while nobody has the lock, leads to the same keys, lock
and inner state by the steps of that worker. The other workers can be in the middle of anything. -/
theorem steps_serve {layers : List String} {time : String} {now later : Nat} {request : Request}
    {response : Response} {served : Blocking × Synchronized × σ} (hprompt : inner.Prompt)
    (hunlocked : inner.unlocked pool.inner = true) (htimeout : pool.blocking.timeout = none)
    (hlock : pool.lock = .free) (hthread : thread ∈ workers) (hidle : pool.phase thread = .idle)
    (hserve : Server.serve (Blocking.around (Synchronized.around inner)) layers time (.at thread now) request
      (pool.blocking, .free, pool.inner) = some (response, served, later)) :
    ∃ pool', Steps inner workers pool pool' ∧ pool'.phase thread = .idle ∧
      (pool'.blocking, pool'.lock, pool'.inner) = served := by
  have hserved := congrArg (Option.map (·.2.1)) hserve
  rw [Server.serve_state] at hserved
  cases hrequest : request.operation? with
  | none =>
    rw [hrequest] at hserved
    obtain rfl := Option.some.inj hserved
    exact ⟨pool, .refl, hidle, by rw [hlock]⟩
  | some operation =>
    rw [hrequest] at hserved
    obtain ⟨outcome, state, hperform, -⟩ := hprompt.perform hunlocked (.at thread now) operation
    simp only [work_around htimeout hunlocked hperform] at hserved
    obtain ⟨blocking, hgrant, rfl⟩ := Option.map_eq_some_iff.1 hserved
    let operated : Pool σ := { pool with blocking, inner := state }
    have hrun : Steps inner workers pool (operated.goTo thread (.settling operation outcome)) :=
      (steps_begun hthread hidle hrequest).trans
        ((steps_admitted hgrant).trans (steps_locked now hlock hperform))
    obtain ⟨pool', hsettled, hdone, hblocking, hfree, hinner⟩ :=
      steps_settled operated thread operation outcome
    refine ⟨pool', hrun.trans hsettled, hdone, ?_⟩
    rw [hblocking, hfree, hinner]
    exact congrArg (fun lock => (_, lock, _)) hlock

/-- When two workers are asked for one key, one of them can get it and the other one fall asleep. -/
lemma exists_asleep (inner : Cache σ) (first : σ) {request : Request} {key : String}
    (hrequest : request.operation? = some (.get key)) :
    ∃ pool, Steps inner Set.univ (start first) pool ∧ pool.phase 2 = .asleep key := by
  let held : Blocking := (Blocking.empty none).hold key 1
  let one : Pool σ := { start first with blocking := held }.goTo 1 (.waiting (.get key))
  have hone : Steps inner Set.univ (start first) one :=
    (steps_begun (Set.mem_univ 1) rfl hrequest).trans (steps_admitted rfl)
  have hidle : one.phase 2 = .idle := phase_goTo_of_ne (by decide) ..
  have htwo : Steps inner Set.univ one (one.goTo 2 (.asking key)) :=
    steps_begun (Set.mem_univ 2) hidle hrequest
  have hkept : held.admit? key 2 = none :=
    Blocking.admit?_eq_none.2 ⟨1, by rw [Blocking.holder?_hold, if_pos rfl], by decide⟩
  have hsleep : Work inner Set.univ (one.goTo 2 (.asking key)) _ := .sleep (phase_goTo ..) hkept
  exact ⟨_, (hone.trans htwo).tail (.work hsleep), phase_goTo ..⟩

end

end Pool

/-! ## Requests to a built cache -/

namespace Spec

variable {E : Extension} {spec : Spec E} {now : Nat} {stack : Stack E}

/-- A cache built with blocking and without a timeout is a chain under synchronization and blocking. Whatever
requests its workers serve, some worker can act as long as a request is not done, and no key is held when
no worker is in an operation. -/
theorem requests_progress (hbuild : spec.build now = .ok stack)
    (hperpetual : spec.storage.isPerpetual = true) (hblocking : spec.blocking = true)
    (htimeout : spec.blockingTimeout = none) (hadded : spec.AddsPrompt) :
    ∃ (ds : List (DecoratorKind E)) (state : Chain .perpetual ds),
      stack = ⟨.perpetual, .blocking :: .synchronized :: ds,
        (Blocking.empty none, Synchronized.free, state)⟩ ∧
      ∀ (workers : Set Nat) (pool : Pool (Chain .perpetual ds)), workers.Nonempty →
        Pool.Steps (Chain.cache .perpetual ds) workers (.start state) pool →
        (pool.Busy → ∃ pool', Pool.Work (Chain.cache .perpetual ds) workers pool pool') ∧
        ((∀ thread, pool.phase thread = .idle) → pool.blocking.held = []) := by
  obtain ⟨ds, state, hstack, hprompt, hunlocked⟩ := build_eq_blocking hbuild hperpetual hblocking hadded
  rw [htimeout] at hstack
  refine ⟨ds, state, hstack, fun workers pool hworkers hsteps => ?_⟩
  obtain ⟨owner, horderly⟩ := Pool.orderly_of_steps hprompt hunlocked hsteps
  exact ⟨horderly.exists_work hworkers, horderly.held_eq_nil⟩

/-- Puts a prefix before every key, as a decorator of an application might do. -/
def prefixed (inner : Cache σ) : Cache (String × σ) :=
  { Cache.forward String inner with
    put := fun call key value s => (Cache.forward String inner).put call (s.1 ++ key) value s
    get := fun call key s => (Cache.forward String inner).get call (s.1 ++ key) s
    remove := fun call key s => (Cache.forward String inner).remove call (s.1 ++ key) s }

lemma prefixed_prompt {inner : Cache σ} (h : inner.Prompt) : (prefixed inner).Prompt := by
  have hforward := h.forward String
  constructor
  · exact fun {s} call key value hs => hforward.put call (s.1 ++ key) value hs
  · exact fun {s} call key hs => hforward.get call (s.1 ++ key) hs
  · exact fun {s} call key hs => hforward.remove call (s.1 ++ key) hs
  · exact fun call hs => hforward.clear call hs
  · exact fun call hs => hforward.size call hs

/-- The decorator with its prefix as an attribute. -/
def withPrefix : Extension where
  Storage := Empty
  Decorator := Unit
  storage := nofun
  decorator _ :=
    { name := "app::Prefix"
      State := String
      around := prefixed
      attributes := .single "prefix" .text fun value own =>
        match value with
        | .text start => .ok start
        | _ => .ok own
      make := fun _ => .ok "" }

/-- The keys of a region, under blocking. -/
def inRegion : Spec withPrefix :=
  { Spec.new "users" with
    decorators := [.decorator .lru, .decorator (.added ())]
    properties := .ofList [("prefix", "eu:")]
    blocking := true }

lemma inRegion_addsPrompt : inRegion.AddsPrompt := fun _ _ _ _ =>
  ⟨_, DecoratorModel.prompt_of_any (fun hs => hs) prefixed_prompt⟩

/-- A request for the key `k`. -/
def getK : Request :=
  { method := "GET", target := "/get/k", contentType := none, body := [] }

lemma getK_operation? : getK.operation? = some (.get "k") := by
  have hroute : Route.ofPath? (Target.path getK.target) = some (.get ['k']) := by decide
  have hkey : Target.segmentText? ['k'] = some "k" := by decide +kernel
  have hmethod : getK.method ∈ (Route.get ['k']).methods := by decide
  unfold Request.operation?
  rw [hroute]
  simp only [if_pos hmethod, Route.operation?, Server.readKey, hkey]
  rfl

/-- While one worker has got a key, another one sleeps, and some worker can act. -/
theorem requests_progress_inRegion : ∃ (ds : List (DecoratorKind withPrefix)) (state : Chain .perpetual ds)
    (pool : Pool (Chain .perpetual ds)),
    inRegion.build 0 = .ok ⟨.perpetual, .blocking :: .synchronized :: ds,
      (Blocking.empty none, Synchronized.free, state)⟩ ∧
      Pool.Steps (Chain.cache .perpetual ds) Set.univ (.start state) pool ∧ pool.phase 2 = .asleep "k" ∧
      ∃ pool', Pool.Work (Chain.cache .perpetual ds) Set.univ pool pool' := by
  obtain ⟨stack, hbuild⟩ : ∃ stack, inRegion.build 0 = .ok stack := ⟨_, rfl⟩
  obtain ⟨ds, state, rfl, hprogress⟩ := requests_progress hbuild rfl rfl rfl inRegion_addsPrompt
  obtain ⟨pool, hsteps, hasleep⟩ := Pool.exists_asleep (Chain.cache .perpetual ds) state getK_operation?
  have hbusy : pool.Busy := .inr ⟨2, by rw [hasleep]; exact nofun⟩
  exact ⟨ds, state, pool, hbuild, hsteps, hasleep, (hprogress Set.univ pool ⟨0, trivial⟩ hsteps).1 hbusy⟩

end Spec

end LayeredCache
