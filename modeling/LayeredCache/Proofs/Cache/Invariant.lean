import LayeredCache.Cache.Session
import LayeredCache.Proofs.Cache.Program
import Mathlib.Logic.Relation

/-!
# What every operation keeps

Threads act on a cache in any order: they begin operations and give keys up, an operation that waits goes
on when it can, and time passes. A property of the state that every operation keeps holds after everything
that the threads do.
-/

namespace LayeredCache

variable {σ τ ρ υ : Type}

/-! ## Operations that keep a property -/

namespace Action

/-- The property holds of the state when the operation has ended. It also holds while the operation waits,
if everybody else keeps it meanwhile. -/
def Keeps (kept : σ → Prop) : Action σ ρ → Prop
  | .done _ s => kept s
  | .waiting _ _ s resume => kept s ∧ ∀ now s, kept s → (resume now s).Keeps kept

variable {kept : σ → Prop} {action : Action σ ρ}

lemma Keeps.and {kept' : σ → Prop} (h : action.Keeps kept) (h' : action.Keeps kept') :
    action.Keeps fun s => kept s ∧ kept' s := by
  induction action with
  | done outcome s => exact ⟨h, h'⟩
  | waiting deadline ready s resume ih =>
    exact ⟨⟨h.1, h'.1⟩, fun now s hs => ih now s (h.2 now s hs.1) (h'.2 now s hs.2)⟩

lemma Keeps.map (h : action.Keeps kept) (f : ρ → υ) : (action.map f).Keeps kept := by
  induction action with
  | done outcome s => exact h
  | waiting deadline ready s resume ih => exact ⟨h.1, fun now s hs => ih now s (h.2 now s hs)⟩

/-- The cache around keeps what holds of the inner state. -/
lemma Keeps.outward (h : action.Keeps kept) (leave : ρ → τ → υ × τ) (own : τ) :
    (action.outward leave own).Keeps fun s => kept s.2 := by
  induction action generalizing own with
  | done outcome s => exact h
  | waiting deadline ready s resume ih =>
    exact ⟨h.1, fun now s hs => ih now s.2 (h.2 now s.2 hs) s.1⟩

end Action

/-- Every operation of the cache keeps the property, as long as the values that are put are among
`values`. -/
structure Cache.Keeps (cache : Cache σ) (values : Json → Prop) (kept : σ → Prop) : Prop where
  put {s} (call key) {value} : values value → kept s → kept (cache.put call key value s).2
  get {s} (call key) : kept s → (cache.get call key s).Keeps kept
  remove {s} (call key) : kept s → kept (cache.remove call key s).2
  clear {s} (call) : kept s → kept (cache.clear call s).2
  size {s} (call) : kept s → kept (cache.size call s).2
  release {s} (call key) : kept s → kept (cache.release call key s)

/-- What an operation puts is among the values. -/
def Operation.Puts {V : Type} (values : V → Prop) : Operation V → Prop
  | .put _ value => values value
  | _ => True

namespace Cache

variable {cache : Cache σ} {values : Json → Prop} {kept : σ → Prop} {s : σ}

/-- To wait for the locks changes nothing. -/
lemma keeps_gated {operation : Call → σ → ρ × σ} (call : Call)
    (hoperation : ∀ call s, kept s → kept (operation call s).2) (hs : kept s) :
    (cache.gated operation call s).Keeps kept := by
  unfold gated
  split
  · exact hoperation call s hs
  · exact ⟨hs, fun now s hs => hoperation { call with now } s hs⟩

lemma Keeps.perform (h : cache.Keeps values kept) (call : Call) {operation : Operation Json}
    (hputs : operation.Puts values) (hs : kept s) : (cache.perform call s operation).Keeps kept := by
  cases operation with
  | put key value => exact (keeps_gated call (fun call s hs => h.put call key hputs hs) hs).map _
  | get key => exact (h.get call key hs).map _
  | remove key => exact (keeps_gated call (fun call s hs => h.remove call key hs) hs).map _
  | clear => exact (keeps_gated call (fun call s hs => h.clear call hs) hs).map _
  | size => exact (keeps_gated call (fun call s hs => h.size call hs) hs).map _

lemma Keeps.and {kept' : σ → Prop} (h : cache.Keeps values kept) (h' : cache.Keeps values kept') :
    cache.Keeps values fun s => kept s ∧ kept' s := by
  constructor
  · exact fun call key _ hvalue hs => ⟨h.put call key hvalue hs.1, h'.put call key hvalue hs.2⟩
  · exact fun call key hs => (h.get call key hs.1).and (h'.get call key hs.2)
  · exact fun call key hs => ⟨h.remove call key hs.1, h'.remove call key hs.2⟩
  · exact fun call hs => ⟨h.clear call hs.1, h'.clear call hs.2⟩
  · exact fun call hs => ⟨h.size call hs.1, h'.size call hs.2⟩
  · exact fun call key hs => ⟨h.release call key hs.1, h'.release call key hs.2⟩

/-- Fewer values can be put. -/
lemma Keeps.mono {fewer : Json → Prop} (h : cache.Keeps values kept) (hfewer : ∀ v, fewer v → values v) :
    cache.Keeps fewer kept :=
  { h with put := fun call key _ hvalue hs => h.put call key (hfewer _ hvalue) hs }

/-- Keys that are removed one after another, up to a failure. -/
lemma Keeps.removeAll (h : cache.Keeps values kept) (call : Call) (keys : List String) (hs : kept s) :
    kept (cache.removeAll call keys s).2 := by
  induction keys generalizing s call with
  | nil => exact hs
  | cons key keys ih =>
    have hrest := h.remove call key hs
    rw [Cache.removeAll]
    rcases hremove : cache.remove call key s with ⟨outcome, rest⟩
    rw [hremove] at hrest
    cases outcome with
    | error e => exact hrest
    | ok found => exact ih call.next hrest

end Cache

/-! ## Threads that act in any order -/

namespace Session

/-- What happens next on a shared cache: time passes, a thread begins an operation, a thread gives a key
up, or one of the operations that wait goes on. What is put is among `values`. -/
inductive Step (cache : Cache σ) (values : Json → Prop) : Session σ Outcome → Session σ Outcome → Prop
  | pass (session nanos) : Step cache values session (session.pass nanos)
  | perform (session) (thread : Nat) (operation : Operation Json) : operation.Puts values →
    Step cache values session
      (session.absorb thread (cache.perform (.at thread session.now) session.state operation))
  | release (session) (thread : Nat) (key : String) :
    Step cache values session
      { session with state := cache.release (.at thread session.now) key session.state }
  | resume {session before w after} : session.waiters = before ++ w :: after →
    session.canResume w = true →
    Step cache values session
      (({ session with waiters := before ++ after } : Session σ Outcome).absorb w.thread
        (w.resume session.now session.state))

/-- What can happen in any number of steps. -/
abbrev Reaches (cache : Cache σ) (values : Json → Prop) : Session σ Outcome → Session σ Outcome → Prop :=
  Relation.ReflTransGen (Step cache values)

variable {cache : Cache σ} {values : Json → Prop} {kept : σ → Prop} {session session' : Session σ Outcome}

/-- A thread performs operations, each when some more nanoseconds have passed. -/
def performAll (cache : Cache σ) (thread : Nat) :
    List (Nat × Operation Json) → Session σ Outcome → Session σ Outcome
  | [], session => session
  | (nanos, operation) :: program, session =>
    let session := session.pass nanos
    performAll cache thread program
      (session.absorb thread (cache.perform (.at thread session.now) session.state operation))

lemma reaches_performAll (cache : Cache σ) (thread : Nat) (program : List (Nat × Operation Json))
    (session : Session σ Outcome) (hputs : ∀ entry ∈ program, entry.2.Puts values) :
    Reaches cache values session (performAll cache thread program session) := by
  induction program generalizing session with
  | nil => exact .refl
  | cons entry program ih =>
    obtain ⟨hentry, hprogram⟩ := List.forall_mem_cons.1 hputs
    exact .head (.pass session entry.1) (.head (.perform _ thread entry.2 hentry) (ih _ hprogram))

/-- The property holds of the state, and whoever waits keeps it. -/
structure Keeps (kept : σ → Prop) (session : Session σ Outcome) : Prop where
  state : kept session.state
  waiters : ∀ w ∈ session.waiters, ∀ now s, kept s → (w.resume now s).Keeps kept

lemma Keeps.absorb (h : session.Keeps kept) (thread : Nat) {action : Action σ Outcome}
    (haction : action.Keeps kept) : (session.absorb thread action).Keeps kept := by
  cases action with
  | done outcome s => exact ⟨haction, h.waiters⟩
  | waiting deadline ready s resume =>
    refine ⟨haction.1, fun w hw => ?_⟩
    rcases List.mem_append.1 hw with hw | hw
    · exact h.waiters w hw
    · rw [List.mem_singleton.1 hw]
      exact haction.2

lemma Keeps.step (hcache : cache.Keeps values kept) (h : session.Keeps kept)
    (hstep : Step cache values session session') : session'.Keeps kept := by
  cases hstep with
  | pass nanos => exact ⟨h.state, h.waiters⟩
  | perform thread operation hputs => exact h.absorb thread (hcache.perform _ hputs h.state)
  | release thread key => exact ⟨hcache.release _ key h.state, h.waiters⟩
  | resume hwaiters hready =>
    rename_i before w after
    have hw : w ∈ session.waiters := hwaiters ▸ by simp
    have hothers : ∀ other ∈ before ++ after, other ∈ session.waiters := by
      intro other hother
      rw [hwaiters]
      rcases List.mem_append.1 hother with hother | hother
      · exact List.mem_append_left _ hother
      · exact List.mem_append_right _ (List.mem_cons_of_mem w hother)
    have hrest : ({ session with waiters := before ++ after } : Session σ Outcome).Keeps kept :=
      ⟨h.state, fun other hother => h.waiters other (hothers other hother)⟩
    exact hrest.absorb w.thread (h.waiters w hw _ _ h.state)

/-- What every operation keeps holds after any steps of any threads. -/
theorem Reaches.holds {s : σ} {now : Nat} (h : Reaches cache values (.new s now) session)
    (hcache : cache.Keeps values kept) (hs : kept s) : kept session.state := by
  have hall : session.Keeps kept := by
    induction h with
    | refl => exact ⟨hs, by simp [new]⟩
    | tail _ hstep ih => exact ih.step hcache hstep
  exact hall.state

end Session

end LayeredCache
