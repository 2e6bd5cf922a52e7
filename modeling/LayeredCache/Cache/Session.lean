import LayeredCache.Cache.Operations

/-!
# Threads sharing a cache

One thread acts at a time on a shared cache. An operation that has to wait stays behind while other
threads act, and goes on as soon as the state allows it or its deadline has passed.
-/

namespace LayeredCache

/-- An operation that waits, with the thread that is in it. -/
structure Waiter (σ ρ : Type) where
  thread : Nat
  deadline : Option Nat
  ready : σ → Bool
  resume : Nat → σ → Action σ ρ

/-- A shared state, the present instant, the operations that wait, and the outcomes of those that do not
wait any longer, by thread. -/
structure Session (σ ρ : Type) where
  state : σ
  now : Nat
  waiters : List (Waiter σ ρ)
  outcomes : List (Nat × ρ)

namespace Session

variable {σ ρ : Type}

def new (state : σ) (now : Nat) : Session σ ρ := ⟨state, now, [], []⟩

/-- The nanoseconds from what one thread does to what is done next. -/
def pace : Nat := 1000

def pass (session : Session σ ρ) (nanos : Nat) : Session σ ρ :=
  { session with now := session.now + nanos }

/-- Takes in what has become of a thread's operation. -/
def absorb (session : Session σ ρ) (thread : Nat) : Action σ ρ → Session σ ρ
  | .done outcome state =>
    { session with state, outcomes := (thread, outcome) :: session.outcomes }
  | .waiting deadline ready state resume =>
    { session with state, waiters := session.waiters ++ [⟨thread, deadline, ready, resume⟩] }

def start (session : Session σ ρ) (thread : Nat) (operation : Call → σ → Action σ ρ) : Session σ ρ :=
  let session := session.pass pace
  session.absorb thread (operation (.at thread session.now) session.state)

def canResume (session : Session σ ρ) (w : Waiter σ ρ) : Bool :=
  w.ready session.state || (w.deadline.map (decide <| · ≤ session.now)).getD false

/-- Lets some waiters go on, each if it can when its turn comes. -/
def wakeEach : List (Waiter σ ρ) → Session σ ρ → Session σ ρ
  | [], session => session
  | w :: ws, session =>
    if session.canResume w then
      let session := session.pass pace
      wakeEach ws (session.absorb w.thread (w.resume session.now session.state))
    else wakeEach ws { session with waiters := session.waiters ++ [w] }

/-- Lets all waiters go on that can, those who have waited longest first. -/
def wake (session : Session σ ρ) : Session σ ρ :=
  wakeEach session.waiters { session with waiters := [] }

/-- The earliest deadline that somebody waits for. -/
def nextDeadline? (session : Session σ ρ) : Option Nat :=
  (session.waiters.filterMap (·.deadline)).min?

/-- The time goes on to an instant, unless that is in the past. -/
def reach (session : Session σ ρ) (instant : Nat) : Session σ ρ :=
  { session with now := max session.now instant }

/-- The outcome of a thread's operation, if there is one, and the session without it. -/
def take (session : Session σ ρ) (thread : Nat) : Option ρ × Session σ ρ :=
  (session.outcomes.lookup thread,
    { session with outcomes := session.outcomes.filter (·.1 ≠ thread) })

end Session

end LayeredCache
