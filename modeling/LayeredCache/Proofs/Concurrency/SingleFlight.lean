import LayeredCache.Layer.Perpetual
import LayeredCache.Proofs.Layer.Holds
import Mathlib.Logic.Function.Basic
import Mathlib.Logic.Relation

/-!
# One lookup at a time

Any number of threads share a blocking layer around any cache. A lookup is an admission, a lookup in the
inner cache and the end of the admitted lookup; a put or a removal is a call of the inner cache and a
release. Other threads act between these steps. A key is held by a thread exactly as long as the thread
is in an admitted lookup of the key, or owes a value for the key that it did not find.
-/

namespace LayeredCache

variable {σ : Type}

namespace Blocking

/-! ## Threads between their steps -/

/-- What a write hands to the inner cache. -/
inductive Write where
  | put (value : Json)
  | remove

/-- What a thread is in the middle of. -/
inductive Phase (σ : Type) where
  | idle
  /-- A lookup is not admitted yet, and waits until the deadline. -/
  | asking (key : String) (deadline : Option Nat)
  /-- An admitted lookup has not asked the inner cache yet. -/
  | admitted (key : String)
  /-- The inner lookup waits. -/
  | inside (key : String) (deadline : Option Nat) (ready : σ → Bool) (resume : Nat → σ → Lookup σ)
  /-- The inner lookup has an outcome, and the admitted lookup is about to end. -/
  | leaving (key : String) (outcome : Found)
  | writing (key : String) (write : Write)
  /-- The inner cache is written to, and the release is still to come. -/
  | written (key : String)

/-- The key of the admitted lookup that a thread is in. -/
def Phase.pending? : Phase σ → Option String
  | .admitted key => some key
  | .inside key _ _ _ => some key
  | .leaving key _ => some key
  | _ => none

/-- What a step leaves in the history. -/
inductive Event where
  | admitted (thread : Nat) (key : String)
  /-- A lookup has returned. -/
  | finished (thread : Nat) (key : String) (outcome : Found)
  /-- The release step of a put, a removal or a release. -/
  | gaveUp (thread : Nat) (key : String)

/-- The states that threads share, what each thread is in the middle of, and what has happened, the latest
event first. -/
structure Shared (σ : Type) where
  blocking : Blocking
  inner : σ
  phase : Nat → Phase σ
  history : List Event

namespace Shared

/-- Nobody has done anything. -/
def start (timeout : Option Nat) (inner : σ) : Shared σ :=
  ⟨.empty timeout, inner, fun _ => .idle, []⟩

/-- A thread goes on to a phase. -/
def goTo (s : Shared σ) (thread : Nat) (phase : Phase σ) : Shared σ :=
  { s with phase := Function.update s.phase thread phase }

/-- A thread takes in what has become of its inner lookup. -/
def enter (s : Shared σ) (thread : Nat) (key : String) : Lookup σ → Shared σ
  | .done outcome inner => { s with inner }.goTo thread (.leaving key outcome)
  | .waiting deadline ready inner resume =>
    { s with inner }.goTo thread (.inside key deadline ready resume)

end Shared

/-- The state of the inner cache after a write, whatever its outcome. -/
def Write.inner (inner : Cache σ) (call : Call) (key : String) (s : σ) : Write → σ
  | .put value => (inner.put call key value s).2
  | .remove => (inner.remove call key s).2

/-- One step of a thread, at any instant. -/
inductive Step (inner : Cache σ) : Shared σ → Shared σ → Prop where
  | ask {s} (thread now key) : s.phase thread = .idle →
    Step inner s (s.goTo thread (.asking key (s.blocking.timeout.map (now + ·))))
  | grant {s thread key deadline blocking} : s.phase thread = .asking key deadline →
    s.blocking.admit? key thread = some blocking →
    Step inner s ({ s with
      blocking, history := .admitted thread key :: s.history }.goTo thread (.admitted key))
  | timeOut {s thread key deadline} (now) : s.phase thread = .asking key (some deadline) →
    deadline ≤ now → s.blocking.admit? key thread = none →
    Step inner s ({ s with
      history := .finished thread key
        (.error (.lockTimeout (inner.id s.inner) key s.blocking.timeoutMillis)) :: s.history }.goTo
      thread .idle)
  | lookUp {s thread key} (now) : s.phase thread = .admitted key →
    Step inner s (s.enter thread key (inner.get (.at thread now) key s.inner))
  | resume {s thread key deadline ready resume} (now) :
    s.phase thread = .inside key deadline ready resume →
    (ready s.inner = true ∨ ∃ instant, deadline = some instant ∧ instant ≤ now) →
    Step inner s (s.enter thread key (resume now s.inner))
  | leave {s thread key outcome} : s.phase thread = .leaving key outcome →
    Step inner s ({ s with
      blocking := (settle key thread outcome s.blocking).2
      history := .finished thread key outcome :: s.history }.goTo thread .idle)
  | write {s} (thread key write) : s.phase thread = .idle →
    Step inner s (s.goTo thread (.writing key write))
  | store {s thread key write} (now) : s.phase thread = .writing key write →
    Step inner s ({ s with
      inner := write.inner inner (.at thread now) key s.inner }.goTo thread (.written key))
  | giveUp {s thread key} : s.phase thread = .written key →
    Step inner s ({ s with
      blocking := s.blocking.release key thread
      history := .gaveUp thread key :: s.history }.goTo thread .idle)
  | release {s} (thread key) : s.phase thread = .idle →
    Step inner s ({ s with
      blocking := s.blocking.release key thread
      history := .gaveUp thread key :: s.history }.goTo thread .idle)
  | clear {s} (thread now) : s.phase thread = .idle →
    Step inner s { s with inner := (inner.clear (.at thread now) s.inner).2 }
  | size {s} (thread now) : s.phase thread = .idle →
    Step inner s { s with inner := (inner.size (.at thread now) s.inner).2 }

/-- Some steps, of any threads. -/
abbrev Steps (inner : Cache σ) : Shared σ → Shared σ → Prop :=
  Relation.ReflTransGen (Step inner)

/-- A state that threads can lead to, from any state of the inner cache and with any timeout. -/
def Reachable (inner : Cache σ) (s : Shared σ) : Prop :=
  ∃ timeout first, Steps inner (.start timeout first) s

/-! ## The layer's operations are runs of the steps -/

/-- The rest of a thread's lookup that waits: until when, for what, and how it goes on. -/
def Phase.rest? (inner : Cache σ) (thread : Nat) : Phase σ →
    Option (Option Nat × (Blocking × σ → Bool) × (Nat → Blocking × σ → Lookup (Blocking × σ)))
  | .asking key deadline =>
    some (deadline, fun s => (s.1.admit? key thread).isSome, fun now s =>
      match s.1.admit? key thread with
      | some own => Blocking.admitted inner (.at thread now) key (own, s.2)
      | none => timedOut inner key s)
  | .inside key deadline ready resume =>
    some (deadline, fun s => ready s.2, fun now s => (resume now s.2).outward (settle key thread) s.1)
  | _ => none

/-- The thread has come as far as the layer's lookup says. -/
def Shared.Shows (inner : Cache σ) (thread : Nat) (key : String) (s : Shared σ) :
    Lookup (Blocking × σ) → Prop
  | .done outcome state => s.phase thread = .idle ∧ (s.blocking, s.inner) = state ∧
    ∃ history, s.history = .finished thread key outcome :: history
  | .waiting deadline ready state resume =>
    (s.phase thread).rest? inner thread = some (deadline, ready, resume) ∧ (s.blocking, s.inner) = state

variable {inner : Cache σ} {s s' : Shared σ} {thread : Nat} {key : String}

@[simp]
lemma phase_goTo (s : Shared σ) (thread : Nat) (phase : Phase σ) :
    (s.goTo thread phase).phase thread = phase :=
  Function.update_self ..

/-- An admitted lookup takes in the outcome of the inner one and ends, or waits with it. -/
lemma steps_enter (inner : Cache σ) (s : Shared σ) (thread : Nat) (key : String) (lookup : Lookup σ) :
    ∃ s', Steps inner (s.enter thread key lookup) s' ∧
      s'.Shows inner thread key (lookup.outward (settle key thread) s.blocking) := by
  cases lookup with
  | done outcome state =>
    refine ⟨_, .single (.leave (phase_goTo ..)), phase_goTo .., rfl, ?_⟩
    have houtcome := fst_settle key thread outcome s.blocking
    exact ⟨s.history, congrArg (fun found => Event.finished thread key found :: s.history) houtcome.symm⟩
  | waiting deadline ready state resume =>
    refine ⟨_, .refl, ?_, rfl⟩
    show ((s.enter thread key _).phase thread).rest? inner thread = _
    rw [Shared.enter, phase_goTo]
    rfl

/-- A lookup that is admitted goes on to the inner cache. -/
lemma steps_admitted (inner : Cache σ) {deadline : Option Nat} {own : Blocking} (now : Nat)
    (hphase : s.phase thread = .asking key deadline) (hgrant : s.blocking.admit? key thread = some own) :
    ∃ s', Steps inner s s' ∧
      s'.Shows inner thread key (admitted inner (.at thread now) key (own, s.inner)) := by
  obtain ⟨s', hsteps, hshows⟩ := steps_enter inner ({ s with
    blocking := own, history := .admitted thread key :: s.history }.goTo thread (.admitted key))
    thread key (inner.get (.at thread now) key s.inner)
  refine ⟨s', ?_, hshows⟩
  have hadmitted : Step inner s _ := .grant hphase hgrant
  exact .head hadmitted (.head (.lookUp now (phase_goTo ..)) hsteps)

/-- What a lookup of the layer does at once is a run of steps. -/
lemma steps_get (inner : Cache σ) {s : Shared σ} {thread : Nat} (now : Nat) (key : String)
    (hphase : s.phase thread = .idle) :
    ∃ s', Steps inner s s' ∧
      s'.Shows inner thread key (get inner (.at thread now) key (s.blocking, s.inner)) := by
  have hask : Step inner s _ := .ask thread now key hphase
  show ∃ s', Steps inner s s' ∧ s'.Shows inner thread key
    (match s.blocking.admit? key thread with
      | some own => admitted inner (.at thread now) key (own, s.inner)
      | none =>
        if s.blocking.timeout = some 0 then timedOut inner key (s.blocking, s.inner)
        else await inner (.at thread now) key (s.blocking, s.inner))
  cases hgrant : s.blocking.admit? key thread with
  | some own =>
    obtain ⟨s', hsteps, hshows⟩ := steps_admitted inner now (phase_goTo s thread _) hgrant
    exact ⟨s', .head hask hsteps, hshows⟩
  | none =>
    by_cases hzero : s.blocking.timeout = some 0
    · simp only [hzero, if_true]
      rw [hzero] at hask
      have htimeOut : Step inner (s.goTo thread (.asking key (some (now + 0)))) _ :=
        .timeOut now (phase_goTo ..) (Nat.le_refl now) hgrant
      exact ⟨_, .head hask (.single htimeOut), phase_goTo .., rfl, s.history, rfl⟩
    · simp only [hzero, if_false]
      refine ⟨_, .single hask, ?_, rfl⟩
      rw [phase_goTo]
      rfl

/-- So is what a lookup does that has waited and goes on. -/
lemma steps_resume {deadline : Option Nat} {ready : Blocking × σ → Bool}
    {resume : Nat → Blocking × σ → Lookup (Blocking × σ)} (now : Nat)
    (hphase : (s.phase thread).rest? inner thread = some (deadline, ready, resume))
    (hready : ready (s.blocking, s.inner) = true ∨ ∃ instant, deadline = some instant ∧ instant ≤ now) :
    ∃ key s', Steps inner s s' ∧ s'.Shows inner thread key (resume now (s.blocking, s.inner)) := by
  cases hthread : s.phase thread with
  | asking key deadline' =>
    rw [hthread, Phase.rest?] at hphase
    obtain ⟨rfl, rfl, rfl⟩ : deadline' = deadline ∧ _ = ready ∧ _ = resume := by
      simpa using hphase
    refine ⟨key, ?_⟩
    cases hgrant : s.blocking.admit? key thread with
    | some own =>
      simp only [hgrant]
      exact steps_admitted inner now hthread hgrant
    | none =>
      simp only [hgrant, Option.isSome_none, Bool.false_eq_true, false_or] at hready ⊢
      obtain ⟨instant, rfl, hinstant⟩ := hready
      exact ⟨_, .single (.timeOut now hthread hinstant hgrant), phase_goTo .., rfl, s.history, rfl⟩
  | inside key deadline' ready' resume' =>
    rw [hthread, Phase.rest?] at hphase
    obtain ⟨rfl, rfl, rfl⟩ : deadline' = deadline ∧ _ = ready ∧ _ = resume := by
      simpa using hphase
    obtain ⟨s', hsteps, hshows⟩ := steps_enter inner s thread key (resume' now s.inner)
    exact ⟨key, s', .head (.resume now hthread hready) hsteps, hshows⟩
  | _ =>
    rw [hthread] at hphase
    cases hphase

/-- And so is a write. -/
lemma steps_write (now : Nat) (key : String) (write : Write) (hphase : s.phase thread = .idle) :
    ∃ s', Steps inner s s' ∧ s'.phase thread = .idle ∧ (s'.blocking, s'.inner) =
      match write with
      | .put value => (put inner (.at thread now) key value (s.blocking, s.inner)).2
      | .remove => (remove inner (.at thread now) key (s.blocking, s.inner)).2 := by
  have hwrite : Step inner s _ := .write thread key write hphase
  have hstore : Step inner (s.goTo thread (.writing key write)) _ := .store now (phase_goTo ..)
  refine ⟨_, .head hwrite (.head hstore (.single (.giveUp (phase_goTo ..)))), phase_goTo .., ?_⟩
  cases write <;> rfl

/-! ## What a step can do -/

namespace Event

/-- The event ends the hold of a thread on a key: the thread gives the key up, or a lookup of it has
returned something else than that there is no value. -/
def Ends (thread : Nat) (key : String) : Event → Prop
  | .admitted _ _ => False
  | .finished t k outcome => (t = thread ∧ k = key) ∧ outcome ≠ .ok none
  | .gaveUp t k => t = thread ∧ k = key

end Event

/-- A step without an event leaves the holds and the admitted lookups as they are. -/
structure Quiet (s s' : Shared σ) : Prop where
  history : s'.history = s.history
  blocking : s'.blocking = s.blocking
  pending : ∀ thread, (s'.phase thread).pending? = (s.phase thread).pending?

/-- A step with an event gives a key to a thread that is admitted, and takes one from a thread whose hold
it ends. The event begins or finishes an admitted lookup, is a lookup that waited too long, or comes from a
thread that is in no lookup. -/
structure Marked (s s' : Shared σ) (event : Event) : Prop where
  history : s'.history = event :: s.history
  holder : ∀ thread key, s'.blocking.holder? key = some thread ↔
    event = .admitted thread key ∨ (s.blocking.holder? key = some thread ∧ ¬event.Ends thread key)
  pending : ∀ thread key, (s'.phase thread).pending? = some key ↔
    event = .admitted thread key ∨
      ((s.phase thread).pending? = some key ∧ ∀ outcome, event ≠ .finished thread key outcome)
  admitted : ∀ thread key holder, event = .admitted thread key →
    s.blocking.holder? key = some holder → holder = thread
  finished : ∀ thread key outcome, event = .finished thread key outcome →
    (s.phase thread).pending? = some key ∨ ∃ id ms, outcome = .error (.lockTimeout id key ms)
  gaveUp : ∀ thread key, event = .gaveUp thread key → (s.phase thread).pending? = none

lemma pending_goTo (s : Shared σ) (thread : Nat) (phase : Phase σ) (other : Nat) :
    ((s.goTo thread phase).phase other).pending? =
      if other = thread then phase.pending? else (s.phase other).pending? := by
  show (Function.update s.phase thread phase other).pending? = _
  by_cases h : other = thread
  · rw [h, Function.update_self, if_pos rfl]
  · rw [Function.update_of_ne h, if_neg h]

/-- A thread that goes on within the same admitted lookup, or within none. -/
private lemma quiet_goTo {inner' : σ} {phase : Phase σ}
    (h : phase.pending? = (s.phase thread).pending?) :
    Quiet s ({ s with inner := inner' }.goTo thread phase) := by
  refine ⟨rfl, rfl, fun other => ?_⟩
  rw [pending_goTo]
  by_cases hother : other = thread
  · rw [if_pos hother, hother, h]
  · rw [if_neg hother]

private lemma quiet_enter (lookup : Lookup σ) (h : (s.phase thread).pending? = some key) :
    Quiet s (s.enter thread key lookup) := by
  cases lookup with
  | done outcome inner' => exact quiet_goTo h.symm
  | waiting deadline ready inner' resume => exact quiet_goTo h.symm

/-- A thread that has been in no lookup of the key, or has just finished one, is idle. -/
private lemma pending_idle {event : Event} {blocking : Blocking} {history : List Event}
    (hadmitted : ∀ t k, event ≠ .admitted t k)
    (hfinished : ∀ t k outcome, event = .finished t k outcome → t = thread)
    (hself : ∀ k, (s.phase thread).pending? = some k → ∃ outcome, event = .finished thread k outcome)
    (other : Nat) (k : String) :
    ((({ s with blocking, history } : Shared σ).goTo thread .idle).phase other).pending? = some k ↔
      event = .admitted other k ∨
        ((s.phase other).pending? = some k ∧ ∀ outcome, event ≠ .finished other k outcome) := by
  rw [pending_goTo]
  by_cases hother : other = thread
  · subst hother
    rw [if_pos rfl]
    constructor
    · exact nofun
    · rintro (h | ⟨hpending, hnot⟩)
      · exact absurd h (hadmitted other k)
      · obtain ⟨outcome, heq⟩ := hself k hpending
        exact absurd heq (hnot outcome)
  · rw [if_neg hother]
    constructor
    · exact fun h => .inr ⟨h, fun outcome heq => hother (hfinished other k outcome heq)⟩
    · rintro (h | h)
      · exact absurd h (hadmitted other k)
      · exact h.1

private lemma marked_grant {deadline : Option Nat} {blocking : Blocking}
    (hphase : s.phase thread = .asking key deadline)
    (hgrant : s.blocking.admit? key thread = some blocking) :
    Marked s ({ s with
      blocking, history := .admitted thread key :: s.history }.goTo thread (.admitted key))
      (.admitted thread key) := by
  refine ⟨rfl, fun holder other => ?_, fun other k => ?_, ?_, nofun, nofun⟩
  · show blocking.holder? other = some holder ↔ _
    rw [holder?_admit?_eq_some hgrant, Event.admitted.injEq]
    simp only [Event.Ends, not_false_eq_true, and_true]
  · rw [pending_goTo, Event.admitted.injEq]
    by_cases hother : other = thread
    · rw [if_pos hother, hother, hphase]
      simp [Phase.pending?]
    · rw [if_neg hother]
      simp [Ne.symm hother]
  · rintro _ _ holder ⟨⟩ hholder
    rcases admit?_eq_some.1 hgrant with ⟨hfree, -⟩ | ⟨hheld, -⟩
    · rw [hfree] at hholder
      cases hholder
    · exact Option.some.inj (hholder.symm.trans hheld)

private lemma marked_timeOut {deadline : Option Nat} {id : String} {ms : Nat}
    (hphase : s.phase thread = .asking key deadline) (hgrant : s.blocking.admit? key thread = none) :
    Marked s ({ s with
      history := .finished thread key (.error (.lockTimeout id key ms)) :: s.history }.goTo thread .idle)
      (.finished thread key (.error (.lockTimeout id key ms))) := by
  obtain ⟨holder, hholder, hne⟩ := admit?_eq_none.1 hgrant
  refine ⟨rfl, fun other k => ?_, ?_, nofun, ?_, nofun⟩
  · -- the thread has no hold on the key that could end
    show s.blocking.holder? k = some other ↔ _
    constructor
    · intro hheld
      refine .inr ⟨hheld, ?_⟩
      rintro ⟨⟨rfl, rfl⟩, -⟩
      exact hne (Option.some.inj (hholder.symm.trans hheld))
    · rintro (h | h)
      · cases h
      · exact h.1
  · refine pending_idle nofun (fun t k outcome h => (Event.finished.inj h).1.symm) fun k hpending => ?_
    rw [hphase] at hpending
    cases hpending
  · rintro _ _ _ ⟨⟩
    exact .inr ⟨id, ms, rfl⟩

private lemma marked_leave {outcome : Found} (hphase : s.phase thread = .leaving key outcome) :
    Marked s ({ s with
      blocking := (settle key thread outcome s.blocking).2
      history := .finished thread key outcome :: s.history }.goTo thread .idle)
      (.finished thread key outcome) := by
  have hpending : (s.phase thread).pending? = some key := by rw [hphase]; rfl
  refine ⟨rfl, fun other k => ?_, ?_, nofun, ?_, nofun⟩
  · show (settle key thread outcome s.blocking).2.holder? k = some other ↔ _
    unfold settle
    split
    · simp [Event.Ends]
    · rename_i hfound
      rw [holder?_release_eq_some]
      have hends : (Event.finished thread key outcome).Ends other k ↔ thread = other ∧ key = k :=
        ⟨fun h => h.1, fun h => ⟨h, hfound⟩⟩
      simp [hends]
  · refine pending_idle nofun (fun t k found h => (Event.finished.inj h).1.symm) fun k h => ?_
    obtain rfl := Option.some.inj (hpending.symm.trans h)
    exact ⟨outcome, rfl⟩
  · rintro _ _ _ ⟨⟩
    exact .inl hpending

/-- Whatever the thread goes on to, it is in no lookup before and after. -/
private lemma marked_gaveUp (hpending : (s.phase thread).pending? = none) :
    Marked s ({ s with
      blocking := s.blocking.release key thread
      history := .gaveUp thread key :: s.history }.goTo thread .idle) (.gaveUp thread key) := by
  refine ⟨rfl, fun other k => ?_, ?_, nofun, nofun, ?_⟩
  · show (s.blocking.release key thread).holder? k = some other ↔ _
    rw [holder?_release_eq_some]
    simp [Event.Ends]
  · refine pending_idle nofun nofun fun k h => ?_
    rw [hpending] at h
    cases h
  · rintro _ _ ⟨⟩
    exact hpending

/-- Every step is one or the other. -/
lemma step_effect (h : Step inner s s') : Quiet s s' ∨ ∃ event, Marked s s' event := by
  cases h with
  | ask thread now key hphase => exact .inl (quiet_goTo (by rw [hphase]; rfl))
  | grant hphase hgrant => exact .inr ⟨_, marked_grant hphase hgrant⟩
  | timeOut now hphase _ hgrant => exact .inr ⟨_, marked_timeOut hphase hgrant⟩
  | lookUp now hphase => exact .inl (quiet_enter _ (by rw [hphase]; rfl))
  | resume now hphase _ => exact .inl (quiet_enter _ (by rw [hphase]; rfl))
  | leave hphase => exact .inr ⟨_, marked_leave hphase⟩
  | write thread key write hphase => exact .inl (quiet_goTo (by rw [hphase]; rfl))
  | store now hphase => exact .inl (quiet_goTo (by rw [hphase]; rfl))
  | giveUp hphase => exact .inr ⟨_, marked_gaveUp (by rw [hphase]; rfl)⟩
  | release thread key hphase => exact .inr ⟨_, marked_gaveUp (by rw [hphase]; rfl)⟩
  | clear thread now _ => exact .inl ⟨rfl, rfl, fun _ => rfl⟩
  | size thread now _ => exact .inl ⟨rfl, rfl, fun _ => rfl⟩

/-! ## Who holds a key -/

/-- The latest admitted lookup of the key by the thread has found nothing, and nothing has ended the hold
since. -/
def Owes (thread : Nat) (key : String) (history : List Event) : Prop :=
  ∃ after before, history = after ++ .finished thread key (.ok none) :: before ∧
    ∀ event ∈ after, event ≠ .admitted thread key ∧ ¬event.Ends thread key

lemma owes_cons {event : Event} {history : List Event} : Owes thread key (event :: history) ↔
    event = .finished thread key (.ok none) ∨
      ((event ≠ .admitted thread key ∧ ¬event.Ends thread key) ∧ Owes thread key history) := by
  constructor
  · rintro ⟨after, before, hhistory, hafter⟩
    cases after with
    | nil => exact .inl (List.cons.inj hhistory).1
    | cons first after =>
      obtain ⟨rfl, rfl⟩ := List.cons.inj hhistory
      obtain ⟨hfirst, hafter⟩ := List.forall_mem_cons.1 hafter
      exact .inr ⟨hfirst, after, before, rfl, hafter⟩
  · rintro (rfl | ⟨hevent, after, before, rfl, hafter⟩)
    · exact ⟨[], history, rfl, by simp⟩
    · exact ⟨event :: after, before, rfl, List.forall_mem_cons.2 ⟨hevent, hafter⟩⟩

/-- A thread holds exactly the keys of which it is in an admitted lookup, or for which it owes a value. -/
def Accounted (s : Shared σ) : Prop :=
  ∀ thread key, s.blocking.holder? key = some thread ↔
    (s.phase thread).pending? = some key ∨ Owes thread key s.history

lemma Quiet.accounted (h : Quiet s s') (hs : Accounted s) : Accounted s' := by
  intro thread key
  rw [h.blocking, h.history, h.pending]
  exact hs thread key

lemma Marked.accounted {event : Event} (h : Marked s s' event) (hs : Accounted s) : Accounted s' := by
  intro thread key
  rw [h.holder, h.pending, h.history, owes_cons]
  have hbefore := hs thread key
  -- only the thread's own events on the key change what it holds, is in or owes
  by_cases hadmitted : event = .admitted thread key
  · simp [hadmitted]
  by_cases hfinished : ∃ outcome, event = .finished thread key outcome
  · obtain ⟨outcome, rfl⟩ := hfinished
    by_cases hnone : outcome = .ok none
    · -- an admitted lookup that found nothing keeps the hold
      subst hnone
      have hpending : (s.phase thread).pending? = some key := by
        rcases h.finished thread key _ rfl with hpending | ⟨_, _, htimeout⟩
        · exact hpending
        · cases htimeout
      have hheld := hbefore.2 (.inl hpending)
      simp [hheld, Event.Ends]
    · have hends : (Event.finished thread key outcome).Ends thread key := ⟨⟨rfl, rfl⟩, hnone⟩
      simp [hends, hnone]
  by_cases hgaveUp : event = .gaveUp thread key
  · have hpending := h.gaveUp thread key hgaveUp
    subst hgaveUp
    simp [Event.Ends, hpending]
  -- the event is about another thread or another key
  have hkept : ¬event.Ends thread key := by
    cases event with
    | admitted t k => exact id
    | finished t k outcome =>
      rintro ⟨⟨rfl, rfl⟩, -⟩
      exact hfinished ⟨outcome, rfl⟩
    | gaveUp t k =>
      rintro ⟨rfl, rfl⟩
      exact hgaveUp rfl
  have hnotFinished : ∀ outcome, event ≠ .finished thread key outcome :=
    fun outcome heq => hfinished ⟨outcome, heq⟩
  simp [hadmitted, hnotFinished, hkept, hbefore]

/-- As long as a thread has not ended the hold that it got from a lookup that found nothing, it holds the
key, and no lookup of the key by another thread has returned but because of its timeout. -/
def Exclusive (s : Shared σ) : Prop :=
  ∀ thread key after before, s.history = after ++ .finished thread key (.ok none) :: before →
    (∀ event ∈ after, ¬event.Ends thread key) →
    s.blocking.holder? key = some thread ∧
      ∀ other, other ≠ thread → ∀ outcome, .finished other key outcome ∈ after →
        ∃ id ms, outcome = .error (.lockTimeout id key ms)

lemma Quiet.exclusive (h : Quiet s s') (hs : Exclusive s) : Exclusive s' := by
  intro thread key after before hhistory hafter
  rw [h.blocking]
  rw [h.history] at hhistory
  exact hs thread key after before hhistory hafter

lemma Marked.exclusive {event : Event} (h : Marked s s' event) (haccounted : Accounted s)
    (hs : Exclusive s) : Exclusive s' := by
  intro thread key after before hhistory hafter
  rw [h.holder]
  rw [h.history] at hhistory
  cases after with
  | nil =>
    -- the lookup that found nothing has just returned
    obtain ⟨rfl, rfl⟩ := List.cons.inj hhistory
    have hpending : (s.phase thread).pending? = some key := by
      rcases h.finished thread key _ rfl with hpending | ⟨_, _, htimeout⟩
      · exact hpending
      · cases htimeout
    have hheld := (haccounted thread key).2 (.inl hpending)
    exact ⟨.inr ⟨hheld, fun hends => hends.2 rfl⟩, by simp⟩
  | cons first after =>
    obtain ⟨rfl, hrest⟩ := List.cons.inj hhistory
    obtain ⟨hfirst, hafter⟩ := List.forall_mem_cons.1 hafter
    obtain ⟨hheld, hothers⟩ := hs thread key after before hrest hafter
    refine ⟨.inr ⟨hheld, hfirst⟩, fun other hother outcome hmem => ?_⟩
    rcases List.mem_cons.1 hmem with heq | hmem
    · rcases h.finished other key outcome heq.symm with hpending | htimeout
      · -- an admitted lookup of another thread would hold the key
        have hheld' := (haccounted other key).2 (.inl hpending)
        exact absurd (Option.some.inj (hheld'.symm.trans hheld)) hother
      · exact htimeout
    · exact hothers other hother outcome hmem

/-- By induction on the steps that lead to the state. -/
lemma reachable_invariant (h : Reachable inner s) : Accounted s ∧ Exclusive s := by
  obtain ⟨timeout, first, hsteps⟩ := h
  induction hsteps with
  | refl =>
    constructor
    · intro thread key
      constructor
      · exact nofun
      · rintro (h | ⟨after, before, hhistory, -⟩)
        · cases h
        · exact absurd hhistory (by simp [Shared.start])
    · intro thread key after before hhistory
      exact absurd hhistory (by simp [Shared.start])
  | tail _ hstep ih =>
    obtain ⟨haccounted, hexclusive⟩ := ih
    rcases step_effect hstep with hquiet | ⟨event, hmarked⟩
    · exact ⟨hquiet.accounted haccounted, hquiet.exclusive hexclusive⟩
    · exact ⟨hmarked.accounted haccounted, hmarked.exclusive haccounted hexclusive⟩

/-- A key is held by a thread exactly while the thread is in an admitted lookup of the key, or owes a value
for it. So from a lookup that found nothing until its thread ends the hold, every lookup of the key by
another thread waits or has waited too long, whatever the others do with the key. -/
theorem single_flight (h : Reachable inner s) :
    (∀ thread key, s.blocking.holder? key = some thread ↔
      (s.phase thread).pending? = some key ∨ Owes thread key s.history) ∧
    ∀ thread key after before, s.history = after ++ .finished thread key (.ok none) :: before →
      (∀ event ∈ after, ¬event.Ends thread key) →
      ∀ other, other ≠ thread → (s.phase other).pending? ≠ some key ∧
        ∀ outcome, .finished other key outcome ∈ after →
          ∃ id ms, outcome = .error (.lockTimeout id key ms) := by
  obtain ⟨haccounted, hexclusive⟩ := reachable_invariant h
  refine ⟨haccounted, fun thread key after before hhistory hafter other hother => ?_⟩
  obtain ⟨hheld, hothers⟩ := hexclusive thread key after before hhistory hafter
  refine ⟨fun hpending => ?_, hothers other hother⟩
  have hheld' := (haccounted other key).2 (.inl hpending)
  exact hother (Option.some.inj (hheld'.symm.trans hheld))

/-- A thread that has not found a key holds it, and no other thread gets into a lookup of it. -/
theorem single_flight_missed : ∃ s, Reachable Perpetual.cache s ∧ s.blocking.holder? "k" = some 1 ∧
    ∀ other, other ≠ 1 → (s.phase other).pending? ≠ some "k" := by
  let first : Shared Perpetual := .start (some 5) (.empty "users")
  obtain ⟨s, hsteps, hshows⟩ := steps_get Perpetual.cache 0 "k" (show first.phase 1 = .idle from rfl)
  obtain ⟨-, -, history, hhistory⟩ : s.Shows Perpetual.cache 1 "k" (.done (.ok none) _) := hshows
  have hreachable : Reachable Perpetual.cache s := ⟨some 5, .empty "users", hsteps⟩
  obtain ⟨hholder, hothers⟩ := single_flight hreachable
  refine ⟨s, hreachable, (hholder 1 "k").2 (.inr ⟨[], history, hhistory, by simp⟩), fun other hother => ?_⟩
  exact (hothers 1 "k" [] history hhistory (by simp) other hother).1

end Blocking

end LayeredCache
