import LayeredCache.Proofs.Cache.Invariant
import LayeredCache.Proofs.Concurrency.SingleFlight
import Mathlib.Data.List.Nodup

/-!
# A key is handed on

A thread that holds a key writes to it or gives it up while other threads wait for the key, and nobody begins
anything else. What the others get depends on what they find: as long as lookups find a value, each of them
gets it in its turn and passes the key on (`Stands.endsIn_found`); if they find nothing, the first one keeps
the key and the others go on waiting (`Stands.endsIn_missed`).
-/

namespace LayeredCache

/-! ## Runs that come to an end -/

section

variable {α : Type} {step : α → α → Prop} {goal goal' : α → Prop} {a : α}

/-- Every run of the steps comes to an end, and has reached the goal there. -/
def EndsIn (step : α → α → Prop) (goal : α → Prop) (a : α) : Prop :=
  Acc (fun after before => step before after) a ∧
    ∀ b, Relation.ReflTransGen step a b → (∀ c, ¬step b c) → goal b

lemma EndsIn.here (hstop : ∀ b, ¬step a b) (hgoal : goal a) : EndsIn step goal a := by
  refine ⟨⟨_, fun b hstep => absurd hstep (hstop b)⟩, fun b hrun _ => ?_⟩
  rcases hrun.cases_head with rfl | ⟨c, hstep, -⟩
  · exact hgoal
  · exact absurd hstep (hstop c)

lemma EndsIn.onward (hgoes : ∃ b, step a b) (hnext : ∀ b, step a b → EndsIn step goal b) :
    EndsIn step goal a := by
  refine ⟨⟨_, fun b hstep => (hnext b hstep).1⟩, fun b hrun hstop => ?_⟩
  rcases hrun.cases_head with rfl | ⟨c, hstep, hrun⟩
  · obtain ⟨c, hstep⟩ := hgoes
    exact absurd hstep (hstop c)
  · exact (hnext c hstep).2 b hrun hstop

/-- The goal can be reached, as every run can be brought to its end. -/
lemma EndsIn.exists_run (h : EndsIn step goal a) : ∃ b, Relation.ReflTransGen step a b ∧ goal b := by
  obtain ⟨hacc, hgoal⟩ := h
  induction hacc with
  | intro a _ ih =>
    by_cases hstop : ∀ b, ¬step a b
    · exact ⟨a, .refl, hgoal a .refl hstop⟩
    · obtain ⟨b, hstep⟩ := not_forall_not.1 hstop
      obtain ⟨c, hrun, hc⟩ := ih b hstep fun c hrun => hgoal c (.head hstep hrun)
      exact ⟨c, .head hstep hrun, hc⟩

lemma EndsIn.mono (h : EndsIn step goal a) (himp : ∀ b, goal b → goal' b) : EndsIn step goal' a :=
  ⟨h.1, fun b hrun hstop => himp b (h.2 b hrun hstop)⟩

end

/-- Lookups of the key in a state of which something is known give this outcome at once, and it stays known. -/
def Cache.Gives {σ : Type} (cache : Cache σ) (known : σ → Prop) (key : String) (found : Option Json) : Prop :=
  ∀ thread now s, known s → ∃ s', cache.get (.at thread now) key s = .done (.ok found) s' ∧ known s'

namespace Blocking

variable {σ : Type} {inner : Cache σ} {s s' : Shared σ} {thread now : Nat} {key : String}

/-! ## How a thread goes on -/

namespace Shared

/-- A thread is admitted to a key. -/
def grant (s : Shared σ) (thread : Nat) (key : String) (blocking : Blocking) : Shared σ :=
  { s with blocking, history := .admitted thread key :: s.history }.goTo thread (.admitted key)

/-- A thread gives a key up. -/
def giveUp (s : Shared σ) (thread : Nat) (key : String) : Shared σ :=
  { s with
    blocking := s.blocking.release key thread
    history := .gaveUp thread key :: s.history }.goTo thread .idle

/-- A thread hands a write to the inner cache. -/
def store (s : Shared σ) (inner : Cache σ) (thread now : Nat) (key : String) (write : Write) : Shared σ :=
  { s with inner := write.inner inner (.at thread now) key s.inner }.goTo thread (.written key)

/-- A lookup that has an outcome returns it. -/
def finish (s : Shared σ) (thread : Nat) (key : String) (outcome : Found) : Shared σ :=
  { s with history := .finished thread key outcome :: s.history }.goTo thread .idle

/-- What a thread that is in the middle of something does next, if it can go on at the instant. -/
def next? (inner : Cache σ) (thread now : Nat) (s : Shared σ) : Option (Shared σ) :=
  match s.phase thread with
  | .idle => none
  | .asking key deadline =>
    match s.blocking.admit? key thread with
    | some blocking => some (s.grant thread key blocking)
    | none =>
      if deadline.any (· ≤ now) then
        some (s.finish thread key
          (.error (.lockTimeout (inner.id s.inner) key s.blocking.timeoutMillis)))
      else none
  | .admitted key => some (s.enter thread key (inner.get (.at thread now) key s.inner))
  | .inside key deadline ready resume =>
    if ready s.inner || deadline.any (· ≤ now) then some (s.enter thread key (resume now s.inner))
    else none
  | .leaving key outcome =>
    some ({ s with blocking := (settle key thread outcome s.blocking).2 }.finish thread key outcome)
  | .writing key write => some (s.store inner thread now key write)
  | .written key => some (s.giveUp thread key)

/-- The lookups that have returned, the latest first. -/
def returns (s : Shared σ) : List (Nat × String × Found) :=
  s.history.filterMap fun
    | .finished thread key outcome => some (thread, key, outcome)
    | _ => none

end Shared

/-- A thread among some goes on with what it is in the middle of. -/
def Turn (inner : Cache σ) (threads : List Nat) (s s' : Shared σ) : Prop :=
  ∃ thread ∈ threads, ∃ now, s.next? inner thread now = some s'

/-- To go on is a step. -/
lemma step_of_next? (h : s.next? inner thread now = some s') : Step inner s s' := by
  unfold Shared.next? at h
  split at h
  · cases h
  · rename_i key deadline hphase
    split at h
    · rename_i blocking hgrant
      cases h
      exact .grant hphase hgrant
    · rename_i hgrant
      split at h
      · rename_i hpassed
        obtain ⟨instant, rfl, hinstant⟩ := (Option.any_eq_true _ _).1 hpassed
        cases h
        exact .timeOut now hphase (of_decide_eq_true hinstant) hgrant
      · cases h
  · rename_i key hphase
    cases h
    exact .lookUp now hphase
  · rename_i key deadline ready resume hphase
    split at h
    · rename_i hready
      cases h
      refine .resume now hphase ?_
      rcases Bool.or_eq_true_iff.1 hready with hready | hpassed
      · exact .inl hready
      · obtain ⟨instant, rfl, hinstant⟩ := (Option.any_eq_true _ _).1 hpassed
        exact .inr ⟨instant, rfl, of_decide_eq_true hinstant⟩
    · cases h
  · rename_i key outcome hphase
    cases h
    exact .leave hphase
  · rename_i key write hphase
    cases h
    exact .store now hphase
  · rename_i key hphase
    cases h
    exact .giveUp hphase

/-- Every other step is the beginning of something. -/
lemma next?_of_step (h : Step inner s s') :
    (∃ thread now, s.next? inner thread now = some s') ∨
      ∃ thread, s.phase thread = .idle ∧ ∀ other, other ≠ thread → s'.phase other = s.phase other := by
  cases h with
  | ask thread now key hphase =>
    exact .inr ⟨thread, hphase, fun other hother => Function.update_of_ne hother ..⟩
  | grant hphase hgrant =>
    rename_i thread key deadline blocking
    refine .inl ⟨thread, 0, ?_⟩
    rw [Shared.next?, hphase]
    simp only [hgrant]
    rfl
  | timeOut now hphase hpassed hgrant =>
    rename_i thread key deadline
    refine .inl ⟨thread, now, ?_⟩
    rw [Shared.next?, hphase]
    simp only [hgrant, Option.any_some, decide_eq_true hpassed, if_true]
    rfl
  | lookUp now hphase => exact .inl ⟨_, now, by rw [Shared.next?, hphase]⟩
  | resume now hphase hready =>
    rename_i thread key deadline ready resume
    refine .inl ⟨thread, now, ?_⟩
    rw [Shared.next?, hphase]
    refine if_pos (Bool.or_eq_true_iff.2 (hready.imp_right ?_))
    rintro ⟨instant, rfl, hinstant⟩
    exact decide_eq_true hinstant
  | leave hphase => exact .inl ⟨_, 0, by rw [Shared.next?, hphase]; rfl⟩
  | write thread key write hphase =>
    exact .inr ⟨thread, hphase, fun other hother => Function.update_of_ne hother ..⟩
  | store now hphase => exact .inl ⟨_, now, by rw [Shared.next?, hphase]; rfl⟩
  | giveUp hphase => exact .inl ⟨_, 0, by rw [Shared.next?, hphase]; rfl⟩
  | release thread key hphase =>
    exact .inr ⟨thread, hphase, fun other hother => Function.update_of_ne hother ..⟩
  | clear thread now hphase => exact .inr ⟨thread, hphase, fun _ _ => rfl⟩
  | size thread now hphase => exact .inr ⟨thread, hphase, fun _ _ => rfl⟩

/-! ## Threads that wait for a key -/

/-- Of some threads, the waiters wait for the key without a deadline, and the others are idle, but for the one
that holds the key. -/
structure Stands (threads : List Nat) (key : String) (waiters : List Nat) (holder : Option Nat)
    (s : Shared σ) : Prop where
  held : s.blocking.holder? key = holder
  waiting : ∀ thread ∈ waiters, s.phase thread = .asking key none
  idle : ∀ thread ∈ threads, thread ∉ waiters → holder ≠ some thread → s.phase thread = .idle

lemma next?_of_idle (h : s.phase thread = .idle) : s.next? inner thread now = none := by
  rw [Shared.next?, h]

lemma next?_of_asking (h : s.phase thread = .asking key none) :
    s.next? inner thread now = (s.blocking.admit? key thread).map (s.grant thread key) := by
  simp only [Shared.next?, h]
  cases s.blocking.admit? key thread <;> rfl

lemma next?_of_admitted (h : s.phase thread = .admitted key) : s.next? inner thread now =
    some (s.enter thread key (inner.get (.at thread now) key s.inner)) := by
  rw [Shared.next?, h]

lemma next?_of_leaving {outcome : Found} (h : s.phase thread = .leaving key outcome) :
    s.next? inner thread now =
      some ({ s with blocking := (settle key thread outcome s.blocking).2 }.finish thread key outcome) := by
  rw [Shared.next?, h]

lemma next?_of_writing {write : Write} (h : s.phase thread = .writing key write) :
    s.next? inner thread now = some (s.store inner thread now key write) := by
  rw [Shared.next?, h]

lemma next?_of_written (h : s.phase thread = .written key) :
    s.next? inner thread now = some (s.giveUp thread key) := by
  rw [Shared.next?, h]

/-- Each of the waiters has found the value, and nothing else was returned. Nobody holds the key, and all threads
are idle. -/
def Served (threads : List Nat) (key : String) (waiters : List Nat) (value : Json) (before after : Shared σ) :
    Prop :=
  Stands threads key [] none after ∧ ∃ returned, after.returns = returned ++ before.returns ∧
    returned.Perm (waiters.map fun thread => (thread, key, .ok (some value)))

/-- One of the waiters has found nothing, and holds the key. The others still wait. -/
def PassedOn (threads : List Nat) (key : String) (waiters : List Nat) (before after : Shared σ) : Prop :=
  ∃ thread ∈ waiters, after.returns = (thread, key, .ok none) :: before.returns ∧ after.phase thread = .idle ∧
    Stands threads key (waiters.erase thread) (some thread) after

namespace Stands

variable {threads waiters : List Nat} {holder holder' : Option Nat} {goal : Shared σ → Prop}

/-- The holder of the key goes on to a phase; if it does not hold the key any more, it is idle. -/
lemma act (h : Stands threads key waiters (some thread) s) (hthread : thread ∉ waiters) {phase : Phase σ}
    (hphase : s'.phase = Function.update s.phase thread phase) (hholder : s'.blocking.holder? key = holder')
    (hidle : holder' ≠ some thread → phase = .idle) : Stands threads key waiters holder' s' := by
  refine ⟨hholder, fun other hother => ?_, fun other hmem hother hne => ?_⟩
  · have hne : other ≠ thread := fun heq => hthread (heq ▸ hother)
    rw [hphase, Function.update_of_ne hne]
    exact h.waiting other hother
  · rw [hphase]
    by_cases heq : other = thread
    · rw [heq, Function.update_self]
      exact hidle (heq ▸ hne)
    · rw [Function.update_of_ne heq]
      exact h.idle other hmem hother fun hsome => heq (Option.some.inj hsome).symm

/-- A waiter is admitted to a free key. -/
lemma admitted (h : Stands threads key waiters none s) (hnodup : waiters.Nodup) {phase : Phase σ}
    (hphase : s'.phase = Function.update s.phase thread phase)
    (hholder : s'.blocking.holder? key = some thread) :
    Stands threads key (waiters.erase thread) (some thread) s' := by
  refine ⟨hholder, fun other hother => ?_, fun other hmem hother hne => ?_⟩
  · obtain ⟨hne, hother⟩ := (hnodup.mem_erase_iff).1 hother
    rw [hphase, Function.update_of_ne hne]
    exact h.waiting other hother
  · have hne : other ≠ thread := fun heq => hne (congrArg some heq.symm)
    rw [hphase, Function.update_of_ne hne]
    exact h.idle other hmem (fun hwaits => hother (hnodup.mem_erase_iff.2 ⟨hne, hwaits⟩)) nofun

/-- Only the holder of the key can go on. -/
lemma next?_of_turn (h : Stands threads key waiters (some thread) s) (hturn : Turn inner threads s s') :
    ∃ now, s.next? inner thread now = some s' := by
  obtain ⟨other, hmem, now, hnext⟩ := hturn
  by_cases heq : other = thread
  · exact ⟨now, heq ▸ hnext⟩
  · by_cases hother : other ∈ waiters
    · have hkept : s.blocking.admit? key other = none := admit?_eq_none.2 ⟨thread, h.held, Ne.symm heq⟩
      rw [next?_of_asking (h.waiting other hother), hkept] at hnext
      cases hnext
    · rw [next?_of_idle (h.idle other hmem hother fun hsome => heq (Option.some.inj hsome).symm)] at hnext
      cases hnext

lemma endsIn_of_next? (h : Stands threads key waiters (some thread) s) (hmem : thread ∈ threads)
    (hnext : ∀ now, ∃ s', s.next? inner thread now = some s' ∧ EndsIn (Turn inner threads) goal s') :
    EndsIn (Turn inner threads) goal s := by
  refine .onward ?_ fun s' hturn => ?_
  · obtain ⟨s', hnext, -⟩ := hnext 0
    exact ⟨s', thread, hmem, 0, hnext⟩
  · obtain ⟨now, hnow⟩ := h.next?_of_turn hturn
    obtain ⟨s'', hnext, hends⟩ := hnext now
    cases hnow.symm.trans hnext
    exact hends

/-- One of the waiters is admitted to a free key. -/
lemma endsIn_of_grant (h : Stands threads key waiters none s) (hwaiters : waiters ≠ [])
    (hsub : waiters ⊆ threads)
    (hnext : ∀ thread ∈ waiters,
      EndsIn (Turn inner threads) goal (s.grant thread key (s.blocking.hold key thread))) :
    EndsIn (Turn inner threads) goal s := by
  have hgrant {thread : Nat} (hthread : thread ∈ waiters) (now : Nat) :
      s.next? inner thread now = some (s.grant thread key (s.blocking.hold key thread)) := by
    rw [next?_of_asking (h.waiting thread hthread), admit?_eq_some.2 (.inl ⟨h.held, rfl⟩)]
    rfl
  refine .onward ?_ ?_
  · obtain ⟨thread, hthread⟩ := List.exists_mem_of_ne_nil waiters hwaiters
    exact ⟨_, thread, hsub hthread, 0, hgrant hthread 0⟩
  · rintro s' ⟨thread, hmem, now, hnow⟩
    by_cases hthread : thread ∈ waiters
    · cases hnow.symm.trans (hgrant hthread now)
      exact hnext thread hthread
    · rw [next?_of_idle (h.idle thread hmem hthread nofun)] at hnow
      cases hnow

variable {known : σ → Prop} {found : Option Json}

/-- One of the waiters is admitted, gets what there is, and keeps the key only if there is nothing. -/
lemma endsIn_of_lookUp (hgives : inner.Gives known key found) (h : Stands threads key waiters none s)
    (hwaiters : waiters ≠ []) (hnodup : waiters.Nodup) (hsub : waiters ⊆ threads) (hknown : known s.inner)
    (hnext : ∀ thread ∈ waiters, ∀ s' : Shared σ, s'.returns = (thread, key, .ok found) :: s.returns →
      s'.phase thread = .idle → known s'.inner →
      Stands threads key (waiters.erase thread) (if found.isNone then some thread else none) s' →
      EndsIn (Turn inner threads) goal s') :
    EndsIn (Turn inner threads) goal s := by
  -- from here on this thread holds the key, so no other one can act until it leaves
  refine h.endsIn_of_grant hwaiters hsub fun thread hthread => ?_
  have hnot : thread ∉ waiters.erase thread := hnodup.not_mem_erase
  have hgranted : Stands threads key (waiters.erase thread) (some thread)
      (s.grant thread key (s.blocking.hold key thread)) :=
    h.admitted hnodup rfl ((holder?_hold ..).trans (if_pos rfl))
  refine hgranted.endsIn_of_next? (hsub hthread) fun now => ?_
  obtain ⟨rest, hget, hrest⟩ := hgives thread now s.inner hknown
  refine ⟨_, next?_of_admitted (phase_goTo ..), ?_⟩
  rw [show (s.grant thread key (s.blocking.hold key thread)).inner = s.inner from rfl, hget]
  have hleaving : Stands threads key (waiters.erase thread) (some thread)
      ((s.grant thread key (s.blocking.hold key thread)).enter thread key (.done (.ok found) rest)) :=
    hgranted.act hnot rfl hgranted.held fun hne => absurd rfl hne
  refine hleaving.endsIn_of_next? (hsub hthread) fun now => ⟨_, next?_of_leaving (phase_goTo ..), ?_⟩
  exact hnext thread hthread _ rfl (phase_goTo ..) hrest
    (hleaving.act hnot rfl (holder?_settle hleaving.held) fun _ => rfl)

/-- As long as lookups find a value, every waiter gets it, and nobody holds the key in the end. -/
theorem endsIn_found {value : Json} (hgives : inner.Gives known key (some value))
    (h : Stands threads key waiters none s) (hnodup : waiters.Nodup) (hsub : waiters ⊆ threads)
    (hknown : known s.inner) : EndsIn (Turn inner threads) (Served threads key waiters value s) s := by
  -- on the number of waiters, as any of them can be the next one
  induction hcount : waiters.length generalizing waiters s with
  | zero =>
    obtain rfl := List.eq_nil_of_length_eq_zero hcount
    refine .here ?_ ⟨h, [], rfl, .refl _⟩
    rintro s' ⟨thread, hmem, now, hnext⟩
    rw [next?_of_idle (h.idle thread hmem List.not_mem_nil nofun)] at hnext
    cases hnext
  | succ n ih =>
    have hwaiters : waiters ≠ [] := List.ne_nil_of_length_eq_add_one hcount
    refine endsIn_of_lookUp hgives h hwaiters hnodup hsub hknown fun thread hthread s' hreturns _ hknown' h' => ?_
    have hcount' : (waiters.erase thread).length = n := by
      rw [List.length_erase_of_mem hthread, hcount, Nat.add_sub_cancel]
    refine (ih h' (hnodup.erase thread) (fun _ hother => hsub (List.mem_of_mem_erase hother)) hknown' hcount').mono ?_
    rintro s'' ⟨hstands, returned, heq, hperm⟩
    refine ⟨hstands, returned ++ [(thread, key, .ok (some value))], ?_, ?_⟩
    · rw [heq, hreturns, List.append_assoc, List.singleton_append]
    · have hall := (List.perm_cons_erase hthread).map fun thread => (thread, key, (.ok (some value) : Found))
      exact (List.perm_append_singleton ..).trans ((hperm.cons _).trans hall.symm)

/-- If lookups find nothing, one of the waiters learns so and gets the key, and the others wait on. -/
theorem endsIn_missed (hgives : inner.Gives known key none) (h : Stands threads key waiters none s)
    (hwaiters : waiters ≠ []) (hnodup : waiters.Nodup) (hsub : waiters ⊆ threads) (hknown : known s.inner) :
    EndsIn (Turn inner threads) (PassedOn threads key waiters s) s := by
  refine endsIn_of_lookUp hgives h hwaiters hnodup hsub hknown fun thread hthread s' hreturns hidle _ h' => ?_
  refine .here (fun s'' hturn => ?_) ⟨thread, hthread, hreturns, hidle, h'⟩
  obtain ⟨now, hnext⟩ := h'.next?_of_turn hturn
  rw [next?_of_idle hidle] at hnext
  cases hnext

/-! ## What the holder of the key does -/

/-- While others wait, the holder of the key has begun nothing else. -/
lemma of_waiting (hheld : s.blocking.holder? key = some thread)
    (hwaiting : ∀ other ∈ waiters, s.phase other = .asking key none) :
    Stands (thread :: waiters) key waiters (some thread) s := by
  refine ⟨hheld, hwaiting, fun other hother hnot hne => ?_⟩
  rcases List.mem_cons.1 hother with rfl | hother
  · exact absurd rfl hne
  · exact absurd hother hnot

lemma write (h : Stands threads key waiters (some thread) s) (hthread : thread ∉ waiters) (write : Write) :
    Stands threads key waiters (some thread) (s.goTo thread (.writing key write)) :=
  h.act hthread rfl h.held fun hne => absurd rfl hne

lemma store (h : Stands threads key waiters (some thread) s) (hthread : thread ∉ waiters) (inner : Cache σ)
    (now : Nat) (write : Write) : Stands threads key waiters (some thread) (s.store inner thread now key write) :=
  h.act hthread rfl h.held fun hne => absurd rfl hne

/-- The holder gives the key up. -/
lemma giveUp (h : Stands threads key waiters (some thread) s) (hthread : thread ∉ waiters) :
    Stands threads key waiters none (s.giveUp thread key) :=
  h.act hthread rfl ((holder?_release ..).trans (if_pos ⟨rfl, h.held⟩)) fun _ => rfl

/-- While the holder writes, nobody else can do anything. -/
lemma turn_writing_iff (h : Stands threads key waiters (some thread) s) (hmem : thread ∈ threads) {write : Write}
    (hphase : s.phase thread = .writing key write) :
    Turn inner threads s s' ↔ ∃ now, s' = s.store inner thread now key write := by
  constructor
  · intro hturn
    obtain ⟨now, hnext⟩ := h.next?_of_turn hturn
    exact ⟨now, Option.some.inj (hnext.symm.trans (next?_of_writing hphase))⟩
  · rintro ⟨now, rfl⟩
    exact ⟨thread, hmem, now, next?_of_writing hphase⟩

/-- When it has written, it gives the key up. -/
lemma endsIn_of_store (h : Stands threads key waiters (some thread) s) (hmem : thread ∈ threads)
    (hthread : thread ∉ waiters) {write : Write}
    (hends : EndsIn (Turn inner threads) goal ((s.store inner thread now key write).giveUp thread key)) :
    EndsIn (Turn inner threads) goal (s.store inner thread now key write) :=
  (h.store hthread inner now write).endsIn_of_next? hmem fun _ => ⟨_, next?_of_written (phase_goTo ..), hends⟩

end Stands

/-- A thread that finds nothing can hold the key while another one waits for it. -/
lemma exists_waiting {first rest : σ} {other : Nat} (hother : other ≠ thread)
    (hget : inner.get (.at thread now) key first = .done (.ok none) rest) :
    ∃ s, Steps inner (.start none first) s ∧ s.inner = rest ∧ s.blocking.holder? key = some thread ∧
      s.phase thread = .idle ∧ s.phase other = .asking key none := by
  let asking : Shared σ := (Shared.start none first).goTo thread (.asking key none)
  let granted := asking.grant thread key ((Blocking.empty none).hold key thread)
  let leaving := granted.enter thread key (.done (.ok none) rest)
  let missed := leaving.finish thread key (.ok none)
  have hask : Step inner (.start none first) asking := .ask thread now key rfl
  have hgrant : Step inner asking granted := .grant (phase_goTo ..) rfl
  have hlookUp : Step inner granted leaving := by
    have hlookUp : Step inner granted _ := .lookUp now (phase_goTo ..)
    rwa [show granted.inner = first from rfl, hget] at hlookUp
  have hleave : Step inner leaving missed := .leave (phase_goTo ..)
  have hidle {s : Shared σ} (hs : s.phase other = .idle) (phase : Phase σ) :
      (s.goTo thread phase).phase other = .idle := (Function.update_of_ne hother ..).trans hs
  have hwait : Step inner missed (missed.goTo other (.asking key none)) :=
    .ask other now key (hidle (hidle (hidle (hidle rfl _) _) _) _)
  have hheld : missed.blocking.holder? key = some thread := (holder?_hold ..).trans (if_pos rfl)
  refine ⟨_, .tail (.tail (.tail (.tail (.single hask) hgrant) hlookUp) hleave) hwait, rfl, hheld, ?_,
    phase_goTo ..⟩
  exact (Function.update_of_ne hother.symm ..).trans (phase_goTo ..)

/-! ## What the inner cache keeps -/

/-- A lookup that waits inside keeps the property when it goes on. -/
def Phase.Keeps (kept : σ → Prop) : Phase σ → Prop
  | .inside _ _ _ resume => ∀ now s, kept s → (resume now s).Keeps kept
  | _ => True

variable {kept : σ → Prop}

/-- The property holds of the inner state, and whoever waits inside keeps it. -/
structure Shared.Keeps (kept : σ → Prop) (s : Shared σ) : Prop where
  inner : kept s.inner
  phases : ∀ thread, (s.phase thread).Keeps kept

namespace Shared.Keeps

lemma goTo {phase : Phase σ} (h : s.Keeps kept) (hphase : s'.phase = Function.update s.phase thread phase)
    (hinner : kept s'.inner) (hown : phase.Keeps kept) : s'.Keeps kept := by
  refine ⟨hinner, ?_⟩
  rw [hphase]
  exact (Function.forall_update_iff s.phase fun _ phase => phase.Keeps kept).2 ⟨hown, fun other _ => h.phases other⟩

lemma enter (h : s.Keeps kept) {lookup : Lookup σ} (hlookup : lookup.Keeps kept) :
    (s.enter thread key lookup).Keeps kept := by
  cases lookup with
  | done outcome rest => exact h.goTo rfl hlookup trivial
  | waiting deadline ready rest resume => exact h.goTo rfl hlookup.1 hlookup.2

lemma step (hinner : inner.Keeps (fun _ => True) kept) (h : s.Keeps kept) (hstep : Step inner s s') :
    s'.Keeps kept := by
  cases hstep with
  | ask thread now key _ => exact h.goTo rfl h.inner trivial
  | grant _ _ => exact h.goTo rfl h.inner trivial
  | timeOut now _ _ _ => exact h.goTo rfl h.inner trivial
  | lookUp now _ => exact h.enter (hinner.get _ _ h.inner)
  | @resume thread _ _ _ _ now hphase _ =>
    have hown := h.phases thread
    rw [hphase] at hown
    exact h.enter (hown now _ h.inner)
  | leave _ => exact h.goTo rfl h.inner trivial
  | write thread key write _ => exact h.goTo rfl h.inner trivial
  | @store thread key write now _ =>
    refine h.goTo rfl ?_ trivial
    cases write with
    | put value => exact hinner.put _ key trivial h.inner
    | remove => exact hinner.remove _ key h.inner
  | giveUp _ => exact h.goTo rfl h.inner trivial
  | release thread key _ => exact h.goTo rfl h.inner trivial
  | clear thread now _ => exact ⟨hinner.clear _ h.inner, h.phases⟩
  | size thread now _ => exact ⟨hinner.size _ h.inner, h.phases⟩

end Shared.Keeps

/-- What every operation of the inner cache keeps holds between the steps of threads. -/
lemma holds_of_steps {timeout : Option Nat} {first : σ} (hinner : inner.Keeps (fun _ => True) kept)
    (hfirst : kept first) (h : Steps inner (.start timeout first) s) : kept s.inner := by
  have hall : s.Keeps kept := by
    induction h with
    | refl => exact ⟨hfirst, fun _ => trivial⟩
    | tail _ hstep ih => exact ih.step hinner hstep
  exact hall.inner

end Blocking

end LayeredCache
