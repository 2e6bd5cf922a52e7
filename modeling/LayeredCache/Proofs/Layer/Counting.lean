import LayeredCache.Layer.Logging
import LayeredCache.Layer.Synchronized
import LayeredCache.Proofs.Cache.Invariant
import LayeredCache.Proofs.Layer.Holds

/-!
# Layers that count lookups

The counts of a cache are in order if every lookup changes them by its own outcome at the moment it ends,
and nothing else changes them. Logging keeps such counts around any inner cache. Synchronization and
blocking pass lookups on one for one, so the counts beneath them are still in order for their callers.
-/

namespace LayeredCache

variable {σ τ ρ υ : Type}

/-! ## Outcomes that count -/

/-- A lookup that found a value. -/
def Outcome.isHit : Outcome → Bool
  | .ok (.found found) => found.isSome
  | _ => false

/-- A lookup that found none. -/
def Outcome.isMiss : Outcome → Bool
  | .ok (.found found) => found.isNone
  | _ => false

/-- The outcome of an operation that is a lookup. -/
def Outcome.ofFound (outcome : Found) : Outcome :=
  outcome.map .found

/-- The counts after one more outcome. -/
def Stats.count (counts : Stats) (outcome : Outcome) : Stats :=
  ⟨counts.hits + outcome.isHit.toNat, counts.misses + outcome.isMiss.toNat⟩

/-- The counts of some outcomes. -/
def Stats.tally (outcomes : List Outcome) : Stats :=
  ⟨outcomes.countP Outcome.isHit, outcomes.countP Outcome.isMiss⟩

lemma Stats.tally_cons (outcome : Outcome) (outcomes : List Outcome) :
    tally (outcome :: outcomes) = (tally outcomes).count outcome := by
  rw [tally, List.countP_cons, List.countP_cons, tally, count]
  cases outcome.isHit <;> cases outcome.isMiss <;> rfl

lemma Stats.tally_perm {outcomes outcomes' : List Outcome} (h : outcomes.Perm outcomes') :
    tally outcomes = tally outcomes' := by
  rw [tally, tally, h.countP_eq, h.countP_eq]

lemma Logging.counts_record (outcome : Found) (own : Logging) :
    (record outcome own).2.counts = own.counts.count (.ofFound outcome) := by
  rcases outcome with e | _ | value <;> rfl

/-! ## Operations that count -/

/-- When the operation ends, the counts have changed by its outcome. While it waits they are what they were,
and what others count meanwhile is kept. -/
def Action.Counts (counts : σ → Stats) (told : ρ → Outcome) (before : Stats) : Action σ ρ → Prop
  | .done outcome s => counts s = before.count (told outcome)
  | .waiting _ _ s resume => counts s = before ∧ ∀ now s, (resume now s).Counts counts told (counts s)

namespace Action.Counts

variable {counts : σ → Stats} {told : ρ → Outcome} {before : Stats} {action : Action σ ρ}

lemma map {told' : υ → Outcome} {f : ρ → υ} (h : action.Counts counts told before)
    (hf : ∀ outcome, told' (f outcome) = told outcome) : (action.map f).Counts counts told' before := by
  induction action generalizing before with
  | done outcome s =>
    show counts s = before.count (told' (f outcome))
    rw [hf]
    exact h
  | waiting deadline ready s resume ih => exact ⟨h.1, fun now s => ih now s (h.2 now s)⟩

/-- A layer around that keeps the outcome as it is. -/
lemma outward {leave : ρ → τ → ρ × τ} (h : action.Counts counts told before) (own : τ)
    (hleave : ∀ outcome own, (leave outcome own).1 = outcome) :
    (action.outward leave own).Counts (fun s => counts s.2) told before := by
  induction action generalizing before own with
  | done outcome s =>
    show counts s = before.count (told (leave outcome own).1)
    rw [hleave]
    exact h
  | waiting deadline ready s resume ih => exact ⟨h.1, fun now s => ih now s.2 (h.2 now s.2) s.1⟩

end Action.Counts

/-- The counts of a cache, which its statistics show, change by the outcomes of lookups alone. -/
structure Cache.Counts (cache : Cache σ) (counts : σ → Stats) : Prop where
  put (call key value s) : counts (cache.put call key value s).2 = counts s
  get (call key s) : (cache.get call key s).Counts counts .ofFound (counts s)
  remove (call key s) : counts (cache.remove call key s).2 = counts s
  clear (call s) : counts (cache.clear call s).2 = counts s
  size (call s) : counts (cache.size call s).2 = counts s
  release (call key s) : counts (cache.release call key s) = counts s
  stats (s) : cache.stats s = some (counts s)

/-! ## Layers -/

/-- Whatever the inner cache does, only the end of a lookup reaches the counts. -/
lemma Logging.countsLookups (inner : Cache σ) : (around inner).Counts fun s => s.1.counts where
  put _ _ _ _ := rfl
  get call key s := by
    show ((inner.get call key s.2).outward record s.1).Counts _ _ s.1.counts
    generalize inner.get call key s.2 = action
    generalize s.1 = own
    induction action generalizing own with
    | done outcome inner' =>
      show (record outcome own).2.counts = own.counts.count (.ofFound (record outcome own).1)
      rw [counts_record]
      cases outcome <;> rfl
    | waiting deadline ready inner' resume ih => exact ⟨rfl, fun now s => ih now s.2 s.1⟩
  remove _ _ _ := rfl
  clear _ _ := rfl
  size _ _ := rfl
  release _ _ _ := rfl
  stats _ := rfl

section

variable {inner : Cache σ} {counts : σ → Stats}

lemma Synchronized.countsLookups (h : inner.Counts counts) :
    (around inner).Counts fun s => counts s.2 where
  put call key value s := h.put call key value s.2
  get call key s := by
    show (get inner call key s).Counts _ _ _
    have hinside (call : Call) (rest : σ) : (inside (inner.get call key rest)).Counts
        (fun s => counts s.2) Outcome.ofFound (counts rest) :=
      (h.get call key rest).outward _ fun _ _ => rfl
    rw [get]
    split
    · exact ⟨rfl, fun now s => hinside _ s.2⟩
    · exact hinside call s.2
  remove call key s := h.remove call key s.2
  clear call s := h.clear call s.2
  size call s := h.size call s.2
  release call key s := h.release call key s.2
  stats s := h.stats s.2

/-- A lookup that waited too long has not reached the counts. -/
lemma Blocking.countsLookups (h : inner.Counts counts) :
    (around inner).Counts fun s => counts s.2 where
  put call key value s := h.put call key value s.2
  get call key s := by
    show (get inner call key s).Counts _ _ _
    have hadmitted (call : Call) (own : Blocking) (rest : σ) :
        (admitted inner call key (own, rest)).Counts (fun s => counts s.2) Outcome.ofFound (counts rest) :=
      (h.get call key rest).outward own (fst_settle key call.thread)
    have htimedOut (s : Blocking × σ) :
        (timedOut inner key s).Counts (fun s => counts s.2) Outcome.ofFound (counts s.2) := rfl
    rw [get]
    split
    · exact hadmitted call _ s.2
    · split
      · exact htimedOut s
      · refine ⟨rfl, fun now s => ?_⟩
        beta_reduce
        split
        · exact hadmitted _ _ s.2
        · exact htimedOut s
  remove call key s := h.remove call key s.2
  clear call s := h.clear call s.2
  size call s := h.size call s.2
  release _ _ _ := rfl
  stats s := h.stats s.2

end

/-! ## Threads that act in any order -/

namespace Cache.Counts

variable {cache : Cache σ} {counts : σ → Stats} {s : σ}

/-- An operation that is no lookup has an outcome that does not count. -/
private lemma gated {operation : Call → σ → Except CacheError ρ × σ} {f : ρ → Answer Json}
    (hf : ∀ answer found, f answer ≠ .found found)
    (hoperation : ∀ call s, counts (operation call s).2 = counts s) (call : Call) (s : σ) :
    ((cache.gated operation call s).map (·.map f)).Counts counts (fun outcome => outcome) (counts s) := by
  have hresult (call : Call) (s : σ) :
      ((Action.ofResult (operation call s)).map (·.map f)).Counts counts (fun outcome => outcome) (counts s) := by
    show counts (operation call s).2 = (counts s).count ((operation call s).1.map f)
    rw [hoperation]
    cases (operation call s).1 with
    | error e => rfl
    | ok answer =>
      have hanswer := hf answer
      show counts s = (counts s).count (.ok (f answer))
      generalize f answer = answer at hanswer
      cases answer with
      | found found => exact absurd rfl (hanswer found)
      | _ => rfl
  unfold Cache.gated
  split
  · exact hresult call s
  · exact ⟨rfl, fun now s => hresult _ s⟩

lemma perform (h : cache.Counts counts) (call : Call) (s : σ) (operation : Operation Json) :
    (cache.perform call s operation).Counts counts (fun outcome => outcome) (counts s) := by
  cases operation with
  | put key value => exact gated (by simp) (fun call s => h.put call key value s) call s
  | get key => exact (h.get call key s).map fun _ => rfl
  | remove key => exact gated (by simp) (fun call s => h.remove call key s) call s
  | clear => exact gated (by simp) h.clear call s
  | size => exact gated (by simp) h.size call s

end Cache.Counts

namespace Session

variable {cache : Cache σ} {values : Json → Prop} {counts : σ → Stats}
  {session session' : Session σ Outcome}

/-- The counts are those of the outcomes so far, and whoever waits will count its own. -/
structure Counted (counts : σ → Stats) (session : Session σ Outcome) : Prop where
  state : counts session.state = .tally (session.outcomes.map Prod.snd)
  waiters : ∀ w ∈ session.waiters, ∀ now s, (w.resume now s).Counts counts id (counts s)

lemma Counted.absorb (h : session.Counted counts) (thread : Nat) {action : Action σ Outcome}
    (haction : action.Counts counts id (counts session.state)) :
    (session.absorb thread action).Counted counts := by
  cases action with
  | done outcome s =>
    refine ⟨?_, h.waiters⟩
    show counts s = .tally (outcome :: session.outcomes.map Prod.snd)
    rw [Stats.tally_cons, ← h.state]
    exact haction
  | waiting deadline ready s resume =>
    refine ⟨haction.1.trans h.state, fun w hw => ?_⟩
    rcases List.mem_append.1 hw with hw | hw
    · exact h.waiters w hw
    · rw [List.mem_singleton.1 hw]
      exact haction.2

lemma Counted.step (hcache : cache.Counts counts) (h : session.Counted counts)
    (hstep : Step cache values session session') : session'.Counted counts := by
  cases hstep with
  | pass nanos => exact ⟨h.state, h.waiters⟩
  | perform thread operation hputs => exact h.absorb thread (hcache.perform _ _ operation)
  | release thread key => exact ⟨(hcache.release _ key _).trans h.state, h.waiters⟩
  | resume hwaiters hready =>
    rename_i before w after
    -- the waiter leaves the queue, and comes back at its end if it has to wait again
    have hmem : ∀ other, other = w ∨ other ∈ before ++ after → other ∈ session.waiters := by
      rw [hwaiters]
      rintro other (rfl | hother)
      · simp
      · exact (List.sublist_append_right [w] after).append_left before |>.subset hother
    have hrest : ({ session with waiters := before ++ after } : Session σ Outcome).Counted counts :=
      ⟨h.state, fun other hother => h.waiters other (hmem other (.inr hother))⟩
    exact hrest.absorb w.thread (h.waiters w (hmem w (.inl rfl)) _ _)

/-- By induction on the steps that lead to the session. -/
lemma Reaches.counted {s : σ} {now : Nat} (h : Reaches cache values (.new s now) session)
    (hcache : cache.Counts counts) (hs : counts s = .none) : session.Counted counts := by
  induction h with
  | refl => exact ⟨hs, by simp [new]⟩
  | tail _ hstep ih => exact ih.step hcache hstep

end Session

end LayeredCache
