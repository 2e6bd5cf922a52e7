import LayeredCache.Proofs.Concurrency.SingleFlight
import LayeredCache.Proofs.Layer.Counting
import Mathlib.Data.List.Nodup

/-!
# Counts between the steps of lookups

Beneath blocking, a lookup is counted when the inner cache has answered, and returns later. In between the
counts are ahead of what callers have seen, by exactly the lookups that are about to return.
-/

namespace LayeredCache.Blocking

variable {σ : Type} {inner : Cache σ} {counts : σ → Stats} {s s' : Shared σ} {thread : Nat} {key : String}
  {leaving : List (Nat × Found)}

/-- The outcome that a thread is about to return. -/
def Phase.outcome? : Phase σ → Option Found
  | .leaving _ outcome => some outcome
  | _ => none

/-- An inner lookup that waits will count its own outcome. -/
def Phase.Counts (counts : σ → Stats) : Phase σ → Prop
  | .inside _ _ _ resume => ∀ now rest, (resume now rest).Counts counts Outcome.ofFound (counts rest)
  | _ => True

/-- The outcome that a step has returned. -/
def Event.outcome? : Event → Option Outcome
  | .finished _ _ outcome => some (.ofFound outcome)
  | _ => none

namespace Shared

/-- The outcomes of the lookups that have returned, the latest first. -/
def returned (s : Shared σ) : List Outcome :=
  s.history.filterMap Event.outcome?

/-- The counts are those of the lookups that have returned and of those that are about to, and whoever waits
inside will count its own. -/
structure Counted (counts : σ → Stats) (s : Shared σ) (leaving : List (Nat × Found)) : Prop where
  distinct : (leaving.map Prod.fst).Nodup
  mem : ∀ thread outcome, (thread, outcome) ∈ leaving ↔ (s.phase thread).outcome? = some outcome
  inner : counts s.inner = .tally (leaving.map (fun entry => .ofFound entry.2) ++ s.returned)
  phases : ∀ thread, (s.phase thread).Counts counts

end Shared

/-- A thread goes on to a phase in which it will count its own outcome. -/
private lemma phases_update {phase : Phase σ} (h : ∀ thread, (s.phase thread).Counts counts)
    (hphase : phase.Counts counts) (other : Nat) :
    (Function.update s.phase thread phase other).Counts counts :=
  (Function.forall_update_iff s.phase fun _ phase => phase.Counts counts).2
    ⟨hphase, fun other _ => h other⟩ other

/-- A thread that is not about to return goes on to something else than to return. -/
private lemma counted_goTo {phase : Phase σ} (h : s.Counted counts leaving)
    (hbefore : (s.phase thread).outcome? = none)
    (hphase : s'.phase = Function.update s.phase thread phase) (hafter : phase.outcome? = none)
    (hcountsOwn : phase.Counts counts)
    (hcounts : counts s'.inner = counts s.inner)
    (hreturned : ∀ outcomes, Stats.tally (outcomes ++ s'.returned) = .tally (outcomes ++ s.returned)) :
    s'.Counted counts leaving := by
  refine ⟨h.distinct, fun other outcome => ?_, ?_, ?_⟩
  · rw [h.mem, hphase]
    by_cases hother : other = thread
    · rw [hother, Function.update_self, hbefore, hafter]
    · rw [Function.update_of_ne hother]
  · rw [hcounts, hreturned]
    exact h.inner
  · rw [hphase]
    exact phases_update h.phases hcountsOwn

/-- The inner lookup counts its outcome when it ends. -/
private lemma counted_enter {lookup : Lookup σ} (h : s.Counted counts leaving)
    (hbefore : (s.phase thread).outcome? = none)
    (hlookup : lookup.Counts counts Outcome.ofFound (counts s.inner)) :
    ∃ leaving, (s.enter thread key lookup).Counted counts leaving := by
  cases lookup with
  | waiting deadline ready rest resume =>
    exact ⟨leaving, counted_goTo h hbefore rfl rfl hlookup.2 hlookup.1 fun _ => rfl⟩
  | done outcome rest =>
    have hnew : ∀ found, (thread, found) ∉ leaving := fun found hmem => by
      rw [h.mem, hbefore] at hmem
      cases hmem
    refine ⟨(thread, outcome) :: leaving, ?_, fun other found => ?_, ?_, phases_update h.phases trivial⟩
    · refine List.nodup_cons.2 ⟨fun hmem => ?_, h.distinct⟩
      obtain ⟨⟨other, found⟩, hentry, heq⟩ := List.mem_map.1 hmem
      obtain rfl : other = thread := heq
      exact hnew found hentry
    · show _ ↔ (Function.update s.phase thread (Phase.leaving key outcome) other).outcome? = some found
      by_cases hother : other = thread
      · subst hother
        rw [Function.update_self]
        simp [hnew, Phase.outcome?, eq_comm]
      · rw [Function.update_of_ne hother, ← h.mem]
        simp [hother]
    · show counts rest = .tally (.ofFound outcome :: (leaving.map _ ++ s.returned))
      rw [Stats.tally_cons, ← h.inner]
      exact hlookup

/-- A lookup that returns has been counted before. -/
private lemma counted_leave {outcome : Found} {blocking : Blocking} (h : s.Counted counts leaving)
    (hphase : s.phase thread = .leaving key outcome) :
    ∃ leaving, (({ s with
      blocking, history := .finished thread key outcome :: s.history } : Shared σ).goTo thread .idle).Counted
      counts leaving := by
  -- the outcome only moves from those that are about to return to those that have
  have hmem : (thread, outcome) ∈ leaving := by rw [h.mem, hphase]; rfl
  obtain ⟨before, after, rfl⟩ := List.append_of_mem hmem
  have hdistinct := h.distinct
  rw [List.map_append, List.map_cons, List.nodup_middle, ← List.map_append] at hdistinct
  obtain ⟨hnotMem, hdistinct⟩ := List.nodup_cons.1 hdistinct
  refine ⟨before ++ after, hdistinct, fun other found => ?_, ?_, phases_update h.phases trivial⟩
  · show _ ↔ (Function.update s.phase thread Phase.idle other).outcome? = some found
    by_cases hother : other = thread
    · subst hother
      rw [Function.update_self]
      exact ⟨fun hmem => absurd (List.mem_map_of_mem (f := Prod.fst) hmem) hnotMem, nofun⟩
    · rw [Function.update_of_ne hother, ← h.mem]
      simp [hother]
  · show counts s.inner = .tally ((before ++ after).map _ ++ .ofFound outcome :: s.returned)
    rw [h.inner]
    refine Stats.tally_perm ?_
    rw [List.map_append, List.map_cons, List.map_append]
    refine (List.perm_middle.append_right _).trans ?_
    rw [List.cons_append]
    exact List.perm_middle.symm

/-- One case per step. Only the end of an inner lookup changes the counts. -/
private lemma counted_step (hinner : inner.Counts counts) (h : s.Counted counts leaving)
    (hstep : Step inner s s') : ∃ leaving, s'.Counted counts leaving := by
  cases hstep with
  | ask thread now key hphase =>
    exact ⟨leaving, counted_goTo h (by rw [hphase]; rfl) rfl rfl trivial rfl fun _ => rfl⟩
  | grant hphase _ =>
    exact ⟨leaving, counted_goTo h (by rw [hphase]; rfl) rfl rfl trivial rfl fun _ => rfl⟩
  | timeOut now hphase _ _ =>
    refine ⟨leaving, counted_goTo h (by rw [hphase]; rfl) rfl rfl trivial rfl fun outcomes => ?_⟩
    exact (Stats.tally_perm List.perm_middle).trans (Stats.tally_cons ..)
  | lookUp now hphase => exact counted_enter h (by rw [hphase]; rfl) (hinner.get _ _ _)
  | resume now hphase _ =>
    rename_i thread _ _ _ _ _
    have hcounts := h.phases thread
    rw [hphase] at hcounts
    exact counted_enter h (by rw [hphase]; rfl) (hcounts now s.inner)
  | leave hphase => exact counted_leave h hphase
  | write thread key write hphase =>
    exact ⟨leaving, counted_goTo h (by rw [hphase]; rfl) rfl rfl trivial rfl fun _ => rfl⟩
  | store now hphase =>
    rename_i thread key write
    refine ⟨leaving, counted_goTo h (by rw [hphase]; rfl) rfl rfl trivial ?_ fun _ => rfl⟩
    cases write with
    | put value => exact hinner.put ..
    | remove => exact hinner.remove ..
  | giveUp hphase =>
    exact ⟨leaving, counted_goTo h (by rw [hphase]; rfl) rfl rfl trivial rfl fun _ => rfl⟩
  | release thread key hphase =>
    exact ⟨leaving, counted_goTo h (by rw [hphase]; rfl) rfl rfl trivial rfl fun _ => rfl⟩
  | clear thread now _ => exact ⟨leaving, h.distinct, h.mem, (hinner.clear ..).trans h.inner, h.phases⟩
  | size thread now _ => exact ⟨leaving, h.distinct, h.mem, (hinner.size ..).trans h.inner, h.phases⟩

/-- When no thread is in the middle of anything, the counts are those of the lookups that have returned. -/
lemma counts_of_idle {timeout : Option Nat} {first : σ} (hinner : inner.Counts counts)
    (hfirst : counts first = .none) (h : Steps inner (.start timeout first) s)
    (hidle : ∀ thread, s.phase thread = .idle) : counts s.inner = .tally s.returned := by
  have hcounted : ∃ leaving, s.Counted counts leaving := by
    -- the states in between are busy, so the induction goes without `hidle`
    clear hidle
    induction h with
    | refl => exact ⟨[], List.nodup_nil, by simp [Shared.start, Phase.outcome?], hfirst, fun _ => trivial⟩
    | tail _ hstep ih => exact counted_step hinner ih.choose_spec hstep
  obtain ⟨leaving, h⟩ := hcounted
  have hnone : leaving = [] := by
    refine List.eq_nil_iff_forall_not_mem.2 ?_
    rintro ⟨thread, outcome⟩ hmem
    rw [h.mem, hidle] at hmem
    cases hmem
  subst hnone
  exact h.inner

end LayeredCache.Blocking
