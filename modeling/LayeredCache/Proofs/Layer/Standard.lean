import LayeredCache.Layer.Scheduled
import LayeredCache.Proofs.Cache.Following
import LayeredCache.Proofs.Layer.Holds

/-!
# Scheduled clearing and blocking for one thread

A reference that empties itself when an interval has passed is what scheduled clearing follows. A single
thread is never kept waiting by blocking: nobody but itself holds a key.
-/

namespace LayeredCache

variable {V σ α : Type}

/-! ## References that empty themselves -/

/-- The state of a reference, and the instant from which its interval counts. -/
structure Aging (α : Type) where
  state : α
  lastClear : Nat

namespace Aging

/-- More than the interval has passed. Without an interval that never happens. -/
def isStale (interval : Option Nat) (now : Nat) (s : Aging α) : Bool :=
  match interval with
  | none => false
  | some nanos => s.lastClear + nanos < now

end Aging

namespace Ideal

/-- Empties the reference if it is stale. -/
def renew (ideal : Ideal V α) (interval : Option Nat) (now : Nat) (s : Aging α) : Aging α :=
  if s.isStale interval now then ⟨ideal.clear now s.state, now⟩ else s

/-- The reference that first empties itself when it is stale. A clear starts a new interval as well. -/
def expiring (ideal : Ideal V α) (interval : Option Nat) : Ideal V (Aging α) where
  put now key value s :=
    let s := ideal.renew interval now s
    { s with state := ideal.put now key value s.state }
  get now key s :=
    let s := ideal.renew interval now s
    ((ideal.get now key s.state).1, { s with state := (ideal.get now key s.state).2 })
  remove now key s :=
    let s := ideal.renew interval now s
    ((ideal.remove now key s.state).1, { s with state := (ideal.remove now key s.state).2 })
  clear now s := ⟨ideal.clear now s.state, now⟩
  size now s :=
    let s := ideal.renew interval now s
    ((ideal.size now s.state).1, { s with state := (ideal.size now s.state).2 })

lemma expiring_get (ideal : Ideal V α) (interval : Option Nat) (now : Nat) (key : String) (s : Aging α) :
    (ideal.expiring interval).get now key s =
      ((ideal.get now key (ideal.renew interval now s).state).1,
        ⟨(ideal.get now key (ideal.renew interval now s).state).2,
          (ideal.renew interval now s).lastClear⟩) :=
  rfl

lemma renew_of_stale {ideal : Ideal V α} {interval : Option Nat} {now : Nat} {s : Aging α}
    (h : s.isStale interval now = true) :
    ideal.renew interval now s = ⟨ideal.clear now s.state, now⟩ :=
  if_pos h

lemma renew_of_fresh {ideal : Ideal V α} {interval : Option Nat} {now : Nat} {s : Aging α}
    (h : s.isStale interval now = false) : ideal.renew interval now s = s := by
  rw [renew, h]
  rfl

end Ideal

variable {inner : Cache σ} {ideal : Ideal V α} {code : V → Json} {s : σ} {a : α}

/-- Without an interval a reference never empties itself. -/
lemma Cache.Follows.unscheduled {calls : Call → Prop} (h : inner.Follows calls ideal code s a)
    (start : Nat) : inner.Follows calls (ideal.expiring none) code s ⟨a, start⟩ := by
  obtain ⟨related, hmatches, hrelated⟩ := h
  refine ⟨fun s a => related s a.state, ?_, hrelated⟩
  constructor
  · exact fun hs => hmatches.unlocked hs
  · exact fun call key value hs hcall => hmatches.put call key value hs hcall
  · exact fun call key hs hcall => hmatches.get call key hs hcall
  · exact fun call key hs hcall => hmatches.remove call key hs hcall
  · exact fun call hs hcall => hmatches.clear call hs hcall
  · exact fun call hs hcall => hmatches.size call hs hcall

/-! ## Scheduled clearing -/

namespace Scheduled

/-- A cache with this interval and the last clear of the reference. -/
private def Related (interval : Nat) (related : σ → α → Prop) (s : Scheduled × σ) (a : Aging α) : Prop :=
  s.1 = ⟨interval, a.lastClear⟩ ∧ related s.2 a.state

/-- The layer and the reference agree on what is stale. -/
private lemma isStale_eq {interval : Nat} {related : σ → α → Prop} {s : Scheduled × σ} {a : Aging α}
    {call : Call} (hs : Related interval related s a) (hcall : call.later = false) :
    s.1.isStale call = a.isStale (some interval) call.now := by
  rw [hs.1, isStale, instant, hcall]
  rfl

private lemma matches_clear {interval : Nat} {related : σ → α → Prop}
    (h : Matches (fun _ => True) inner ideal code related) {s : Scheduled × σ} {a : Aging α} {call : Call}
    (hs : Related interval related s a) (hcall : call.later = false) :
    ∃ rest, inner.clear call s.2 = (.ok (), rest) ∧ s.1.restart call = ⟨interval, call.now⟩ ∧
      related rest (ideal.clear call.now a.state) := by
  obtain ⟨rest, hclear, hrest⟩ := h.clear call hs.2 trivial
  refine ⟨rest, hclear, ?_, hrest⟩
  rw [hs.1, restart, instant, hcall]
  rfl

/-- A step after a clear, if one is due, follows the step of the reference after it was renewed. -/
private lemma matches_afterClear {interval : Nat} {related : σ → α → Prop}
    (h : Matches (fun _ => True) inner ideal code related) {s : Scheduled × σ} {a : Aging α} {call : Call}
    (hs : Related interval related s a) (hcall : call.later = false) {β : Type}
    (step : Call → σ → Except CacheError β × σ) (expected : α → β × α)
    (hstep : ∀ s a call', related s a → call'.now = call.now →
      ∃ s', step call' s = (.ok (expected a).1, s') ∧ related s' (expected a).2) :
    ∃ s', afterClear inner step call s =
        (.ok (expected (ideal.renew (some interval) call.now a).state).1, s') ∧
      Related interval related s' ⟨(expected (ideal.renew (some interval) call.now a).state).2,
        (ideal.renew (some interval) call.now a).lastClear⟩ := by
  rw [afterClear, isStale_eq hs hcall]
  -- layer and reference decide alike, so that either both clear or none
  cases hstale : a.isStale (some interval) call.now with
  | true =>
    obtain ⟨rest, hclear, hrestart, hrest⟩ := matches_clear h hs hcall
    obtain ⟨s', hdone, hs'⟩ := hstep rest _ call.next hrest rfl
    rw [Ideal.renew_of_stale hstale]
    refine ⟨(⟨interval, call.now⟩, s'), ?_, rfl, hs'⟩
    simp only [clear, Cache.lift, hclear, hrestart, hdone, if_true]
  | false =>
    obtain ⟨s', hdone, hs'⟩ := hstep s.2 a.state call hs.2 rfl
    rw [Ideal.renew_of_fresh hstale]
    refine ⟨(s.1, s'), ?_, hs.1, hs'⟩
    simp only [Cache.lift, hdone, Bool.false_eq_true, if_false]

/-- A stale cache answers a lookup itself: a reference that has just been emptied finds nothing. -/
private lemma matches_get {interval : Nat} {related : σ → α → Prop}
    (h : Matches (fun _ => True) inner ideal code related)
    (hempty : ∀ now key a, ideal.get now key (ideal.clear now a) = (none, ideal.clear now a))
    {s : Scheduled × σ} {a : Aging α} {call : Call} (key : String)
    (hs : Related interval related s a) (hcall : call.later = false) :
    ∃ s', get inner call key s =
        .done (.ok (((ideal.expiring (some interval)).get call.now key a).1.map code)) s' ∧
      Related interval related s' ((ideal.expiring (some interval)).get call.now key a).2 := by
  rw [get, isStale_eq hs hcall, Ideal.expiring_get]
  cases hstale : a.isStale (some interval) call.now with
  | true =>
    obtain ⟨rest, hclear, hrestart, hrest⟩ := matches_clear h hs hcall
    -- the layer does not ask the cache that it has cleared
    rw [Ideal.renew_of_stale hstale, hempty, Cache.gated_of_unlocked (h.unlocked hs.2)]
    refine ⟨(⟨interval, call.now⟩, rest), ?_, rfl, hrest⟩
    simp only [hclear, hrestart, if_true]
    rfl
  | false =>
    obtain ⟨rest, hget, hrest⟩ := h.get call key hs.2 trivial
    rw [Ideal.renew_of_fresh hstale]
    refine ⟨(s.1, rest), ?_, hs.1, hrest⟩
    simp only [hget, Bool.false_eq_true, if_false]
    rfl

/-- Scheduled clearing follows the reference that empties itself. -/
lemma follows (interval start : Nat)
    (hempty : ∀ now key a, ideal.get now key (ideal.clear now a) = (none, ideal.clear now a))
    (h : inner.Follows (fun _ => True) ideal code s a) :
    (around inner).Follows (fun call => call.later = false) (ideal.expiring (some interval)) code
      (⟨interval, start⟩, s) ⟨a, start⟩ := by
  obtain ⟨related, hmatches, hrelated⟩ := h
  refine ⟨Related interval related, ?_, rfl, hrelated⟩
  constructor
  · exact fun hs => hmatches.unlocked hs.2
  · intro s a call key value hs hcall
    refine matches_afterClear hmatches hs hcall (fun call => inner.put call key (code value))
      (fun a => ((), ideal.put call.now key value a)) fun s a call' hs hnow => ?_
    rw [← hnow]
    exact hmatches.put call' key value hs trivial
  · exact fun call key hs hcall => matches_get hmatches hempty key hs hcall
  · intro s a call key hs hcall
    refine matches_afterClear hmatches hs hcall (fun call => inner.remove call key)
      (fun a => ((ideal.remove call.now key a).map (Option.map code) id)) fun s a call' hs hnow => ?_
    rw [← hnow]
    exact hmatches.remove call' key hs trivial
  · intro s a call hs hcall
    obtain ⟨rest, hclear, hrestart, hrest⟩ := matches_clear hmatches hs hcall
    refine ⟨(⟨interval, call.now⟩, rest), ?_, rfl, hrest⟩
    simp only [around, clear, Cache.lift, hclear, hrestart]
  · intro s a call hs hcall
    refine matches_afterClear hmatches hs hcall inner.size (ideal.size call.now) fun s a call' hs hnow => ?_
    rw [← hnow]
    exact hmatches.size call' hs trivial

end Scheduled

/-! ## Blocking -/

namespace Blocking

/-- Nobody but the thread holds a key. -/
def OnlyHeldBy (thread : Nat) (b : Blocking) : Prop :=
  ∀ key holder, b.holder? key = some holder → holder = thread

lemma OnlyHeldBy.release {thread : Nat} {b : Blocking} (h : b.OnlyHeldBy thread) (key : String) :
    (b.release key thread).OnlyHeldBy thread := by
  intro other holder hholder
  rw [holder?_release] at hholder
  split at hholder
  · cases hholder
  · exact h other holder hholder

lemma OnlyHeldBy.admit? {thread : Nat} {b : Blocking} (h : b.OnlyHeldBy thread) (key : String) :
    ∃ b', b.admit? key thread = some b' ∧ b'.OnlyHeldBy thread := by
  cases hgrant : b.admit? key thread with
  | none =>
    obtain ⟨holder, hholder, hne⟩ := admit?_eq_none.1 hgrant
    exact absurd (h key holder hholder) hne
  | some b' =>
    refine ⟨b', rfl, fun other holder hholder => ?_⟩
    rw [holder?_of_admit? hgrant] at hholder
    split at hholder
    · exact (Option.some.inj hholder).symm
    · exact h other holder hholder

lemma OnlyHeldBy.settle {thread : Nat} {b : Blocking} (h : b.OnlyHeldBy thread) (key : String)
    (found : Option Json) : ∃ b', settle key thread (.ok found) b = (.ok found, b') ∧
      b'.OnlyHeldBy thread := by
  cases found with
  | none => exact ⟨b, rfl, h⟩
  | some value => exact ⟨b.release key thread, rfl, h.release key⟩

/-- For the calls of a single thread, blocking follows the inner cache. -/
lemma follows {calls : Call → Prop} (timeout : Option Nat) (thread : Nat)
    (h : inner.Follows calls ideal code s a) :
    (around inner).Follows (fun call => calls call ∧ call.thread = thread) ideal code
      (.empty timeout, s) a := by
  obtain ⟨related, hmatches, hrelated⟩ := h
  -- a lookup that found nothing keeps its key, so the keys of the thread itself stay in the relation
  refine ⟨fun s a => s.1.OnlyHeldBy thread ∧ related s.2 a, ?_, fun key holder hholder => ?_, hrelated⟩
  · constructor
    · exact fun hs => hmatches.unlocked hs.2
    · rintro s a call key value ⟨hheld, hs⟩ ⟨hcall, rfl⟩
      obtain ⟨rest, hput, hrest⟩ := hmatches.put call key value hs hcall
      refine ⟨(s.1.release key call.thread, rest), ?_, hheld.release key, hrest⟩
      simp only [around, put, hput]
    · rintro s a call key ⟨hheld, hs⟩ ⟨hcall, rfl⟩
      obtain ⟨b, hgrant, hb⟩ := hheld.admit? key
      obtain ⟨rest, hget, hrest⟩ := hmatches.get call key hs hcall
      obtain ⟨b', hsettle, hb'⟩ := hb.settle key ((ideal.get call.now key a).1.map code)
      refine ⟨(b', rest), ?_, hb', hrest⟩
      simp only [around, get, hgrant, admitted, hget, Action.outward, hsettle]
    · rintro s a call key ⟨hheld, hs⟩ ⟨hcall, rfl⟩
      obtain ⟨rest, hremove, hrest⟩ := hmatches.remove call key hs hcall
      refine ⟨(s.1.release key call.thread, rest), ?_, hheld.release key, hrest⟩
      simp only [around, remove, hremove]
    · rintro s a call ⟨hheld, hs⟩ ⟨hcall, -⟩
      obtain ⟨rest, hclear, hrest⟩ := hmatches.clear call hs hcall
      refine ⟨(s.1, rest), ?_, hheld, hrest⟩
      simp only [around, Cache.forward, hclear]
      rfl
    · rintro s a call ⟨hheld, hs⟩ ⟨hcall, -⟩
      obtain ⟨rest, hsize, hrest⟩ := hmatches.size call hs hcall
      refine ⟨(s.1, rest), ?_, hheld, hrest⟩
      simp only [around, Cache.forward, hsize]
      rfl
  · cases hholder

end Blocking

end LayeredCache
