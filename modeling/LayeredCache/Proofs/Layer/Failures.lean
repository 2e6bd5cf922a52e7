import LayeredCache.Layer.Model
import LayeredCache.Proofs.Cache.Invariant
import LayeredCache.Proofs.Layer.Storage
import LayeredCache.Proofs.Layer.Tracking

/-!
# What a failed operation leaves behind

An operation on a cache fails when a stored text is no value. The layer that reads the text notices this when
the entry is gone already, and nothing is taken back: a removal that fails has removed its entry, and a put
that fails has removed another entry that had to make room. All other entries are as they were, or evicted.
-/

namespace LayeredCache

/-! ## Entries before and after -/

namespace Perpetual

/-- There is no other entry than that of the key. -/
def Only (key : String) (p : Perpetual) : Prop :=
  ∀ other, other ≠ key → p.get? other = none

/-- Entries of other keys are gone or as they were. That of the key is as it was or new. -/
structure Evolved (key : String) (new : Option Json) (p p' : Perpetual) : Prop where
  others (other) : other ≠ key → p'.get? other = p.get? other ∨ p'.get? other = none
  own : p'.get? key = p.get? key ∨ (new.isSome ∧ p'.get? key = new)

/-- The entry of another key is gone. -/
def Lost (key : String) (p p' : Perpetual) : Prop :=
  ∃ other, other ≠ key ∧ p.get? other ≠ none ∧ p'.get? other = none

variable {key : String} {new : Option Json} {p p' p'' : Perpetual}

lemma Evolved.trans (h : Evolved key new p p') (h' : Evolved key new p' p'') : Evolved key new p p'' := by
  constructor
  · intro other hother
    rcases h'.others other hother with heq | hnone
    · rw [heq]
      exact h.others other hother
    · exact .inr hnone
  · rcases h'.own with heq | hnew
    · rw [heq]
      exact h.own
    · exact .inr hnew

lemma Only.evolved (h : p.Only key) (hevolved : Evolved key new p p') : p'.Only key := by
  intro other hother
  rcases hevolved.others other hother with heq | hnone
  · exact heq.trans (h other hother)
  · exact hnone

lemma Lost.of_evolved (h : Lost key p' p'') (hevolved : Evolved key new p p') : Lost key p p'' := by
  obtain ⟨other, hother, hbefore, hafter⟩ := h
  refine ⟨other, hother, fun hnone => hbefore ?_, hafter⟩
  rcases hevolved.others other hother with heq | hnone'
  · exact heq.trans hnone
  · exact hnone'

lemma evolved_insert (p : Perpetual) (key : String) (value : Json) :
    Evolved key (some value) p (p.insert key value) :=
  ⟨fun other hother => .inl ((get?_insert p key value other).trans (if_neg hother)),
    .inr ⟨rfl, (get?_insert p key value key).trans (if_pos rfl)⟩⟩

lemma evolved_erase (p : Perpetual) {other : String} (hother : key ≠ other) :
    Evolved key none p (p.erase other) := by
  constructor
  · intro third _
    rw [get?_erase]
    by_cases h : third = other
    · exact .inr (if_pos h)
    · exact .inl (if_neg h)
  · exact .inl ((get?_erase p other key).trans (if_neg hother))

/-- What becomes of the entries when the key gets a new one, if any, and others make room. Nothing fails that
has not lost the entry of another key. -/
inductive Effect (key : String) (new : Option Json) (p : Perpetual) :
    Except CacheError Unit → Perpetual → Prop where
  | only {p' : Perpetual} : p'.Only key → Effect key new p (.ok ()) p'
  | evolved {p' : Perpetual} : Evolved key new p p' → Effect key new p (.ok ()) p'
  | failed {e} {p' : Perpetual} : Evolved key new p p' → Lost key p p' → Effect key new p (.error e) p'

namespace Effect

variable {outcome : Except CacheError Unit}

lemma trans (h : Effect key new p (.ok ()) p') (h' : Effect key new p' outcome p'') :
    Effect key new p outcome p'' := by
  cases h with
  | only honly =>
    cases h' with
    | only honly' => exact .only honly'
    | evolved hevolved => exact .only (honly.evolved hevolved)
    | failed _ hlost =>
      -- there was no entry to be lost
      obtain ⟨other, hother, hbefore, -⟩ := hlost
      exact absurd (honly other hother) hbefore
  | evolved hevolved =>
    cases h' with
    | only honly => exact .only honly
    | evolved hevolved' => exact .evolved (hevolved.trans hevolved')
    | failed hevolved' hlost => exact .failed (hevolved.trans hevolved') (hlost.of_evolved hevolved)

/-- Whatever leaves the entry of the key as it was could also have put a new one. -/
lemma weaken (h : Effect key none p outcome p') : Effect key new p outcome p' := by
  have hweaken (hevolved : Evolved key none p p') : Evolved key new p p' :=
    ⟨hevolved.others, .inl (hevolved.own.resolve_right (by simp))⟩
  cases h with
  | only honly => exact .only honly
  | evolved hevolved => exact .evolved (hweaken hevolved)
  | failed hevolved hlost => exact .failed (hweaken hevolved) hlost

end Effect

/-- What becomes of the entries when a key is removed. A stale cache is cleared first and finds nothing. -/
inductive Removal (key : String) (p : Perpetual) : Found → Perpetual → Prop where
  | cleared : Removal key p (.ok none) (.empty p.id)
  | absent : Removal key p (.ok none) (p.erase key)
  | present {outcome} : p.get? key ≠ none → Removal key p outcome (p.erase key)

/-- A removal makes room for another key. -/
lemma Removal.effect {other : String} {found : Found} (h : Removal other p found p') (hother : key ≠ other) :
    Effect key none p (found.map fun _ => ()) p' := by
  cases h with
  | cleared => exact .only fun _ _ => rfl
  | absent => exact .evolved (evolved_erase p hother)
  | present hpresent =>
    have hevolved := evolved_erase p hother
    cases found with
    | ok value => exact .evolved hevolved
    | error e =>
      exact .failed hevolved ⟨other, hother.symm, hpresent, (get?_erase p other other).trans (if_pos rfl)⟩

/-- Nothing is found in an empty storage. -/
lemma Removal.of_empty {id : String} {found : Found} (h : Removal key (.empty id) found p') :
    found = .ok none ∧ p' = .empty id := by
  cases h with
  | cleared => exact ⟨rfl, rfl⟩
  | absent => exact ⟨rfl, rfl⟩
  | present hpresent => exact absurd rfl hpresent

/-- A removal that fails has found something. -/
lemma Removal.of_error {e : CacheError} (h : Removal key p (.error e) p') :
    p.get? key ≠ none ∧ p' = p.erase key := by
  cases h with
  | present hpresent => exact ⟨hpresent, rfl⟩

end Perpetual

/-! ## Caches whose failures are contained -/

open Perpetual

variable {σ : Type}

/-- Every operation has its effect on the entries and no other, even if it fails. Of the lookups, only one
that finds nothing may change anything, and neither clears nor sizes fail. `form` is the form in which a
value is stored, and the cache is in one of its states `ok`. -/
structure Cache.Contained (cache : Cache σ) (bottom : σ → Perpetual) (form : Json → Json) (ok : σ → Prop) :
    Prop where
  unlocked {s} : ok s → cache.unlocked s = true
  put {s} (call key value) : ok s →
    Effect key (some (form value)) (bottom s) (cache.put call key value s).1
        (bottom (cache.put call key value s).2) ∧
      ok (cache.put call key value s).2
  get {s} (call key) : ok s → ∃ outcome s', cache.get call key s = .done outcome s' ∧
    (outcome ≠ .ok none → bottom s' = bottom s) ∧ ok s'
  remove {s} (call key) : ok s →
    Removal key (bottom s) (cache.remove call key s).1 (bottom (cache.remove call key s).2) ∧
      ok (cache.remove call key s).2
  clear {s} (call) : ok s →
    ∃ s', cache.clear call s = (.ok (), s') ∧ bottom s' = .empty (bottom s).id ∧ ok s'
  size {s} (call) : ok s → ∃ n s', cache.size call s = (.ok n, s') ∧ ok s'
  release {s} (call key) : ok s → ok (cache.release call key s)

variable {inner : Cache σ} {bottom : σ → Perpetual} {form : Json → Json} {ok : σ → Prop}

lemma Cache.Contained.keeps (h : inner.Contained bottom form ok) : inner.Keeps (fun _ => True) ok := by
  constructor
  · exact fun call key value _ hs => (h.put call key value hs).2
  · intro s call key hs
    obtain ⟨outcome, s', hget, -, hs'⟩ := h.get call key hs
    rw [hget]
    exact hs'
  · exact fun call key hs => (h.remove call key hs).2
  · intro s call hs
    obtain ⟨s', hclear, -, hs'⟩ := h.clear call hs
    rw [hclear]
    exact hs'
  · intro s call hs
    obtain ⟨n, s', hsize, hs'⟩ := h.size call hs
    rw [hsize]
    exact hs'
  · exact fun call key hs => h.release call key hs

/-- Keys that are removed make room for another one. -/
lemma Cache.Contained.removeAll (h : inner.Contained bottom form ok) {key : String} {keys : List String}
    (call : Call) {s : σ} (hkey : key ∉ keys) (hs : ok s) :
    Effect key none (bottom s) (inner.removeAll call keys s).1 (bottom (inner.removeAll call keys s).2) ∧
      ok (inner.removeAll call keys s).2 := by
  induction keys generalizing s call with
  | nil => exact ⟨.evolved ⟨fun _ _ => .inl rfl, .inl rfl⟩, hs⟩
  | cons other keys ih =>
    obtain ⟨hother, hkeys⟩ := not_or.1 (mt List.mem_cons.2 hkey)
    obtain ⟨hremoval, hrest⟩ := h.remove call other hs
    have heffect := hremoval.effect hother
    rw [Cache.removeAll]
    rcases hremove : inner.remove call other s with ⟨found, rest⟩
    rw [hremove] at heffect hrest
    cases found with
    | error e => exact ⟨heffect, hrest⟩
    | ok value =>
      obtain ⟨hothers, hs'⟩ := ih call.next hkeys hrest
      exact ⟨heffect.trans hothers, hs'⟩

lemma Perpetual.contained : Perpetual.cache.Contained (fun p => p) (fun value => value) fun _ => True := by
  constructor
  · exact fun _ => rfl
  · exact fun {p} _ key value _ => ⟨.evolved (evolved_insert p key value), trivial⟩
  · exact fun {p} _ key _ => ⟨_, p, rfl, fun _ => rfl, trivial⟩
  · intro p call key _
    refine ⟨?_, trivial⟩
    show Removal key p (.ok (p.get? key)) (p.erase key)
    cases hget : p.get? key with
    | none => exact .absent
    | some value => exact .present (by simp [hget])
  · exact fun _ _ => ⟨_, rfl, rfl, trivial⟩
  · exact fun _ _ => ⟨_, _, rfl, trivial⟩
  · exact fun _ _ _ => trivial

/-! ## Layers that hand operations on -/

lemma Cache.Contained.forward (h : inner.Contained bottom form ok) {τ : Type} (kept : τ → Prop) :
    (Cache.forward τ inner).Contained (fun s => bottom s.2) form fun s => kept s.1 ∧ ok s.2 := by
  constructor
  · exact fun hs => h.unlocked hs.2
  · exact fun call key value hs => ⟨(h.put call key value hs.2).1, hs.1, (h.put call key value hs.2).2⟩
  · intro s call key hs
    obtain ⟨outcome, rest, hget, hsame, hrest⟩ := h.get call key hs.2
    refine ⟨outcome, (s.1, rest), ?_, hsame, hs.1, hrest⟩
    simp only [Cache.forward, hget]
    rfl
  · exact fun call key hs => ⟨(h.remove call key hs.2).1, hs.1, (h.remove call key hs.2).2⟩
  · intro s call hs
    obtain ⟨rest, hclear, hempty, hrest⟩ := h.clear call hs.2
    refine ⟨(s.1, rest), ?_, hempty, hs.1, hrest⟩
    simp only [Cache.forward, hclear]
    rfl
  · intro s call hs
    obtain ⟨n, rest, hsize, hrest⟩ := h.size call hs.2
    refine ⟨n, (s.1, rest), ?_, hs.1, hrest⟩
    simp only [Cache.forward, hsize]
    rfl
  · exact fun call key hs => ⟨hs.1, h.release call key hs.2⟩

/-- A value that cannot be read is missed when it is gone. -/
lemma Serialized.contained (h : inner.Contained bottom form ok) :
    (around inner).Contained (fun s => bottom s.2) (fun value => form (encode value))
      fun s => True ∧ ok s.2 := by
  have hforward := h.forward fun _ : Serialized => True
  constructor
  · exact hforward.unlocked
  · exact fun call key value hs => hforward.put call key (encode value) hs
  · intro s call key hs
    obtain ⟨outcome, rest, hget, hsame, hrest⟩ := h.get call key hs.2
    refine ⟨decodeFound (inner.id s.2) outcome, (s.1, rest), ?_, fun hfound => hsame ?_, trivial, hrest⟩
    · simp only [around, hget]
      rfl
    · rintro rfl
      exact hfound rfl
  · intro s call key hs
    obtain ⟨hremoval, hrest⟩ := h.remove call key hs.2
    refine ⟨?_, trivial, hrest⟩
    show Removal key (bottom s.2) (decodeFound _ (inner.remove call key s.2).1)
      (bottom (inner.remove call key s.2).2)
    generalize (inner.remove call key s.2).1 = found at hremoval ⊢
    generalize bottom (inner.remove call key s.2).2 = p' at hremoval ⊢
    cases hremoval with
    | cleared => exact .cleared
    | absent => exact .absent
    | present hpresent => exact .present hpresent
  · exact hforward.clear
  · exact hforward.size
  · exact hforward.release

lemma Logging.contained (h : inner.Contained bottom form ok) :
    (around inner).Contained (fun s => bottom s.2) form fun s => True ∧ ok s.2 := by
  have hforward := h.forward fun _ : Logging => True
  constructor
  · exact hforward.unlocked
  · exact hforward.put
  · intro s call key hs
    obtain ⟨outcome, rest, hget, hsame, hrest⟩ := h.get call key hs.2
    refine ⟨(record outcome s.1).1, ((record outcome s.1).2, rest), ?_, fun hfound => hsame ?_, trivial, hrest⟩
    · simp only [around, hget]
      rfl
    · rintro rfl
      exact hfound rfl
  · exact hforward.remove
  · exact hforward.clear
  · exact hforward.size
  · exact hforward.release

lemma Synchronized.contained (h : inner.Contained bottom form ok) :
    (around inner).Contained (fun s => bottom s.2) form fun s => s.1 = free ∧ ok s.2 := by
  have hforward := h.forward fun own : Synchronized => own = free
  constructor
  · rintro ⟨_, rest⟩ ⟨rfl, hrest⟩
    show (!false && inner.unlocked rest) = true
    rw [h.unlocked hrest]
    rfl
  · exact hforward.put
  · rintro ⟨_, rest⟩ call key ⟨rfl, hrest⟩
    obtain ⟨outcome, rest', hget, hsame, hrest'⟩ := h.get call key hrest
    refine ⟨outcome, (free, rest'), ?_, hsame, rfl, hrest'⟩
    simp only [around, get, inside, free, hget]
    rfl
  · exact hforward.remove
  · exact hforward.clear
  · exact hforward.size
  · exact hforward.release

/-! ## Layers that clear or evict -/

/-- After a clear there is nothing that could fail. -/
lemma Scheduled.contained (h : inner.Contained bottom form ok) :
    (around inner).Contained (fun s => bottom s.2) form fun s => ok s.2 := by
  constructor
  · exact fun hs => h.unlocked hs
  · intro s call key value hs
    show Effect key _ _ (afterClear inner _ call s).1 (bottom (afterClear inner _ call s).2.2) ∧
      ok (afterClear inner _ call s).2.2
    rw [afterClear]
    cases s.1.isStale call with
    | false => exact h.put call key value hs
    | true =>
      obtain ⟨cleared, hclear, hempty, hcleared⟩ := h.clear call hs
      obtain ⟨heffect, hrest⟩ := h.put call.next key value hcleared
      have honly : (bottom cleared).Only key := by
        rw [hempty]
        exact fun _ _ => rfl
      simp only [clear, Cache.lift, hclear, if_true]
      exact ⟨.trans (.only honly) heffect, hrest⟩
  · intro s call key hs
    show ∃ outcome s', get inner call key s = .done outcome s' ∧
      (outcome ≠ .ok none → bottom s'.2 = bottom s.2) ∧ ok s'.2
    rw [get]
    cases s.1.isStale call with
    | false =>
      obtain ⟨outcome, rest, hget, hsame, hrest⟩ := h.get call key hs
      refine ⟨outcome, (s.1, rest), ?_, hsame, hrest⟩
      simp only [hget, Bool.false_eq_true, if_false]
      rfl
    | true =>
      obtain ⟨rest, hclear, -, hrest⟩ := h.clear call hs
      refine ⟨.ok none, (s.1.restart call, rest), ?_, fun hfound => absurd rfl hfound, hrest⟩
      rw [Cache.gated_of_unlocked (h.unlocked hs), hclear, if_pos rfl]
      rfl
  · intro s call key hs
    show Removal key (bottom s.2) (afterClear inner _ call s).1 (bottom (afterClear inner _ call s).2.2) ∧
      ok (afterClear inner _ call s).2.2
    rw [afterClear]
    cases s.1.isStale call with
    | false => exact h.remove call key hs
    | true =>
      obtain ⟨cleared, hclear, hempty, hcleared⟩ := h.clear call hs
      obtain ⟨hremoval, hrest⟩ := h.remove call.next key hcleared
      rw [hempty] at hremoval
      obtain ⟨hfound, hnothing⟩ := hremoval.of_empty
      simp only [clear, Cache.lift, hclear, if_true]
      rw [hfound, hnothing]
      exact ⟨.cleared, hrest⟩
  · intro s call hs
    obtain ⟨rest, hclear, hempty, hrest⟩ := h.clear call hs
    refine ⟨(s.1.restart call, rest), ?_, hempty, hrest⟩
    simp only [around, clear, Cache.lift, hclear]
  · intro s call hs
    show ∃ n s', afterClear inner inner.size call s = (.ok n, s') ∧ ok s'.2
    rw [afterClear]
    cases s.1.isStale call with
    | false =>
      obtain ⟨n, rest, hsize, hrest⟩ := h.size call hs
      refine ⟨n, (s.1, rest), ?_, hrest⟩
      simp only [Cache.lift, hsize, Bool.false_eq_true, if_false]
    | true =>
      obtain ⟨cleared, hclear, -, hcleared⟩ := h.clear call hs
      obtain ⟨n, rest, hsize, hrest⟩ := h.size call.next hcleared
      refine ⟨n, (s.1.restart call, rest), ?_, hrest⟩
      simp only [clear, Cache.lift, hclear, hsize, if_true]
  · exact fun call key hs => h.release call key hs

/-- The value is stored before other keys make room. -/
lemma Lru.contained (h : inner.Contained bottom form ok) :
    (around inner).Contained (fun s => bottom s.2) form fun s => True ∧ ok s.2 := by
  have hforward := h.forward fun _ : Lru => True
  constructor
  · exact hforward.unlocked
  · intro s call key value hs
    obtain ⟨heffect, hrest⟩ := h.put call key value hs.2
    show Effect key _ _ (put inner call key value s).1 (bottom (put inner call key value s).2.2) ∧
      True ∧ ok (put inner call key value s).2.2
    rw [put]
    rcases hput : inner.put call key value s.2 with ⟨outcome, rest⟩
    rw [hput] at heffect hrest
    cases outcome with
    | error e => exact ⟨heffect, trivial, hrest⟩
    | ok u =>
      have hkey : key ∉ ((s.1.order.touch key).keys.drop s.1.capacity.count).reverse :=
        mt List.mem_reverse.1 (s.1.order.notMem_drop_touch key s.1.capacity.positive)
      obtain ⟨hevicted, hs'⟩ := h.removeAll call.next hkey hrest
      exact ⟨heffect.trans hevicted.weaken, trivial, hs'⟩
  · intro s call key hs
    obtain ⟨outcome, rest, hget, hsame, hrest⟩ := h.get call key hs.2
    refine ⟨outcome, ({ s.1 with order := (s.1.order.refresh key).2 }, rest), ?_, hsame, trivial, hrest⟩
    simp only [around, get, hget]
    rfl
  · exact fun call key hs => hforward.remove call key hs
  · intro s call hs
    obtain ⟨rest, hclear, hempty, hrest⟩ := h.clear call hs.2
    refine ⟨({ s.1 with order := .empty }, rest), ?_, hempty, trivial, hrest⟩
    simp only [around, clear, hclear]
  · exact hforward.size
  · exact hforward.release

/-- Other keys make room before the value is stored. -/
lemma Fifo.contained (h : inner.Contained bottom form ok) :
    (around inner).Contained (fun s => bottom s.2) form
      fun s => s.1.queue.length ≤ s.1.capacity.count ∧ ok s.2 := by
  have hforward := h.forward fun own : Fifo => own.queue.length ≤ own.capacity.count
  constructor
  · exact hforward.unlocked
  · intro s call key value hs
    have hkey := @notMem_take_enqueue s.1.queue key _ s.1.capacity.positive hs.1
    have hqueue : ((enqueue s.1.queue key).drop
        ((enqueue s.1.queue key).length - s.1.capacity.count)).length ≤ s.1.capacity.count := by
      rw [List.length_drop]
      omega
    obtain ⟨hevicted, hrest⟩ := h.removeAll call hkey hs.2
    show Effect key _ _ (put inner call key value s).1 (bottom (put inner call key value s).2.2) ∧
      (put inner call key value s).2.1.queue.length ≤ (put inner call key value s).2.1.capacity.count ∧
      ok (put inner call key value s).2.2
    simp only [put]
    rcases hremove : inner.removeAll call ((enqueue s.1.queue key).take
      ((enqueue s.1.queue key).length - s.1.capacity.count)) s.2 with ⟨outcome, rest⟩
    rw [hremove] at hevicted hrest
    cases outcome with
    | error e => exact ⟨hevicted.weaken, hqueue, hrest⟩
    | ok u =>
      obtain ⟨heffect, hs'⟩ := h.put (if (enqueue s.1.queue key).length - s.1.capacity.count = 0 then call
        else call.next) key value hrest
      exact ⟨hevicted.weaken.trans heffect, hqueue, hs'⟩
  · exact hforward.get
  · intro s call key hs
    obtain ⟨hremoval, hrest⟩ := h.remove call key hs.2
    exact ⟨hremoval, Nat.le_trans (List.length_filter_le ..) hs.1, hrest⟩
  · intro s call hs
    obtain ⟨rest, hclear, hempty, hrest⟩ := h.clear call hs.2
    refine ⟨({ s.1 with queue := [] }, rest), ?_, hempty, Nat.zero_le _, hrest⟩
    simp only [around, clear, hclear]
  · exact hforward.size
  · exact hforward.release

end LayeredCache
