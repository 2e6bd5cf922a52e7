import LayeredCache.Proofs.Layer.RecencyOrder

/-!
# What the order of use remembers

After any steps from nothing on, the tracked keys are those that were touched and have not been taken out since, in the
order in which they were last used. Taking the least recently used key out until none is left yields all of them, in the
order of their last use, the earliest first.
-/

namespace LayeredCache.Recency

/-- What can be done to tracked keys. -/
inductive Step
  | touch (key : String)
  | refresh (key : String)
  | remove (key : String)
  | evict
  | clear
  deriving DecidableEq, Repr

/-- A step that was made, with what it found. -/
inductive Event
  | touched (key : String)
  | refreshed (key : String) (found : Bool)
  | removed (key : String)
  | evicted (oldest? : Option String)
  | cleared
  deriving DecidableEq, Repr

/-- The event of a step, and the keys after it. -/
def step (r : Recency) : Step → Event × Recency
  | .touch key => (.touched key, r.touch key)
  | .refresh key => (.refreshed key (r.refresh key).1, (r.refresh key).2)
  | .remove key => (.removed key, r.remove key)
  | .evict => (.evicted r.evict.1, r.evict.2)
  | .clear => (.cleared, .empty)

/-- One more step: its event comes before those of the steps that were made earlier. -/
def advance (s : List Event × Recency) (next : Step) : List Event × Recency :=
  ((s.2.step next).1 :: s.1, (s.2.step next).2)

/-- The events of some steps, the latest first, and the keys that are tracked then. -/
def run (steps : List Step) : List Event × Recency :=
  steps.foldl advance ([], .empty)

namespace Event

/-- The key that was used: touched, or found by a refresh. -/
def used? : Event → Option String
  | .touched key => some key
  | .refreshed key true => some key
  | _ => none

/-- The event after which a key is not tracked: it was removed or evicted, or all keys were. -/
def Ends (key : String) : Event → Prop
  | .removed other => other = key
  | .evicted oldest? => oldest? = some key
  | .cleared => True
  | _ => False

end Event

/-- The key was touched, and nothing that happened after that ended its tracking. -/
def Tracks (history : List Event) (key : String) : Prop :=
  ∃ later earlier, history = later ++ .touched key :: earlier ∧ ∀ event ∈ later, ¬event.Ends key

/-- The keys that come out, in this order, when the least recently used key is taken out until there is none. -/
inductive Drains : Recency → List String → Prop
  | done {r : Recency} (h : r.evict.1 = none) : Drains r []
  | next {r : Recency} {key : String} {keys : List String} (h : r.evict.1 = some key) (rest : Drains r.evict.2 keys) :
      Drains r (key :: keys)

/-- The tracked keys as a history of events determines them: which, and in which order. -/
structure Remembers (history : List Event) (r : Recency) : Prop where
  mem : ∀ key, key ∈ r.keys ↔ Tracks history key
  inOrder : InOrder (history.map Event.used?) r.keys

variable {r : Recency} {history : List Event} {event : Event} {key other : String} {keys : List String}

/-! ## One step -/

lemma tracks_cons : Tracks (event :: history) key ↔ event = .touched key ∨ Tracks history key ∧ ¬event.Ends key := by
  constructor
  · rintro ⟨later, earlier, heq, hlater⟩
    cases later with
    | nil => exact .inl (List.cons.inj heq).1
    | cons first later =>
      obtain ⟨rfl, rfl⟩ := List.cons.inj heq
      obtain ⟨hfirst, hlater⟩ := List.forall_mem_cons.1 hlater
      exact .inr ⟨⟨later, earlier, rfl, hlater⟩, hfirst⟩
  · rintro (rfl | ⟨⟨later, earlier, rfl, hlater⟩, hevent⟩)
    · exact ⟨[], history, rfl, nofun⟩
    · exact ⟨event :: later, earlier, rfl, List.forall_mem_cons.2 ⟨hevent, hlater⟩⟩

lemma mem_touch : other ∈ (r.touch key).keys ↔ other = key ∨ other ∈ r.keys := by
  by_cases h : other = key <;> simp [touch, remove, h]

lemma refresh_found : (r.refresh key).1 = true ↔ key ∈ r.keys := by
  rw [refresh]
  split <;> simp_all

/-- The key that is taken out is the one that comes last, and it comes only once. -/
lemma mem_evict (hnodup : r.keys.Nodup) : other ∈ r.evict.2.keys ↔ other ∈ r.keys ∧ r.evict.1 ≠ some other := by
  rcases List.eq_nil_or_concat r.keys with hkeys | ⟨rest, last, hkeys⟩
  · simp [evict, hkeys]
  · rw [hkeys, List.concat_eq_append] at hnodup
    have hlast : last ∉ rest := fun hmem => (List.nodup_append.1 hnodup).2.2 last hmem last (by simp) rfl
    simp only [evict, oldest?, hkeys, List.concat_eq_append, List.dropLast_concat, List.getLast?_concat,
      List.mem_append, List.mem_singleton]
    constructor
    · intro hmem
      exact ⟨.inl hmem, fun heq => hlast (Option.some.inj heq ▸ hmem)⟩
    · rintro ⟨hmem | rfl, hne⟩
      · exact hmem
      · exact absurd rfl hne

/-- What a step leaves tracked is what its event says of the keys that were tracked. -/
lemma mem_step (hnodup : r.keys.Nodup) (next : Step) :
    key ∈ (r.step next).2.keys ↔
      (r.step next).1 = .touched key ∨ key ∈ r.keys ∧ ¬(r.step next).1.Ends key := by
  cases next with
  | touch other => simp [step, Event.Ends, mem_touch, eq_comm (a := other)]
  | refresh other => simp [step, Event.Ends, (refresh_perm r other).mem_iff]
  | remove other => simp [step, Event.Ends, remove, eq_comm (a := other)]
  | evict => simp [step, Event.Ends, mem_evict hnodup]
  | clear => simp [step, Event.Ends, empty]

/-- A step uses the key that its event names; the others keep their order. -/
lemma inOrder_step {used : List (Option String)} (h : InOrder used r.keys) (next : Step) :
    InOrder ((r.step next).1.used? :: used) (r.step next).2.keys := by
  cases next with
  | touch key => exact h.touch key
  | refresh key =>
    by_cases hkey : key ∈ r.keys
    · have hfound : (r.refresh key).1 = true := refresh_found.2 hkey
      have hused : (r.step (.refresh key)).1.used? = some key := by simp [step, hfound, Event.used?]
      rw [hused]
      exact h.refresh key
    · -- a refresh that finds nothing uses nothing
      have hrefresh : r.refresh key = (false, r) := if_neg hkey
      simp only [step, hrefresh, Event.used?]
      exact h.pass fun _ _ => nofun
  | remove key => exact (h.sublist List.filter_sublist).pass fun _ _ => nofun
  | evict => exact (h.sublist (List.dropLast_sublist _)).pass fun _ _ => nofun
  | clear => exact .nil

lemma Remembers.step (h : Remembers history r) (next : Step) :
    Remembers ((r.step next).1 :: history) (r.step next).2 where
  mem key := by rw [mem_step h.inOrder.nodup, h.mem, tracks_cons]
  inOrder := inOrder_step h.inOrder next

/-! ## Any steps -/

/-- By induction on the steps. -/
lemma remembers_run (steps : List Step) : Remembers (run steps).1 (run steps).2 := by
  induction steps using List.reverseRecOn with
  | nil => exact ⟨fun key => by simp [run, empty, Tracks], .nil⟩
  | append_singleton steps next ih =>
    rw [run, List.foldl_concat]
    exact ih.step next

lemma drain_evict (h : r.evict.1 = some key) : r.drain = key :: r.evict.2.drain := by
  have hkeys : r.keys = r.keys.dropLast ++ [key] := (List.dropLast_append_getLast? key h).symm
  rw [drain, hkeys, List.reverse_concat]
  rfl

lemma drain_of_evict_none (h : r.evict.1 = none) : r.drain = [] := by
  rw [drain, List.getLast?_eq_none_iff.1 h]
  rfl

lemma drains_drain (r : Recency) : Drains r r.drain := by
  -- by induction on the keys that are still tracked
  generalize hkeys : r.drain = keys
  induction keys generalizing r with
  | nil =>
    refine .done ?_
    cases holdest : r.evict.1 with
    | none => rfl
    | some key =>
      rw [drain_evict holdest] at hkeys
      cases hkeys
  | cons key keys ih =>
    cases holdest : r.evict.1 with
    | none =>
      rw [drain_of_evict_none holdest] at hkeys
      cases hkeys
    | some oldest =>
      rw [drain_evict holdest] at hkeys
      obtain ⟨rfl, hrest⟩ := List.cons.inj hkeys
      exact .next holdest (ih r.evict.2 hrest)

/-- Taking keys out until none is left yields the keys from the last one to the first. -/
lemma drains_iff : Drains r keys ↔ keys = r.drain := by
  constructor
  · intro h
    induction h with
    | done h => exact (drain_of_evict_none h).symm
    | next h _ ih => rw [drain_evict h, ih]
  · rintro rfl
    exact drains_drain r

/-- After any steps from nothing on, every tracked key is there once, and the tracked keys are those that were touched
and not removed, evicted or cleared since. A refresh tells whether its key is tracked and leaves the same keys tracked.
The least recently used key is the one that an eviction yields, and that one alone is not tracked afterwards. Evicting
until nothing is left yields every tracked key once, and of two keys first the one whose last use is longer ago, a use
being a touch or a refresh that found the key. -/
theorem run_remembers (steps : List Step) :
    let (history, r) := run steps
    r.keys.Nodup ∧ (∀ key, key ∈ r.keys ↔ Tracks history key) ∧
    (∀ key, ((r.refresh key).1 = true ↔ key ∈ r.keys) ∧ (r.refresh key).2.keys.Perm r.keys) ∧
    r.oldest? = r.evict.1 ∧ (∀ key, key ∈ r.evict.2.keys ↔ key ∈ r.keys ∧ r.oldest? ≠ some key) ∧
    ∃ drained, (∀ keys, Drains r keys ↔ keys = drained) ∧ drained.Perm r.keys ∧
      drained.Pairwise fun key other =>
        age (history.map Event.used?) other < age (history.map Event.used?) key := by
  have h := remembers_run steps
  have hnodup := h.inOrder.nodup
  exact ⟨hnodup, h.mem, fun key => ⟨refresh_found, refresh_perm _ key⟩, rfl, fun _ => mem_evict hnodup,
    (run steps).2.drain, fun _ => drains_iff, List.reverse_perm _, List.pairwise_reverse.2 h.inOrder⟩

/-- Three keys are touched and the first of them once more. -/
example : (run [.touch "a", .touch "b", .touch "c", .refresh "a", .refresh "d", .evict]).2.drain = ["c", "a"] := by
  decide

end LayeredCache.Recency
