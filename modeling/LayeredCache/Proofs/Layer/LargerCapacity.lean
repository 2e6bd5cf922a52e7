import LayeredCache.Proofs.Layer.RecencyOrder

/-!
# Larger capacities

Two layers that evict by use do the same around storages of their own, one of them with more room. What the
smaller one stores the larger one stores as well, so more room never costs a lookup its value. That does not
hold on from step to step by itself: the keys of the smaller layer have to come in the same order in the larger
one, which may have only as many more keys as it has more room.
-/

namespace LayeredCache

/-! ## Keys in the same order -/

namespace Recency

variable {r r' : Recency} {gap : Nat}

/-- The keys are some of the keys of the other, in the same order, and the other has at most `gap` more. -/
structure Within (gap : Nat) (r r' : Recency) : Prop where
  sublist : r.keys.Sublist r'.keys
  length_le : r'.keys.length ≤ r.keys.length + gap

lemma Within.remove (h : r.Within gap r') (key : String) : (r.remove key).Within gap (r'.remove key) := by
  refine ⟨h.sublist.filter _, ?_⟩
  -- the other loses the key at least as often
  have hlost := (h.sublist.filter fun other => !decide (other ≠ key)).length_le
  have hlength := h.length_le
  rw [List.length_eq_length_filter_add (l := r.keys) fun other => decide (other ≠ key),
    List.length_eq_length_filter_add (l := r'.keys) fun other => decide (other ≠ key)] at hlength
  show (r'.keys.filter (· ≠ key)).length ≤ (r.keys.filter (· ≠ key)).length + gap
  omega

lemma Within.touch (h : r.Within gap r') (key : String) : (r.touch key).Within gap (r'.touch key) := by
  have hremove := h.remove key
  refine ⟨hremove.sublist.cons_cons key, ?_⟩
  have hlength := hremove.length_le
  simp only [Recency.touch, List.length_cons]
  omega

lemma Within.refresh (h : r.Within gap r') (key : String) : (r.refresh key).2.Within gap (r'.refresh key).2 := by
  refine ⟨?_, ?_⟩
  · rw [Recency.refresh, Recency.refresh]
    by_cases hkey : key ∈ r.keys
    · rw [if_pos hkey, if_pos (h.sublist.subset hkey)]
      exact (h.sublist.erase key).cons_cons key
    · rw [if_neg hkey]
      split
      · -- only the other has the key, so the order of the shared ones stays
        have herase := h.sublist.erase key
        rw [List.erase_of_not_mem hkey] at herase
        exact herase.cons key
      · exact h.sublist
  · rw [(r.refresh_perm key).length_eq, (r'.refresh_perm key).length_eq]
    exact h.length_le

/-- The other has as much more room as it may have more keys, so it takes no key out that stays. -/
lemma Within.shrink (h : r.Within gap r') (n : Nat) : (r.shrink n).2.Within gap (r'.shrink (n + gap)).2 := by
  have hlength := h.length_le
  refine ⟨?_, ?_⟩
  · show (r.keys.take n).Sublist (r'.keys.take (n + gap))
    by_cases hall : r'.keys.length ≤ n + gap
    · rw [List.take_of_length_le hall]
      exact (List.take_sublist ..).trans h.sublist
    · -- both lose as many keys at the end as the other has too many
      have hends := h.sublist.reverse.drop (r'.keys.length - (n + gap))
      rw [List.drop_reverse, List.drop_reverse, List.reverse_sublist,
        Nat.sub_sub_self (Nat.le_of_not_le hall)] at hends
      have hmore : n ≤ r.keys.length - (r'.keys.length - (n + gap)) := by omega
      exact (List.take_sublist_take_left hmore).trans hends
  · show (r'.keys.take (n + gap)).length ≤ (r.keys.take n).length + gap
    rw [List.length_take, List.length_take]
    omega

end Recency

namespace Lru

/-! ## Two layers side by side -/

/-- Both layers track what they store, the other one has more room, and it stores what this one stores. -/
structure Within (gap : Nat) (s s' : Lru × Perpetual) : Prop where
  order : s.1.order.Within gap s'.1.order
  capacity : s'.1.capacity.count = s.1.capacity.count + gap
  tracked : s.2.Tracked s.1.order.keys
  tracked' : s'.2.Tracked s'.1.order.keys
  entries (key value) : s.2.get? key = some value → s'.2.get? key = some value

variable {s s' : Lru × Perpetual} {gap : Nat}

lemma capacity_after (s : Lru × Perpetual) (operation : Operation Json) :
    (after s operation).2.1.capacity = s.1.capacity := by
  cases operation <;> rfl

lemma Within.order_after (h : Within gap s s') (operation : Operation Json) :
    (after s operation).2.1.order.Within gap (after s' operation).2.1.order := by
  cases operation with
  | put key value =>
    have hshrink := (h.order.touch key).shrink s.1.capacity.count
    rw [← h.capacity] at hshrink
    exact hshrink
  | get key => exact h.order.refresh key
  | remove key => exact h.order.remove key
  | clear => exact ⟨.slnil, Nat.zero_le _⟩
  | size => exact h.order

lemma Within.entries_after (h : Within gap s s') (operation : Operation Json) (key : String) (value : Json)
    (hvalue : (after s operation).2.2.get? key = some value) :
    (after s' operation).2.2.get? key = some value := by
  cases operation with
  | put new stored =>
    have hkept : (s.1.order.touch new).keys.take s.1.capacity.count ⊆
        (s'.1.order.touch new).keys.take s'.1.capacity.count := (h.order_after (.put new stored)).sublist.subset
    rw [get?_after_put h.tracked] at hvalue
    rw [get?_after_put h.tracked']
    split at hvalue
    · rename_i hkey
      rw [if_pos (hkept hkey), Perpetual.get?_insert]
      rw [Perpetual.get?_insert] at hvalue
      split at hvalue
      · rename_i hnew
        rw [if_pos hnew, hvalue]
      · rename_i hold
        rw [if_neg hold, h.entries key value hvalue]
    · cases hvalue
  | get => exact h.entries key value hvalue
  | remove gone =>
    have hvalue : (s.2.erase gone).get? key = some value := hvalue
    show (s'.2.erase gone).get? key = some value
    rw [Perpetual.get?_erase] at hvalue ⊢
    split at hvalue
    · cases hvalue
    · rename_i hother
      rw [if_neg hother, h.entries key value hvalue]
  | clear => cases hvalue
  | size => exact h.entries key value hvalue

/-- One step of both. -/
lemma Within.after (h : Within gap s s') (operation : Operation Json) :
    Within gap (after s operation).2 (after s' operation).2 := by
  refine ⟨h.order_after operation, ?_, tracked_after h.tracked operation, tracked_after h.tracked' operation,
    h.entries_after operation⟩
  rw [capacity_after, capacity_after, h.capacity]

/-- If the first outcome is that a lookup finds a value, then the other is that it finds the same value. -/
def KeepsHit (outcome outcome' : Outcome) : Prop :=
  ∀ value, outcome = .ok (.found (some value)) → outcome' = .ok (.found (some value))

lemma Within.keepsHit (h : Within gap s s') (operation : Operation Json) :
    KeepsHit (.ok (Lru.after s operation).1) (.ok (Lru.after s' operation).1) := by
  intro value hfound
  cases operation with
  | get key =>
    have hvalue : s.2.get? key = some value := Answer.found.inj (Except.ok.inj hfound)
    exact congrArg (fun found => Except.ok (Answer.found found)) (h.entries key value hvalue)
  | _ => cases hfound

/-- By induction on the program. -/
lemma Within.run (h : Within gap s s') (thread : Nat) (program : List (Nat × Operation Json)) :
    ∃ outcomes rest outcomes' rest',
      (around Perpetual.cache).run thread program s = some (outcomes, rest) ∧
      (around Perpetual.cache).run thread program s' = some (outcomes', rest') ∧
      List.Forall₂ KeepsHit outcomes outcomes' ∧ Within gap rest rest' := by
  induction program generalizing s s' with
  | nil => exact ⟨_, _, _, _, rfl, rfl, .nil, h⟩
  | cons first program ih =>
    obtain ⟨now, operation⟩ := first
    obtain ⟨outcomes, rest, outcomes', rest', hrun, hrun', hhits, hrest⟩ := ih (h.after operation)
    refine ⟨_, rest, _, rest', ?_, ?_, .cons (h.keepsHit operation) hhits, hrest⟩
    · simp only [Cache.run, perform_eq_done, Action.alone, hrun, Option.map_some]
    · simp only [Cache.run, perform_eq_done, Action.alone, hrun', Option.map_some]

/-- A program is run around two empty storages, by layers of which one has at least as much room as the other.
Then the one with more room stores all entries that the other one stores, with the same values, and every lookup
of the program that finds a value in the other one finds the same value there. As the program is any, this is
so after every one of its steps. -/
theorem keeps_hits_of_smaller {capacity capacity' : Capacity} (hroom : capacity.count ≤ capacity'.count)
    (thread : Nat) (program : List (Nat × Operation Json)) (id id' : String) :
    ∃ outcomes s outcomes' s',
      (around Perpetual.cache).run thread program (⟨.empty, capacity⟩, .empty id) = some (outcomes, s) ∧
      (around Perpetual.cache).run thread program (⟨.empty, capacity'⟩, .empty id') = some (outcomes', s') ∧
      (∀ key value, s.2.get? key = some value → s'.2.get? key = some value) ∧
      List.Forall₂ KeepsHit outcomes outcomes' := by
  have hfirst : Within (capacity'.count - capacity.count) (⟨.empty, capacity⟩, .empty id)
      (⟨.empty, capacity'⟩, .empty id') := by
    refine ⟨⟨.slnil, Nat.zero_le _⟩, ?_, ⟨.nil, fun _ => .rfl⟩, ⟨.nil, fun _ => .rfl⟩, fun _ _ h => h⟩
    exact (Nat.add_sub_of_le hroom).symm
  obtain ⟨outcomes, s, outcomes', s', hrun, hrun', hhits, hwithin⟩ := hfirst.run thread program
  exact ⟨outcomes, s, outcomes', s', hrun, hrun', hwithin.entries, hhits⟩

/-- Three keys are put, of which the first is looked up before the third is put, and then both others. -/
def looksUpThree : List (Nat × Operation Json) :=
  [(0, .put "a" (.bool true)), (1, .put "b" .null), (2, .get "a"), (3, .put "c" .null), (4, .get "a"),
    (5, .get "b")]

/-- With room for two keys the second one is gone, with room for three it is not, and the first one is found
either way. -/
theorem keeps_hits_of_smaller_twoAndThree :
    ∃ (two three : Capacity) (outcomes : List Outcome) (s : Lru × Perpetual) (outcomes' : List Outcome)
      (s' : Lru × Perpetual), two.count = 2 ∧ three.count = 3 ∧ two.count ≤ three.count ∧
      (around Perpetual.cache).run 7 looksUpThree (⟨.empty, two⟩, .empty "users") = some (outcomes, s) ∧
      (around Perpetual.cache).run 7 looksUpThree (⟨.empty, three⟩, .empty "users") = some (outcomes', s') ∧
      outcomes.drop 4 = [.ok (.found (some (.bool true))), .ok (.found none)] ∧
      outcomes'.drop 4 = [.ok (.found (some (.bool true))), .ok (.found (some .null))] ∧
      (∀ key value, s.2.get? key = some value → s'.2.get? key = some value) ∧
      List.Forall₂ KeepsHit outcomes outcomes' := by
  have hroom : (⟨2, by decide⟩ : Capacity).count ≤ (⟨3, by decide⟩ : Capacity).count := by decide
  obtain ⟨outcomes, s, outcomes', s', hrun, hrun', hentries, hhits⟩ :=
    keeps_hits_of_smaller hroom 7 looksUpThree "users" "users"
  refine ⟨_, _, outcomes, s, outcomes', s', rfl, rfl, hroom, hrun, hrun', ?_, ?_, hentries, hhits⟩
  · cases hrun
    rfl
  · cases hrun'
    rfl

end Lru

end LayeredCache
