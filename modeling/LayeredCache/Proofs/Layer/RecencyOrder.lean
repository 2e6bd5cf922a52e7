import LayeredCache.Proofs.Layer.Resizing

/-!
# The order of last use

Around the storage, a layer that evicts by use tracks the stored keys in the order of their last use. That
depends on nothing but what was done and when: it is so however often the capacity changes in between. A put
keeps as many of the stored keys as there is capacity for, those that were used last.
-/

namespace LayeredCache

/-! ## Keys by their last use -/

namespace Recency

/-- How many steps have been made since a key was last used. Each step used one key or none, and the latest
comes first. -/
def age (used : List (Option String)) (key : String) : Nat :=
  used.findIdx (· == some key)

/-- The keys come in the order of their last use, the most recent first. -/
def InOrder (used : List (Option String)) (keys : List String) : Prop :=
  keys.Pairwise fun key other => age used key < age used other

variable {used : List (Option String)} {mark : Option String} {keys : List String} {key : String} {r : Recency}

/-- A step is the last use of the key that it uses; for the others, it is one more step since. -/
lemma age_cons (mark : Option String) (used : List (Option String)) (key : String) :
    age (mark :: used) key = if mark = some key then 0 else age used key + 1 := by
  rw [age, List.findIdx_cons]
  by_cases h : mark = some key
  · simp [h]
  · rw [if_neg h, beq_false_of_ne h]
    rfl

lemma InOrder.nodup (h : InOrder used keys) : keys.Nodup :=
  List.Pairwise.imp (fun hless => ne_of_apply_ne (age used) (Nat.ne_of_lt hless)) h

lemma InOrder.sublist {kept : List String} (h : InOrder used keys) (hkept : kept.Sublist keys) :
    InOrder used kept :=
  List.Pairwise.sublist hkept h

/-- A step that uses none of the keys leaves them in their order. -/
lemma InOrder.pass (h : InOrder used keys) (hmark : ∀ key ∈ keys, mark ≠ some key) :
    InOrder (mark :: used) keys := by
  refine List.Pairwise.imp_of_mem (fun hkey hother hless => ?_) h
  rw [age_cons, age_cons, if_neg (hmark _ hkey), if_neg (hmark _ hother)]
  exact Nat.succ_lt_succ hless

/-- A step that uses another key puts it before them. -/
lemma InOrder.use (h : InOrder used keys) (hkey : key ∉ keys) : InOrder (some key :: used) (key :: keys) := by
  have hothers : ∀ other ∈ keys, some key ≠ some other := fun other hother heq =>
    hkey (Option.some.inj heq ▸ hother)
  refine List.pairwise_cons.2 ⟨fun other hother => ?_, h.pass hothers⟩
  rw [age_cons, age_cons, if_pos rfl, if_neg (hothers other hother)]
  exact Nat.succ_pos _

lemma InOrder.touch (h : InOrder used r.keys) (key : String) : InOrder (some key :: used) (r.touch key).keys :=
  (h.sublist List.filter_sublist).use (by simp)

lemma InOrder.refresh (h : InOrder used r.keys) (key : String) :
    InOrder (some key :: used) (r.refresh key).2.keys := by
  rw [Recency.refresh]
  split
  · exact (h.sublist List.erase_sublist).use h.nodup.not_mem_erase
  · rename_i hkey
    exact h.pass fun other hother heq => hkey (Option.some.inj heq ▸ hother)

end Recency

/-- The keys are those that are stored, each once, in the order of their last use. -/
structure Perpetual.ByRecency (p : Perpetual) (used : List (Option String)) (keys : List String) : Prop where
  inOrder : Recency.InOrder used keys
  tracked : p.Tracked keys

/-- The key that an operation uses: the one that it puts or looks up. A lookup of a key that is not stored
counts too, but has no say: the key is put before it is stored again. -/
def Operation.key? {V : Type} : Operation V → Option String
  | .put key _ => some key
  | .get key => some key
  | _ => none

namespace Lru

/-! ## Operations around the storage -/

/-- What an operation gives and leads to around the storage. -/
def after (s : Lru × Perpetual) : Operation Json → Answer Json × (Lru × Perpetual)
  | .put key value =>
    let (evicted, order) := (s.1.order.touch key).shrink s.1.capacity.count
    (.stored, { s.1 with order }, (s.2.insert key value).eraseAll evicted)
  | .get key => (.found (s.2.get? key), { s.1 with order := (s.1.order.refresh key).2 }, s.2)
  | .remove key => (.removed (s.2.get? key), { s.1 with order := s.1.order.remove key }, s.2.erase key)
  | .clear => (.cleared, { s.1 with order := .empty }, .empty s.2.id)
  | .size => (.counted s.2.size, s)

/-- No operation waits or fails. -/
lemma perform_eq_done (call : Call) (s : Lru × Perpetual) (operation : Operation Json) :
    (around Perpetual.cache).perform call s operation =
      .done (.ok (after s operation).1) (after s operation).2 := by
  cases operation with
  | put key value =>
    have hput : put Perpetual.cache call key value s = (.ok (), (after s (.put key value)).2) :=
      congrArg (Cache.lift _) (Perpetual.removeAll_eq ..)
    have hunlocked : (around Perpetual.cache).unlocked s = true := rfl
    rw [Cache.perform, Cache.gated_of_unlocked hunlocked]
    exact congrArg (fun result => (Action.ofResult result).map _) hput
  | _ => rfl

variable {s : Lru × Perpetual}

/-- The layer tracks the stored keys after every operation. -/
lemma tracked_after (h : s.2.Tracked s.1.order.keys) (operation : Operation Json) :
    (after s operation).2.2.Tracked (after s operation).2.1.order.keys := by
  have hkeeps := tracking (Perpetual.direct fun _ => True)
  have hputs : operation.Puts fun _ => True := by cases operation <;> trivial
  have hafter := hkeeps.perform (.at 0 0) hputs ⟨h, fun _ _ _ => trivial⟩
  rw [perform_eq_done] at hafter
  exact hafter.1

/-- A put keeps the keys that were used last, as many as there is capacity for. -/
lemma get?_after_put (h : s.2.Tracked s.1.order.keys) (key : String) (value : Json) (other : String) :
    (after s (.put key value)).2.2.get? other =
      if other ∈ (s.1.order.touch key).keys.take s.1.capacity.count then (s.2.insert key value).get? other
      else none := by
  have htouched := h.touch key value
  have hsplit := List.take_append_drop s.1.capacity.count (s.1.order.touch key).keys
  have hafter : (after s (.put key value)).2.2 =
      (s.2.insert key value).eraseAll ((s.1.order.touch key).keys.drop s.1.capacity.count).reverse := rfl
  rw [hafter, Perpetual.get?_eraseAll]
  simp only [List.mem_reverse]
  by_cases hkept : other ∈ (s.1.order.touch key).keys.take s.1.capacity.count
  · rw [if_pos hkept, if_neg fun hgone => ?_]
    rw [← hsplit] at htouched
    exact (List.nodup_append.1 htouched.nodup).2.2 other hkept other hgone rfl
  · rw [if_neg hkept]
    split
    · rfl
    · rename_i hstays
      -- a key on neither side of the cut was not stored before it either
      have hnot : other ∉ (s.2.insert key value).keys := by
        rw [htouched.mem, ← hsplit, List.mem_append]
        exact not_or.2 ⟨hkept, hstays⟩
      rw [Perpetual.mem_keys, not_exists] at hnot
      exact Option.eq_none_iff_forall_ne_some.2 hnot

/-! ## Operations and changes of the capacity -/

open Fifo (Use)

/-- What a use leads to: an operation, or an assignment of the capacity. -/
def use (s : Lru × Perpetual) : Use → Lru × Perpetual
  | .perform call operation => ((around Perpetual.cache).perform call s operation).state
  | .resize n => ((attributes.assign "size" (.int n) s.1).2, s.2)

/-- What some uses of a new layer lead to. -/
def useAll (uses : List Use) (id : String) : Lru × Perpetual :=
  uses.foldl use (.empty, .empty id)

def usedKey? : Use → Option String
  | .perform _ operation => operation.key?
  | .resize _ => none

/-- The key that each use used, the latest first. -/
def usedKeys (uses : List Use) : List (Option String) :=
  (uses.map usedKey?).reverse

lemma usedKeys_concat (uses : List Use) (last : Use) :
    usedKeys (uses ++ [last]) = usedKey? last :: usedKeys uses := by
  rw [usedKeys, List.map_append, List.reverse_append]
  rfl

variable {used : List (Option String)}

lemma inOrder_after (h : Recency.InOrder used s.1.order.keys) (operation : Operation Json) :
    Recency.InOrder (operation.key? :: used) (after s operation).2.1.order.keys := by
  cases operation with
  | put key value => exact (h.touch key).sublist (List.take_sublist ..)
  | get key => exact h.refresh key
  | remove key => exact (h.sublist List.filter_sublist).pass fun _ _ => nofun
  | clear => exact .nil
  | size => exact h.pass fun _ _ => nofun

/-- One case per use. -/
lemma byRecency_use (h : s.2.ByRecency used s.1.order.keys) (last : Use) :
    (use s last).2.ByRecency (usedKey? last :: used) (use s last).1.order.keys := by
  cases last with
  | perform call operation =>
    have hstate : use s (.perform call operation) = (after s operation).2 :=
      congrArg Action.state (perform_eq_done call s operation)
    rw [hstate]
    exact ⟨inOrder_after h.inOrder operation, tracked_after h.tracked operation⟩
  | resize n =>
    -- an assignment changes the capacity at most
    have horder : (use s (.resize n)).1.order = s.1.order := by
      simp only [use, attributes, Attributes.single, Capacity.ofValue, if_true]
      cases Capacity.ofInt n <;> rfl
    rw [horder]
    exact ⟨h.inOrder.pass (by simp [usedKey?]), h.tracked⟩

/-- By induction on the uses. -/
lemma byRecency_useAll (uses : List Use) (id : String) :
    (useAll uses id).2.ByRecency (usedKeys uses) (useAll uses id).1.order.keys := by
  induction uses using List.reverseRecOn with
  | nil => exact ⟨.nil, .nil, fun _ => .rfl⟩
  | append_singleton uses last ih =>
    rw [usedKeys_concat, useAll, List.foldl_concat]
    exact byRecency_use ih last

/-- After any operations and changes of the capacity, the tracked keys are the stored ones in the order of
their last use, and every further operation succeeds. A put leaves the stored keys that were used last, as many
as there were, or as there is capacity for if that is less, with the values that they had. The capacity becomes
every positive number that is assigned; zero is refused and changes nothing. -/
theorem keeps_last_used (uses : List Use) (id : String) :
    let s := useAll uses id
    s.2.ByRecency (usedKeys uses) s.1.order.keys ∧
    (∀ call operation, ∃ answer, (around Perpetual.cache).perform call s operation =
      .done (.ok answer) (useAll (uses ++ [.perform call operation]) id)) ∧
    (∀ call key value,
      let stored := s.2.insert key value
      let s' := useAll (uses ++ [.perform call (.put key value)]) id
      ∃ recent, stored.ByRecency (some key :: usedKeys uses) recent ∧ s'.2.get? key = some value ∧
        ∀ other, s'.2.get? other =
          if other ∈ recent.take (min s.1.capacity.count stored.size) then stored.get? other else none) ∧
    (∀ capacity : Capacity,
      attributes.assign "size" (.int capacity.count) s.1 = (.ok (), { s.1 with capacity })) ∧
    attributes.assign "size" (.int 0) s.1 = (.error (.invalidCapacity 0), s.1) := by
  intro s
  have h : s.2.ByRecency (usedKeys uses) s.1.order.keys := byRecency_useAll uses id
  have hnext (call operation) : useAll (uses ++ [.perform call operation]) id = (after s operation).2 := by
    rw [useAll, List.foldl_concat]
    exact congrArg Action.state (perform_eq_done call s operation)
  refine ⟨h, fun call operation => ?_, fun call key value => ?_, fun capacity => ?_, rfl⟩
  · rw [hnext]
    exact ⟨_, perform_eq_done call s operation⟩
  · intro stored s'
    have htouched : stored.Tracked (s.1.order.touch key).keys := h.tracked.touch key value
    have hput (other) : s'.2.get? other =
        if other ∈ (s.1.order.touch key).keys.take s.1.capacity.count then stored.get? other else none := by
      rw [show s' = _ from hnext call _]
      exact get?_after_put h.tracked key value other
    refine ⟨(s.1.order.touch key).keys, ⟨h.inOrder.touch key, htouched⟩, ?_, fun other => ?_⟩
    · -- the key that is put comes first, and there is capacity for one key at least
      have hfirst : key ∈ (s.1.order.touch key).keys.take s.1.capacity.count := by
        rw [Recency.touch, List.take_cons s.1.capacity.positive]
        exact List.mem_cons_self
      rw [hput, if_pos hfirst, Perpetual.get?_insert, if_pos rfl]
    · rw [hput, htouched.size, ← List.take_take, List.take_length]
  · have hcapacity : Capacity.ofInt capacity.count = .ok capacity := dif_pos capacity.positive
    simp only [attributes, Attributes.single, Capacity.ofValue, if_true, hcapacity]
    rfl

/-- There is room for two of four keys when a fifth one is put. -/
example : (useAll [.perform (.at 0 0) (.put "a" .null), .perform (.at 0 1) (.put "b" .null),
    .perform (.at 0 2) (.put "c" .null), .perform (.at 0 3) (.put "d" .null), .perform (.at 0 4) (.get "b"),
    .resize 2, .perform (.at 0 5) (.put "e" .null)] "users").2.keys = ["e", "b"] := by
  decide +kernel

end Lru

end LayeredCache
