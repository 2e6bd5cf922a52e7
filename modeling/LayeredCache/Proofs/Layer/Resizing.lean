import LayeredCache.Proofs.Layer.Direct

/-!
# Resizing a queue

A smaller capacity takes effect at the next put, which then evicts several keys at once. They can include the
very key that is put: the queue has forgotten the key when its value is stored, so the key is stored and not
tracked. Apart from such strays, a queue that is resized at any time tracks the stored keys.
-/

namespace LayeredCache.Fifo

/-! ## Operations and resizing -/

/-- What is done to a queue around the storage: an operation, or an assignment of the capacity. -/
inductive Use where
  | perform (call : Call) (operation : Operation Json)
  | resize (n : Int)

def Use.apply (s : Fifo × Perpetual) : Use → Fifo × Perpetual
  | .perform call operation => ((around Perpetual.cache).perform call s operation).state
  | .resize n => ((attributes.assign "size" (.int n) s.1).2, s.2)

/-- The keys that a put of a key evicts. -/
def evictedBy (key : String) (s : Fifo) : List String :=
  (enqueue s.queue key).take ((enqueue s.queue key).length - s.capacity.count)

/-- The strays after one more use: a put that evicts its own key makes it a stray, and any other put, a removal
and a clear end that. -/
def Use.strays (s : Fifo × Perpetual) (strays : List String) : Use → List String
  | .perform _ (.put key _) =>
    if key ∈ s.1.evictedBy key then key :: strays.filter (· ≠ key) else strays.filter (· ≠ key)
  | .perform _ (.remove key) => strays.filter (· ≠ key)
  | .perform _ .clear => []
  | _ => strays

/-- What some uses lead to. -/
structure Trail where
  state : Fifo × Perpetual
  strays : List String

/-- What some uses of a new layer lead to. -/
def useAll (uses : List Use) (id : String) : Trail :=
  uses.foldl (fun trail use => ⟨use.apply trail.state, use.strays trail.state trail.strays⟩)
    ⟨(.empty, .empty id), []⟩

lemma useAll_concat (uses : List Use) (use : Use) (id : String) : useAll (uses ++ [use]) id =
    ⟨use.apply (useAll uses id).state, use.strays (useAll uses id).state (useAll uses id).strays⟩ :=
  List.foldl_concat ..

/-! ## What every use keeps -/

/-- The queue has each key once, and the stored keys are those in the queue and the strays. -/
structure Settled (s : Fifo × Perpetual) (strays : List String) : Prop where
  nodup : s.1.queue.Nodup
  stored : ∀ key, key ∈ s.2.keys ↔ key ∈ s.1.queue ∨ key ∈ strays
  apart : ∀ key ∈ strays, key ∉ s.1.queue

variable {s : Fifo × Perpetual} {strays : List String} {call : Call} {key : String} {value : Json}

/-- The queue after a put has what is not evicted. -/
lemma queue_put (s : Fifo × Perpetual) (call : Call) (key : String) (value : Json) :
    (Use.apply s (.perform call (.put key value))).1 = { s.1 with
      queue := (enqueue s.1.queue key).drop ((enqueue s.1.queue key).length - s.1.capacity.count) } := by
  obtain ⟨rest, hremove, -⟩ :=
    (Perpetual.direct fun _ => True).removeAll call (s.1.evictedBy key) fun _ _ _ => trivial
  show (put Perpetual.cache call key value s).2.1 = _
  simp only [put, evictedBy] at hremove ⊢
  rw [hremove]
  rfl

/-- A put stores its key after it has evicted others. -/
lemma mem_keys_put {other : String} :
    other ∈ (Use.apply s (.perform call (.put key value))).2.keys ↔
      other = key ∨ (other ∈ s.2.keys ∧ other ∉ s.1.evictedBy key) := by
  obtain ⟨rest, hremove, hrest, -⟩ :=
    (Perpetual.direct fun _ => True).removeAll call (s.1.evictedBy key) fun _ _ _ => trivial
  have hput : (Use.apply s (.perform call (.put key value))).2 = rest.insert key value := by
    show (put Perpetual.cache call key value s).2.2 = _
    simp only [put, evictedBy] at hremove ⊢
    rw [hremove]
    rfl
  rw [hput, Perpetual.mem_keys_insert, hrest]

/-- Every key of the queue and the key that is put is either evicted or stays, and not both. -/
private lemma evicted_or_stays (h : s.1.queue.Nodup) (key other : String) :
    (other ∈ s.1.evictedBy key ∨
      other ∈ (enqueue s.1.queue key).drop ((enqueue s.1.queue key).length - s.1.capacity.count) ↔
      other ∈ s.1.queue ∨ other = key) ∧
    (other ∈ s.1.evictedBy key →
      other ∉ (enqueue s.1.queue key).drop ((enqueue s.1.queue key).length - s.1.capacity.count)) := by
  constructor
  · rw [evictedBy, ← List.mem_append, List.take_append_drop, mem_enqueue]
  · have hnodup : (enqueue s.1.queue key).Nodup := nodup_enqueue h
    rw [← List.take_append_drop ((enqueue s.1.queue key).length - s.1.capacity.count)
      (enqueue s.1.queue key)] at hnodup
    exact fun hgone hkept => (List.nodup_append.1 hnodup).2.2 other hgone other hkept rfl

lemma Settled.put (h : Settled s strays) : Settled (Use.apply s (.perform call (.put key value)))
    (Use.strays s strays (.perform call (.put key value))) := by
  refine ⟨?_, fun other => ?_, fun other hstray => ?_⟩
  · rw [queue_put]
    exact (nodup_enqueue h.nodup).sublist (List.drop_sublist ..)
  · obtain ⟨hsplit, hdisjoint⟩ := evicted_or_stays h.nodup key other
    have hapart := h.apart other
    rw [mem_keys_put, h.stored, queue_put, Use.strays]
    -- whether the put evicts its own key decides if the key is queued or a stray
    by_cases hother : other = key
    · subst hother
      split <;> grind
    · split <;> grind
  · obtain ⟨hsplit, hdisjoint⟩ := evicted_or_stays h.nodup key other
    have hapart := h.apart other
    rw [Use.strays] at hstray
    rw [queue_put]
    split at hstray <;> grind

/-- One case per use. -/
lemma Settled.apply (h : Settled s strays) (use : Use) : Settled (use.apply s) (use.strays s strays) := by
  cases use with
  | resize n =>
    have hqueue : ((attributes.assign "size" (.int n) s.1).2).queue = s.1.queue := by
      simp only [attributes, Attributes.single, Capacity.ofValue, if_true]
      cases Capacity.ofInt n <;> rfl
    exact ⟨hqueue ▸ h.nodup, hqueue ▸ h.stored, hqueue ▸ h.apart⟩
  | perform call operation =>
    cases operation with
    | put key value => exact h.put
    | get key => exact h
    | size => exact h
    | clear => exact ⟨.nil, fun _ => or_self_iff.symm, nofun⟩
    | remove key =>
      have hstate : (Use.perform call (.remove key)).apply s =
          ({ s.1 with queue := s.1.queue.filter (· ≠ key) }, s.2.erase key) := rfl
      rw [hstate]
      refine ⟨h.nodup.filter _, fun other => ?_, fun other hstray => ?_⟩
      · rw [Perpetual.mem_keys_erase, h.stored]
        simp only [Use.strays, List.mem_filter]
        grind
      · simp only [Use.strays, List.mem_filter] at hstray ⊢
        exact fun hqueued => h.apart other hstray.1 hqueued.1

/-- By induction on the uses. -/
lemma settled_useAll (uses : List Use) (id : String) : Settled (useAll uses id).state (useAll uses id).strays := by
  induction uses using List.reverseRecOn with
  | nil => exact ⟨.nil, fun _ => or_self_iff.symm, nofun⟩
  | append_singleton uses use ih =>
    rw [useAll_concat]
    exact ih.apply use

/-- After every put, however often the capacity has changed before, the queue has at most as many keys as the
capacity says, each once. The stored keys are those in the queue and the strays, so the queue has all of them
exactly if there are no strays. -/
theorem mem_keys_after_put (uses : List Use) (call : Call) (key : String) (value : Json) (id : String) :
    let trail := useAll (uses ++ [.perform call (.put key value)]) id
    trail.state.1.queue.Nodup ∧ trail.state.1.queue.length ≤ trail.state.1.capacity.count ∧
    (∀ other, other ∈ trail.state.2.keys ↔ other ∈ trail.state.1.queue ∨ other ∈ trail.strays) ∧
    ((∀ other, other ∈ trail.state.2.keys ↔ other ∈ trail.state.1.queue) ↔ trail.strays = []) := by
  intro trail
  have h : Settled trail.state trail.strays := settled_useAll ..
  refine ⟨h.nodup, ?_, h.stored, fun hexact => ?_, fun hnone other => ?_⟩
  · have htrail : trail = _ := useAll_concat ..
    rw [htrail, queue_put, List.length_drop]
    show _ ≤ (useAll uses id).state.1.capacity.count
    omega
  · refine List.eq_nil_iff_forall_not_mem.2 fun other hstray => h.apart other hstray ?_
    exact (hexact other).1 ((h.stored other).2 (.inr hstray))
  · rw [h.stored, hnone]
    simp

/-- Four keys are put, and then there is room for two. The put of the first key evicts it together with the
second, and stores it. -/
def shrinksToTwo : List Use :=
  [.perform (.at 0 0) (.put "a" .null), .perform (.at 0 1) (.put "b" .null), .perform (.at 0 2) (.put "c" .null),
    .perform (.at 0 3) (.put "d" .null), .resize 2]

/-- A put can leave a key that is stored and not tracked, and more keys than there is capacity for. -/
theorem stray_after_shrinking :
    ¬∀ (uses : List Use) (call : Call) (key : String) (value : Json) (id : String),
      let trail := useAll (uses ++ [.perform call (.put key value)]) id
      (∀ other, other ∈ trail.state.2.keys ↔ other ∈ trail.state.1.queue) ∧
      trail.state.2.size ≤ trail.state.1.capacity.count := by
  intro h
  obtain ⟨-, hsize⟩ := h shrinksToTwo (.at 0 4) "a" (.bool true) "users"
  have hthree : (useAll (shrinksToTwo ++ [.perform (.at 0 4) (.put "a" (.bool true))]) "users").state.2.size = 3 :=
    rfl
  have htwo : (useAll (shrinksToTwo ++
      [.perform (.at 0 4) (.put "a" (.bool true))]) "users").state.1.capacity.count = 2 := rfl
  rw [hthree, htwo] at hsize
  exact absurd hsize (by decide)

end LayeredCache.Fifo
