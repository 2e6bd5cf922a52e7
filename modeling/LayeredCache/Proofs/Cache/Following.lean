import LayeredCache.Proofs.Cache.Program

/-!
# Caches that follow a reference

A cache follows a reference if a relation between their states, which every operation keeps, makes it
answer as the reference does. The cache may store its values in another form than the reference has them.
-/

namespace LayeredCache

variable {V σ α : Type}

/-- The relation `related` between the states of a cache and of a reference is kept by every operation of
a call that is among `calls`, and no operation fails or waits. `code` is the form in which the cache is
given a value. -/
structure Matches (calls : Call → Prop) (cache : Cache σ) (ideal : Ideal V α) (code : V → Json)
    (related : σ → α → Prop) : Prop where
  unlocked {s a} : related s a → cache.unlocked s = true
  put {s a} (call key value) : related s a → calls call →
    ∃ s', cache.put call key (code value) s = (.ok (), s') ∧
      related s' (ideal.put call.now key value a)
  get {s a} (call key) : related s a → calls call →
    ∃ s', cache.get call key s = .done (.ok ((ideal.get call.now key a).1.map code)) s' ∧
      related s' (ideal.get call.now key a).2
  remove {s a} (call key) : related s a → calls call →
    ∃ s', cache.remove call key s = (.ok ((ideal.remove call.now key a).1.map code), s') ∧
      related s' (ideal.remove call.now key a).2
  clear {s a} (call) : related s a → calls call →
    ∃ s', cache.clear call s = (.ok (), s') ∧ related s' (ideal.clear call.now a)
  size {s a} (call) : related s a → calls call →
    ∃ s', cache.size call s = (.ok (ideal.size call.now a).1, s') ∧
      related s' (ideal.size call.now a).2

/-- From the states `s` and `a` on, the cache answers the calls among `calls` as the reference does. -/
def Cache.Follows (calls : Call → Prop) (cache : Cache σ) (ideal : Ideal V α) (code : V → Json)
    (s : σ) (a : α) : Prop :=
  ∃ related, Matches calls cache ideal code related ∧ related s a

/-- Fewer calls are easier to follow. -/
lemma Cache.Follows.mono {calls fewer : Call → Prop} {cache : Cache σ} {ideal : Ideal V α}
    {code : V → Json} {s : σ} {a : α} (h : cache.Follows calls ideal code s a)
    (hfewer : ∀ call, fewer call → calls call) : cache.Follows fewer ideal code s a := by
  obtain ⟨related, hmatches, hrelated⟩ := h
  refine ⟨related, ?_, hrelated⟩
  constructor
  · exact hmatches.unlocked
  · exact fun call key value hr hc => hmatches.put call key value hr (hfewer _ hc)
  · exact fun call key hr hc => hmatches.get call key hr (hfewer _ hc)
  · exact fun call key hr hc => hmatches.remove call key hr (hfewer _ hc)
  · exact fun call hr hc => hmatches.clear call hr (hfewer _ hc)
  · exact fun call hr hc => hmatches.size call hr (hfewer _ hc)

/-- One operation has the outcome that the reference gives, and keeps the relation. -/
lemma Matches.perform {calls : Call → Prop} {cache : Cache σ} {ideal : Ideal V α} {code : V → Json}
    {related : σ → α → Prop} (h : Matches calls cache ideal code related) {s : σ} {a : α} {call : Call}
    (hrelated : related s a) (hcall : calls call) (operation : Operation V) :
    ∃ s', cache.perform call s (operation.map code) =
        .done (.ok ((ideal.perform call.now a operation).1.map code)) s' ∧
      related s' (ideal.perform call.now a operation).2 := by
  have hunlocked := h.unlocked hrelated
  cases operation with
  | put key value =>
    obtain ⟨s', hput, hs'⟩ := h.put call key value hrelated hcall
    refine ⟨s', ?_, hs'⟩
    simp only [Operation.map, Cache.perform, Cache.gated_of_unlocked hunlocked, hput]
    rfl
  | get key =>
    obtain ⟨s', hget, hs'⟩ := h.get call key hrelated hcall
    refine ⟨s', ?_, hs'⟩
    simp only [Operation.map, Cache.perform, hget]
    rfl
  | remove key =>
    obtain ⟨s', hremove, hs'⟩ := h.remove call key hrelated hcall
    refine ⟨s', ?_, hs'⟩
    simp only [Operation.map, Cache.perform, Cache.gated_of_unlocked hunlocked, hremove]
    rfl
  | clear =>
    obtain ⟨s', hclear, hs'⟩ := h.clear call hrelated hcall
    refine ⟨s', ?_, hs'⟩
    simp only [Operation.map, Cache.perform, Cache.gated_of_unlocked hunlocked, hclear]
    rfl
  | size =>
    obtain ⟨s', hsize, hs'⟩ := h.size call hrelated hcall
    refine ⟨s', ?_, hs'⟩
    simp only [Operation.map, Cache.perform, Cache.gated_of_unlocked hunlocked, hsize]
    rfl

/-- A cache that follows a reference runs every program as the reference does. -/
theorem Cache.Follows.run_eq {calls : Call → Prop} {cache : Cache σ} {ideal : Ideal V α}
    {code : V → Json} {s : σ} {a : α} (h : cache.Follows calls ideal code s a) (thread : Nat)
    (hcalls : ∀ now, calls (.at thread now)) (program : List (Nat × Operation V)) :
    (cache.run thread (program.map fun (now, operation) => (now, operation.map code)) s).map Prod.fst =
      some ((ideal.run program a).map fun answer => .ok (answer.map code)) := by
  obtain ⟨related, hmatches, hrelated⟩ := h
  -- the induction is on the program; the relation is what each operation keeps
  induction program generalizing s a with
  | nil => rfl
  | cons head program ih =>
    obtain ⟨now, operation⟩ := head
    obtain ⟨s', hperform, hs'⟩ := hmatches.perform hrelated (hcalls now) operation
    have hrest := ih hs'
    simp only [List.map_cons, Cache.run, hperform, Action.alone, Ideal.run]
    rw [Option.map_map]
    rw [Option.map_eq_some_iff] at hrest ⊢
    obtain ⟨result, hrun, hresult⟩ := hrest
    refine ⟨result, hrun, ?_⟩
    simp only [Function.comp_apply, hresult]
    rfl

end LayeredCache
