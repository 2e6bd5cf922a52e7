import LayeredCache.Proofs.Assembly.ChainViews

/-!
# Values that are handed back

In a cache that nothing clears by schedule, the value of a put that succeeds is there: the next lookup gives it,
and so does a removal in its place (`Spec.handed_back`). What is nested deeper than the reader goes is stored as
well, but neither of them can read it (`Spec.not_handed_back`).
-/

namespace LayeredCache

variable {σ : Type} {cache : Cache σ} {view : View σ} {calls : Call → Prop} {ok : Nat → σ → Prop}

namespace Cache.Stores

/-- What is known of the state holds after every history of the threads that make the calls. -/
lemma history {threads : Nat → Prop} {values : Json → Prop} {first s : σ} {start last : Nat} {log : List (Event σ)}
    (h : cache.Stores view calls ok) (hcalls : ∀ thread now, threads thread → calls (.at thread now))
    (hhistory : cache.History threads values first start log s last) (hfirst : ok start first) : ok last s := by
  refine hhistory.holds ?_ ?_ h.later hfirst
  · intro s thread now operation outcome s' later hs hthread _ halone
    obtain ⟨outcome', s'', hperform, hs'', -⟩ := h.perform (hcalls thread now hthread) hs operation
    rw [hperform] at halone
    cases halone
    exact hs''
  · exact fun key hs hthread => (h.release _ key (hcalls _ _ hthread) hs).1

variable {s s' : σ} {thread now later : Nat} {key : String} {value : Json}

/-- Without a layer that clears, a put that succeeds leaves its value behind. -/
lemma entry_of_put (h : cache.Stores view calls ok) (hsteady : view.Steady) (hcall : calls (.at thread now))
    (hs : ok now s)
    (hput : (cache.perform (.at thread now) s (.put key value)).alone now = some (.ok .stored, s', later)) :
    later = now ∧ ok now s' ∧ view.entry key s' = some (view.form value) := by
  obtain ⟨hs', hstored⟩ := h.put (.at thread now) key value hcall hs
  rw [Cache.perform, Cache.gated_of_unlocked (h.unlocked hs)] at hput
  rcases hresult : cache.put (.at thread now) key value s with ⟨outcome, rest⟩
  rw [hresult] at hs' hstored hput
  cases outcome with
  | error e => cases hput
  | ok u =>
    cases hput
    exact ⟨rfl, hs', hstored.steady hsteady rfl⟩

/-- What is stored in a form that can be read is found, and removed, without waiting. -/
lemma gives_back (h : cache.Stores view calls ok) (hsteady : view.Steady) (hcall : calls (.at thread now))
    (hs : ok now s) (hentry : view.entry key s = some (view.form value))
    (hback : view.back (view.form value) = some value) :
    (∃ after, cache.perform (.at thread now) s (.get key) = .done (.ok (.found (some value))) after) ∧
      ∃ after, cache.perform (.at thread now) s (.remove key) = .done (.ok (.removed (some value))) after := by
  have hanswer {found : Found} (hfound : found.toOption = view.answer (view.entry key s)) :
      found = .ok (some value) := by
    have hsome : view.answer (view.entry key s) = some (some value) := by
      rw [hentry]
      exact congrArg (Option.map some) hback
    rw [hsome] at hfound
    cases found with
    | error e => cases hfound
    | ok found => exact congrArg Except.ok (Option.some.inj hfound)
  constructor
  · obtain ⟨found, after, hget, -, hlooked⟩ := h.get (.at thread now) key hcall hs
    obtain rfl := hanswer (hlooked.fresh (hsteady _ s)).1
    refine ⟨after, ?_⟩
    rw [Cache.perform, hget]
    rfl
  · obtain ⟨-, hremoved⟩ := h.remove (.at thread now) key hcall hs
    have houtcome := hanswer (hremoved.fresh (hsteady _ s)).1
    refine ⟨(cache.remove (.at thread now) key s).2, ?_⟩
    rw [Cache.perform, Cache.gated_of_unlocked (h.unlocked hs), Action.ofResult, houtcome]
    rfl

end Cache.Stores

namespace Spec

variable {E : Extension} {spec : Spec E} {start : Nat}

/-- Without a clear interval, nothing clears but custom decorators. -/
lemma scheduled_notMem_lockedLayers (hinterval : spec.clearInterval = none) (start : Nat) {custom : List (Layer E)}
    (hscheduled : .scheduled ∉ custom.map Layer.kind) :
    .scheduled ∉ (spec.lockedLayers start custom).map Layer.kind := by
  have hsynced : .scheduled ∉ (spec.syncedLayers start).map Layer.kind := by
    rw [syncedLayers, scheduledLayers, hinterval]
    cases spec.readWrite <;> simp
  simp only [lockedLayers, List.map_cons, List.map_reverse, List.map_append, List.mem_cons, List.mem_reverse,
    List.mem_append, not_or]
  exact ⟨by simp, hscheduled, hsynced⟩

/-- What is known through its view of a built cache that one thread uses and no layer clears. -/
lemma BuiltIn.exists_stores_steady {stack : Stack E} (hbuiltIn : spec.BuiltIn) (hbuild : spec.build start = .ok stack)
    (hinterval : spec.clearInterval = none) (hscheduled : .scheduled ∉ spec.kinds) (thread : Nat) :
    ∃ (ds : List (DecoratorKind E)) (state : Chain .perpetual ds) (ok : Nat → Chain .perpetual ds → Prop),
      stack = ⟨.perpetual, ds, state⟩ ∧
      (Chain.cache .perpetual ds).Stores (Chain.view ds) (fun call => call.thread = thread) ok ∧
      ok start state ∧ (Chain.view ds).Steady := by
  obtain ⟨custom, hkinds, hnew, hstack⟩ := hbuiltIn.exists_locked hbuild
  obtain ⟨ok, hstores, hfirst⟩ := Chain.exists_stores (p := .empty spec.id) (new_of_mem_lockedLayers hnew)
  have hsteady := Chain.steady_view (scheduled_notMem_lockedLayers hinterval start (hkinds ▸ hscheduled))
  rcases hstack with rfl | rfl
  · exact ⟨_, _, _, rfl, hstores.mono fun _ _ => trivial, hfirst, hsteady⟩
  · exact ⟨_, _, _, rfl, (Blocking.stores thread hstores).mono fun _ hcall => ⟨trivial, hcall⟩,
      ⟨nofun, hfirst⟩, fun call s => hsteady call s.2⟩

/-- Whatever one thread has done to a built cache that no layer clears: when a put has succeeded, a lookup gives
its value, and so does a removal in its place. -/
theorem handed_back {stack : Stack E} (hbuiltIn : spec.BuiltIn) (hbuild : spec.build start = .ok stack)
    (hinterval : spec.clearInterval = none) (hscheduled : .scheduled ∉ spec.kinds) (thread : Nat) :
    ∃ (ds : List (DecoratorKind E)) (state : Chain .perpetual ds), stack = ⟨.perpetual, ds, state⟩ ∧
      ∀ log s last, (Chain.cache .perpetual ds).History (· = thread) (fun _ => True) state start log s last →
        ∀ now key value s' later, last ≤ now → value.Storable →
          ((Chain.cache .perpetual ds).perform (.at thread now) s (.put key value)).alone now =
            some (.ok .stored, s', later) →
          ∀ now', later ≤ now' →
            (∃ after, (Chain.cache .perpetual ds).perform (.at thread now') s' (.get key) =
              .done (.ok (.found (some value))) after) ∧
            ∃ after, (Chain.cache .perpetual ds).perform (.at thread now') s' (.remove key) =
              .done (.ok (.removed (some value))) after := by
  obtain ⟨ds, state, ok, rfl, hstores, hfirst, hsteady⟩ :=
    hbuiltIn.exists_stores_steady hbuild hinterval hscheduled thread
  refine ⟨ds, state, rfl, fun log s last hhistory now key value s' later hle hvalue hput now' hle' => ?_⟩
  have hs := hstores.later (hstores.history (fun _ _ hthread => hthread) hhistory hfirst) hle
  obtain ⟨rfl, hs', hentry⟩ := hstores.entry_of_put hsteady rfl hs hput
  have hback : (Chain.view ds).back ((Chain.view ds).form value) = some value :=
    Chain.back_form_self ⟨hvalue.wellFormed, hvalue.shallow⟩ (.inr hvalue.readBack)
  exact hstores.gives_back hsteady rfl (hstores.later hs' hle') hentry hback

/-- Texts of values are kept. -/
def keepsTexts : Spec .nothing :=
  { Spec.new "users" with readWrite := true }

/-- Its layers. -/
def textLayers : List (Layer .nothing) :=
  [⟨.synchronized, Synchronized.free⟩, ⟨.logging, Logging.empty⟩, ⟨.serialized, Serialized.mk⟩, ⟨.lru, Lru.empty⟩]

lemma build_keepsTexts : keepsTexts.build 0 = .ok (.ofLayers (.empty "users") textLayers) := rfl

/-- The chain of these layers in which a value was put, however deep. -/
def withText (v : Json) : Chain .perpetual (textLayers.map Layer.kind) :=
  ((Chain.cache .perpetual _).put (.at 1 1) "k" v (Chain.ofLayers (.empty "users") textLayers)).2

lemma put_withText (v : Json) :
    ((Chain.cache .perpetual _).perform (.at 1 1) (Chain.ofLayers (.empty "users") textLayers) (.put "k" v)).alone 1 =
      some (.ok .stored, withText v, 1) := rfl

/-- A text that was put is handed back. -/
theorem handed_back_keepsTexts :
    ∃ (ds : List (DecoratorKind .nothing)) (state s' : Chain .perpetual ds),
      keepsTexts.build 0 = .ok ⟨.perpetual, ds, state⟩ ∧
      ((Chain.cache .perpetual ds).perform (.at 1 1) state (.put "k" (.string "v"))).alone 1 =
        some (.ok .stored, s', 1) ∧
      (∃ after, (Chain.cache .perpetual ds).perform (.at 1 2) s' (.get "k") =
        .done (.ok (.found (some (.string "v")))) after) ∧
      ∃ after, (Chain.cache .perpetual ds).perform (.at 1 2) s' (.remove "k") =
        .done (.ok (.removed (some (.string "v")))) after := by
  have hbuiltIn : keepsTexts.BuiltIn := ⟨nofun, nofun⟩
  obtain ⟨ds, state, hstack, hhanded⟩ := handed_back hbuiltIn build_keepsTexts rfl (by decide) 1
  cases hstack
  exact ⟨_, _, _, build_keepsTexts, put_withText _,
    hhanded [] _ 0 .new 1 "k" (.string "v") _ 1 (Nat.zero_le 1) (Json.storable_string "v") (put_withText _) 2
      (Nat.le_succ 1)⟩

/-- A value that is not read back from its text is neither found nor removed. -/
lemma performs_withText {v : Json} {reason : String} (h : Json.read v.print = .error reason) :
    (∃ after, (Chain.cache .perpetual _).perform (.at 1 2) (withText v) (.get "k") =
      .done (.error (.serialization "users" reason)) after) ∧
      ∃ after, (Chain.cache .perpetual _).perform (.at 1 2) (withText v) (.remove "k") =
        .done (.error (.serialization "users" reason)) after := by
  constructor
  · have hget : (Chain.cache .perpetual _).get (.at 1 2) "k" (withText v) =
        let (outcome, counted) := Logging.empty.record
          (Serialized.decodeFound "users" (.ok (some (Serialized.encode v))))
        .done outcome (Synchronized.free, counted, (withText v).2.2) := rfl
    rw [Serialized.decodeFound_of_error "users" h] at hget
    refine ⟨(Synchronized.free, Logging.empty, (withText v).2.2), ?_⟩
    rw [Cache.perform, hget]
    rfl
  · have hremove : ((Chain.cache .perpetual _).remove (.at 1 2) "k" (withText v)).1 =
        Serialized.decodeFound "users" (.ok (some (Serialized.encode v))) := rfl
    refine ⟨((Chain.cache .perpetual _).remove (.at 1 2) "k" (withText v)).2, ?_⟩
    rw [Cache.perform, Cache.gated_of_unlocked rfl, Action.ofResult, hremove, Serialized.decodeFound_of_error "users" h]
    rfl

/-- A value inside 128 arrays can be put, and is then neither found nor removed. -/
theorem not_handed_back :
    ∃ (ds : List (DecoratorKind .nothing)) (state s' : Chain .perpetual ds) (reason : String),
      keepsTexts.build 0 = .ok ⟨.perpetual, ds, state⟩ ∧
      ((Chain.cache .perpetual ds).perform (.at 1 1) state (.put "k" (.nested 128 (.integer 1)))).alone 1 =
        some (.ok .stored, s', 1) ∧
      (∃ after, (Chain.cache .perpetual ds).perform (.at 1 2) s' (.get "k") =
        .done (.error (.serialization "users" reason)) after) ∧
      ∃ after, (Chain.cache .perpetual ds).perform (.at 1 2) s' (.remove "k") =
        .done (.error (.serialization "users" reason)) after := by
  obtain ⟨reason, hreason⟩ := Json.read_print_nested (n := 128) (by decide) (.integer 1)
  exact ⟨_, _, _, reason, build_keepsTexts, put_withText _, performs_withText hreason⟩

end Spec

end LayeredCache
